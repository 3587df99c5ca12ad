import Posix9.Lib.Fields
import Posix9.Lib.Walk
import Posix9.Path
import Posix9.Navigation
import Posix9.PathToMac
import Posix9.PathFromMac
import Posix9.Resolvers
import Posix9.Absolute
import Posix9.Bounds
import Posix9.File
import Posix9.Lib.Runs
import Posix9.Descriptors
import Posix9.Signal
import Posix9.Delivery
import Posix9.Blocking
import Posix9.Suspend
import Posix9.Thread
import Posix9.ThreadData
import Posix9.ThreadSteps
import Posix9.Join
import Posix9.Masks
import Posix9.Pending
import Posix9.Dispositions
import Posix9.Lib.Count
import Posix9.Sync
import Posix9.CondVar
import Posix9.MutexWait
import Posix9.RwLock
import Posix9.Handles
import Posix9.Keys
import Posix9.Slots
import Posix9.Destructors
import Posix9.Creation
import Posix9.Once
import Posix9.Duplicates
import Posix9.TableSteps
import Posix9.FreedSlots
import Posix9.Append
import Posix9.Cwd
import Posix9.Getcwd
import Posix9.OpenTransport
import Posix9.Socket
import Posix9.Wire
import Posix9.SocketView
import Posix9.SocketSteps
import Posix9.SocketTurns
import Posix9.Readiness
import Posix9.EndOfStream
import Posix9.SocketFlags
import Posix9.OneNamespace
import Posix9.SocketCalls
import Posix9.Endpoints
import Posix9.Unbound
import Posix9.Abort
import Posix9.Cleanup
import Posix9.Environment
import Posix9.EnvironmentMap
import Posix9.Lib.Sha256
import Posix9.Miner
import Posix9.Digest
import Posix9.Password
import Posix9.Catalog
import Posix9.Directory
import Posix9.Truncation
import Posix9.Mkdir
import Posix9.Rename
import Posix9.Enumeration
import Posix9.Identity
import Posix9.Failures
import Posix9.Alarm
import Posix9.Lib.Ticks
import Posix9.Deadline
import Posix9.Sleep
import Posix9.Lib.Bits
import Posix9.SelectSets
import Posix9.SocketFrames
import Posix9.Answered
import Posix9.Modes
import Posix9.EnvSpace
import Posix9.Lib.Decimal
import Posix9.Strftime
import Posix9.Lib.Program
import Posix9.HttpPost
import Posix9.Tls
import Posix9.Attestation
import Posix9.Lib.Conserve
import Posix9.StreamOrder
import Posix9.Lib.Lcg
import Posix9.Random
import Posix9.Lib.Segments
import Posix9.Lib.Calendar
import Posix9.Clock
import Posix9.Lib.ByteFile
import Posix9.FileIo
import Posix9.Lib.Json
import Posix9.Lib.Http
import Posix9.Submission
import Posix9.Mining
import Posix9.Batch
import Posix9.Addresses
import Posix9.Unreached
