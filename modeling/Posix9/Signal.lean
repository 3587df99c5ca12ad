import Mathlib.Logic.Function.Basic
import Posix9.Types

/-! posix9_signal.c, with sleep of posix9_misc.c. Signals are delivered by polling, so everything that
    happens is a call of the program, a step of a library function that is under way, or an arrival
    from outside. A handler is a program like any other: it may make every call, and calls that
    deliver signals run further handlers on top of it. The model takes one such step at a time; what
    the program calls next, and whether a handler returns, is part of the input. -/

namespace Posix9

/-! ### Signal numbers and sets -/

def NSIG : ℕ := 32

abbrev Signum := Fin NSIG

def SIGINT : Signum := ⟨2, by decide⟩
def SIGKILL : Signum := ⟨9, by decide⟩
def SIGUSR1 : Signum := ⟨10, by decide⟩
def SIGUSR2 : Signum := ⟨12, by decide⟩
def SIGALRM : Signum := ⟨14, by decide⟩
def SIGSTOP : Signum := ⟨19, by decide⟩

/-- `sigset_t`, an unsigned long. -/
abbrev SigSet := BitVec 32

/-- `1UL << signum`. -/
def bit (n : Signum) : SigSet := BitVec.twoPow 32 n.val

/-- `signum < 1 || signum >= NSIG` turned round: the signal a number stands for. -/
def signalOf (signum : ℤ) : Option Signum :=
  if h : 1 ≤ signum ∧ signum < NSIG then some ⟨signum.toNat, by omega⟩ else none

/-! ### Handlers and actions -/

/-- `sighandler_t`; a user handler is known by the address of its code. -/
inductive Handler where
  | SIG_DFL
  | SIG_IGN
  | user (addr : ℕ)
  deriving DecidableEq

def SA_NODEFER : BitVec 32 := 0x0040
def SA_RESETHAND : BitVec 32 := 0x0080

structure SigAction where
  sa_handler : Handler
  sa_mask : SigSet
  sa_flags : BitVec 32
  deriving DecidableEq

inductive DefaultAction where
  | TERM | IGNORE | CORE | STOP | CONT
  deriving DecidableEq

/-- `default_actions`, by signal number from 0. -/
def default_actions (n : Signum) : DefaultAction :=
  [.IGNORE, .TERM, .TERM, .CORE, .CORE, .CORE, .CORE, .CORE, .CORE, .TERM, .TERM, .CORE, .TERM, .TERM,
    .TERM, .TERM, .TERM, .IGNORE, .CONT, .STOP, .STOP, .STOP, .STOP, .IGNORE, .CORE, .CORE, .TERM,
    .TERM, .IGNORE, .TERM, .TERM, .CORE].get (n.cast rfl)

/-! ### Control -/

/-- A call of deliver_signal: the signal, and the signals blocked when it was entered. -/
structure Delivery where
  signum : Signum
  blocked : SigSet
  deriving DecidableEq

/-- What is kept of a run, and read by nothing in it. -/
inductive Event where
  | madePending (signum : Signum)
  | delivered (d : Delivery)
  deriving DecidableEq

/-- A call of sigsuspend or pause: the mask it waits under, and how long the log was at its entry. -/
inductive Wait where
  | sigsuspend (mask old_blocked : SigSet) (start : ℕ)
  | pause (entered : SigSet) (start : ℕ)
  deriving DecidableEq

/-- Who called posix9_signal_process. `hit` records of a round of a waiting loop whether a signal could
    be delivered when posix9_signal_process looked. -/
inductive Caller where
  | program
  | sleep (endTicks : ℕ)
  | round (w : Wait) (hit : Bool)
  | final (w : Wait)
  deriving DecidableEq

/-- The locals of posix9_signal_process at the head of a round of its loop. -/
structure Loop where
  caller : Caller
  i : ℕ
  to_deliver : SigSet
  delivered : ℕ
  deriving DecidableEq

/-- Where control is. -/
inductive Ctl where
  /-- In the program, or in the handler on top of the stack. -/
  | program
  /-- In posix9_signal_process, in front of the look at the keyboard. -/
  | check (c : Caller)
  /-- At the head of a round of its loop. -/
  | loop (l : Loop)
  /-- In sigsuspend or pause, at the test of the waiting loop. -/
  | test (w : Wait) (hit : Bool)
  /-- In sleep, at the end of its loop. -/
  | sleepTest (endTicks : ℕ)
  deriving DecidableEq

/-- A user handler that is running: what deliver_signal restores when it returns, and the loop it then
    goes back to. -/
structure Frame where
  signum : Signum
  old_blocked : SigSet
  resume : Loop
  deriving DecidableEq

/-- What is noted of a waiting call: a round of its loop begins, or it returns; both with what has
    been delivered since it was entered. -/
inductive WaitEvent where
  | round (delivered : List Delivery)
  | returned (w : Wait) (delivered : List Delivery)
  deriving DecidableEq

structure SignalState where
  signal_handlers : Signum → Handler
  signal_actions : Signum → SigAction
  pending_signals : SigSet
  blocked_signals : SigSet
  alarm_installed : Bool
  signals_initialized : Bool
  posix9_errno : ℤ
  /-- The value of the last call that returned. -/
  result : ℤ
  /-- ExitToShell has been called. -/
  exited : Bool
  ctl : Ctl
  stack : List Frame
  log : List Event
  waits : List WaitEvent

namespace SignalState

/-- Static storage is zero, and so is SIG_DFL. -/
def start : SignalState where
  signal_handlers _ := .SIG_DFL
  signal_actions _ := ⟨.SIG_DFL, 0, 0⟩
  pending_signals := 0
  blocked_signals := 0
  alarm_installed := false
  signals_initialized := false
  posix9_errno := 0
  result := 0
  exited := false
  ctl := .program
  stack := []
  log := []
  waits := []

/-! ### Calls that return at once -/

def init_signals (s : SignalState) : SignalState :=
  if s.signals_initialized then s
  else
    { s with
      signal_handlers := fun _ => .SIG_DFL
      signal_actions := fun _ => ⟨.SIG_DFL, 0, 0⟩
      pending_signals := 0
      blocked_signals := 0
      signals_initialized := true }

def return_ (s : SignalState) (v : ℤ) : SignalState := { s with result := v }

/-- `errno = e; return -1`. -/
def fail (s : SignalState) (e : ℤ) : SignalState := { s with posix9_errno := e, result := -1 }

/-- `pending_signals |= (1UL << sig)`, in one piece: a load and a store in the source, which `Interruptible`
    takes apart. -/
def makePending (s : SignalState) (n : Signum) : SignalState :=
  { s with pending_signals := s.pending_signals ||| bit n, log := .madePending n :: s.log }

def setHandler (s : SignalState) (n : Signum) (handler : Handler) : SignalState :=
  { s with
    signal_handlers := Function.update s.signal_handlers n handler
    signal_actions := Function.update s.signal_actions n
      { s.signal_actions n with sa_handler := handler } }

/-- It returns the old handler, or SIG_ERR as -1. -/
def signal (s : SignalState) (signum : ℤ) (handler : Handler) : Option Handler × SignalState :=
  let s := s.init_signals
  match signalOf signum with
  | none => (none, s.fail EINVAL)
  | some n =>
    if n = SIGKILL ∨ n = SIGSTOP then (none, s.fail EINVAL)
    else (some (s.signal_handlers n), s.setHandler n handler)

/-- With the old action, as it is stored through `oldact`. -/
def sigaction (s : SignalState) (signum : ℤ) (act : Option SigAction) :
    Option SigAction × SignalState :=
  let s := s.init_signals
  match signalOf signum with
  | none => (none, s.fail EINVAL)
  | some n =>
    if n = SIGKILL ∨ n = SIGSTOP then (none, s.fail EINVAL)
    else
      match act with
      | none => (some (s.signal_actions n), s.return_ 0)
      | some act => (some (s.signal_actions n),
          { s with
            signal_actions := Function.update s.signal_actions n act
            signal_handlers := Function.update s.signal_handlers n act.sa_handler
            result := 0 })

def raise (s : SignalState) (sig : ℤ) : SignalState :=
  let s := s.init_signals
  match signalOf sig with
  | none => s.fail EINVAL
  | some n => (s.makePending n).return_ 0

def getpid : ℤ := 1

def kill (s : SignalState) (pid sig : ℤ) : SignalState :=
  let s := s.init_signals
  if pid ≠ 0 ∧ pid ≠ 1 ∧ pid ≠ -1 ∧ pid ≠ getpid then s.fail ESRCH
  else if sig = 0 then s.return_ 0
  else
    match signalOf sig with
    | none => s.fail EINVAL
    | some n => (s.makePending n).return_ 0

/-- `~((1UL << SIGKILL) | (1UL << SIGSTOP))`. -/
def blockable : SigSet := ~~~(bit SIGKILL ||| bit SIGSTOP)

def SIG_BLOCK : ℤ := 0
def SIG_UNBLOCK : ℤ := 1
def SIG_SETMASK : ℤ := 2

/-- The mask `how` and `set` ask for. -/
def requested (how : ℤ) (set blocked : SigSet) : Option SigSet :=
  if how = SIG_BLOCK then some (blocked ||| set)
  else if how = SIG_UNBLOCK then some (blocked &&& ~~~set)
  else if how = SIG_SETMASK then some set
  else none

/-- With the old mask, as it is stored through `oldset`. -/
def sigprocmask (s : SignalState) (how : ℤ) (set : Option SigSet) : SigSet × SignalState :=
  let s := s.init_signals
  match set with
  | none => (s.blocked_signals,
      { s with blocked_signals := s.blocked_signals &&& blockable, result := 0 })
  | some set =>
    match requested how set s.blocked_signals with
    | none => (s.blocked_signals, s.fail EINVAL)
    | some mask => (s.blocked_signals, { s with blocked_signals := mask &&& blockable, result := 0 })

def sigpending (s : SignalState) : SigSet × SignalState :=
  let s := s.init_signals
  (s.pending_signals &&& s.blocked_signals, s.return_ 0)

def posix9_signal_pending (s : SignalState) (signum : ℤ) : Bool :=
  match signalOf signum with
  | none => false
  | some n => s.pending_signals.getLsbD n.val

/-- alarm, but for the seconds that remain of the alarm it cancels. -/
def alarm (s : SignalState) (seconds : ℕ) : SignalState :=
  { s.init_signals with alarm_installed := seconds ≠ 0 }

/-- The Time Manager task of alarm, at interrupt time. -/
def alarm_callback (s : SignalState) : SignalState :=
  { s.makePending SIGALRM with alarm_installed := false }

/-! ### Calls that wait or deliver -/

/-- What has been delivered since the log had a given length. -/
def since (s : SignalState) (start : ℕ) : List Delivery :=
  (s.log.take (s.log.length - start)).filterMap fun
    | .delivered d => some d
    | .madePending _ => none

def Wait.start : Wait → ℕ
  | .sigsuspend _ _ start => start
  | .pause _ start => start

def sigsuspend (s : SignalState) (mask : SigSet) : SignalState :=
  let s := s.init_signals
  { s with
    blocked_signals := mask
    ctl := .test (.sigsuspend mask s.blocked_signals s.log.length) false }

def pause (s : SignalState) : SignalState :=
  let s := s.init_signals
  { s with ctl := .test (.pause s.blocked_signals s.log.length) false }

/-- `now` is TickCount at its entry. -/
def sleep (s : SignalState) (seconds now : ℕ) : SignalState :=
  { s with ctl := .check (.sleep ((now + seconds * 60) % 0x100000000)) }

/-- posix9_signal_process returns to its caller. -/
def processReturns (s : SignalState) (c : Caller) (delivered : ℕ) : SignalState :=
  match c with
  | .program => { s with ctl := .program, result := delivered }
  | .sleep endTicks => { s with ctl := .sleepTest endTicks }
  | .round w hit => { s with ctl := .test w hit }
  | .final w =>
    { s with
      ctl := .program
      posix9_errno := EINTR
      result := -1
      waits := .returned w (s.since (Wait.start w)) :: s.waits }

/-- The caller, once it is known that a signal can be delivered. -/
def Caller.hit : Caller → Caller
  | .round w _ => .round w true
  | c => c

/-- posix9_signal_process up to its loop. `cmdPeriod` is whether EventAvail reports Command-period. -/
def checkSignals (s : SignalState) (c : Caller) (cmdPeriod : Bool) : SignalState :=
  let s := s.init_signals
  let s := if cmdPeriod then s.makePending SIGINT else s
  let to_deliver := s.pending_signals &&& ~~~s.blocked_signals
  if to_deliver = 0 then s.processReturns c 0
  else { s with ctl := .loop ⟨Caller.hit c, 1, to_deliver, 0⟩ }

/-- deliver_signal, called from a loop that goes on as `l`: up to the handler's first instruction, or
    where there is no user handler to its end. -/
def deliver_signal (s : SignalState) (signum : Signum) (l : Loop) : SignalState :=
  let s := { s with log := .delivered ⟨signum, s.blocked_signals⟩ :: s.log, ctl := .loop l }
  match s.signal_handlers signum with
  | .SIG_IGN => s
  | .SIG_DFL =>
    match default_actions signum with
    | .TERM | .CORE => { s with exited := true }
    | .STOP | .CONT | .IGNORE => s
  | .user _ =>
    let action := s.signal_actions signum
    let defer := if action.sa_flags &&& SA_NODEFER = 0 then bit signum else 0
    { s with
      blocked_signals := s.blocked_signals ||| action.sa_mask ||| defer
      stack := ⟨signum, s.blocked_signals, l⟩ :: s.stack
      ctl := .program }

/-- deliver_signal from the return of the handler on. -/
def handlerReturns (s : SignalState) (f : Frame) (rest : List Frame) : SignalState :=
  let s := { s with blocked_signals := f.old_blocked, ctl := .loop f.resume, stack := rest }
  if (s.signal_actions f.signum).sa_flags &&& SA_RESETHAND = 0 then s
  else s.setHandler f.signum .SIG_DFL

/-- `pending_signals &= ~(1UL << i)`, in one piece as makePending. -/
def clearPending (s : SignalState) (n : Signum) : SignalState :=
  { s with pending_signals := s.pending_signals &&& ~~~bit n }

/-- One round of the loop of posix9_signal_process. -/
def processRound (s : SignalState) (l : Loop) : SignalState :=
  if h : l.i < NSIG then
    if l.to_deliver.getLsbD l.i then
      -- `delivered++` is moved in front of deliver_signal, which does not see it
      (s.clearPending ⟨l.i, h⟩).deliver_signal ⟨l.i, h⟩
        { l with i := l.i + 1, delivered := l.delivered + 1 }
    else { s with ctl := .loop { l with i := l.i + 1 } }
  else s.processReturns l.caller l.delivered

/-- `(pending_signals & ~blocked_signals) != 0`. -/
def deliverable (s : SignalState) : Bool := s.pending_signals &&& ~~~s.blocked_signals ≠ 0

/-- `blocked_signals = old_blocked` in sigsuspend; pause has left the mask as it was. -/
def unmask (s : SignalState) : Wait → SignalState
  | .sigsuspend _ old_blocked _ => { s with blocked_signals := old_blocked }
  | .pause _ _ => s

/-- The test of the waiting loop, and what follows it up to posix9_signal_process. -/
def testWait (s : SignalState) (w : Wait) : SignalState :=
  if s.deliverable then { s.unmask w with ctl := .check (.final w) }
  else
    { s with
      ctl := .check (.round w false)
      waits := .round (s.since (Wait.start w)) :: s.waits }

/-- The end of the loop of sleep; `now` is TickCount. -/
def testSleep (s : SignalState) (endTicks now : ℕ) : SignalState :=
  if now < endTicks ∧ s.posix9_signal_pending 0 = false then { s with ctl := .check (.sleep endTicks) }
  else
    { s with
      ctl := .program
      result := if now < endTicks then ((endTicks - now) / 60 : ℕ) else 0 }

/-! ### Runs -/

end SignalState

inductive SignalCall where
  | signal (signum : ℤ) (handler : Handler)
  | sigaction (signum : ℤ) (act : Option SigAction)
  | raise (sig : ℤ)
  | kill (pid sig : ℤ)
  | sigprocmask (how : ℤ) (set : Option SigSet)
  | sigpending
  | alarm (seconds : ℕ)
  | posix9_signal_process
  | sigsuspend (mask : SigSet)
  | pause
  | sleep (seconds now : ℕ)

inductive SignalInput where
  /-- The program, or the handler that is running, makes a call. -/
  | call (c : SignalCall)
  /-- The handler that is running returns. -/
  | handlerReturns
  /-- The library function that is under way goes on, seeing this of the keyboard and the clock. -/
  | advance (cmdPeriod : Bool) (now : ℕ)
  /-- The alarm expires. -/
  | alarm_callback
  /-- Another thread raises a signal. -/
  | raiseElsewhere (sig : ℤ)

namespace SignalState

def exec (s : SignalState) : SignalCall → SignalState
  | .signal signum handler => (s.signal signum handler).2
  | .sigaction signum act => (s.sigaction signum act).2
  | .raise sig => s.raise sig
  | .kill pid sig => s.kill pid sig
  | .sigprocmask how set => (s.sigprocmask how set).2
  | .sigpending => s.sigpending.2
  | .alarm seconds => s.alarm seconds
  | .posix9_signal_process => { s with ctl := .check .program }
  | .sigsuspend mask => s.sigsuspend mask
  | .pause => s.pause
  | .sleep seconds now => s.sleep seconds now

def advance (s : SignalState) (cmdPeriod : Bool) (now : ℕ) : SignalState :=
  match s.ctl with
  | .program => s
  | .check c => s.checkSignals c cmdPeriod
  | .loop l => s.processRound l
  | .test w _ => s.testWait w
  | .sleepTest endTicks => s.testSleep endTicks now

/-- An input that does not fit the state changes nothing. -/
def step (s : SignalState) (a : SignalInput) : SignalState :=
  if s.exited then s
  else
    match a with
    | .call c => if s.ctl = .program then s.exec c else s
    | .handlerReturns =>
      match s.ctl, s.stack with
      | .program, f :: rest => s.handlerReturns f rest
      | _, _ => s
    | .advance cmdPeriod now => s.advance cmdPeriod now
    | .alarm_callback => if s.alarm_installed then s.alarm_callback else s
    | .raiseElsewhere sig => { s.raise sig with result := s.result }

/-! ### What a step does -/

section Step

variable {s : SignalState}

/-- The signals a user handler runs with blocked. -/
theorem deliver_signal_user {n : Signum} {l : Loop} {a : ℕ} (h : s.signal_handlers n = .user a) :
    (s.deliver_signal n l).blocked_signals = s.blocked_signals ||| (s.signal_actions n).sa_mask |||
      (if (s.signal_actions n).sa_flags &&& SA_NODEFER = 0 then bit n else 0) := by
  simp [deliver_signal, h]

/-- `t` is `s` but for the handlers, the mask, the alarm and what the call returns. -/
structure Kept (s t : SignalState) : Prop where
  pending : t.pending_signals = s.pending_signals
  log : t.log = s.log
  waits : t.waits = s.waits
  stack : t.stack = s.stack
  ctl : t.ctl = s.ctl
  initialized : t.signals_initialized = s.signals_initialized

theorem Kept.fail (s : SignalState) (e : ℤ) : Kept s (s.fail e) := ⟨rfl, rfl, rfl, rfl, rfl, rfl⟩

theorem signal_kept (s : SignalState) (signum : ℤ) (handler : Handler) :
    Kept s.init_signals (s.signal signum handler).2 := by
  rw [SignalState.signal]
  split
  · exact Kept.fail _ EINVAL
  · split
    · exact Kept.fail _ EINVAL
    · exact ⟨rfl, rfl, rfl, rfl, rfl, rfl⟩

theorem sigaction_kept (s : SignalState) (signum : ℤ) (act : Option SigAction) :
    Kept s.init_signals (s.sigaction signum act).2 := by
  rw [SignalState.sigaction]
  split
  · exact Kept.fail _ EINVAL
  · split
    · exact Kept.fail _ EINVAL
    · split <;> exact ⟨rfl, rfl, rfl, rfl, rfl, rfl⟩

theorem sigprocmask_kept (s : SignalState) (how : ℤ) (set : Option SigSet) :
    Kept s.init_signals (s.sigprocmask how set).2 := by
  rcases set with _ | set
  · exact ⟨rfl, rfl, rfl, rfl, rfl, rfl⟩
  · rw [SignalState.sigprocmask]
    split
    · exact Kept.fail _ EINVAL
    · exact ⟨rfl, rfl, rfl, rfl, rfl, rfl⟩

theorem step_exited (h : s.exited = true) (a : SignalInput) : s.step a = s := by
  simp [step, h]

theorem step_call (h : s.exited = false) (c : SignalCall) :
    s.step (.call c) = if s.ctl = .program then s.exec c else s := by
  simp [step, h]

theorem step_handlerReturns (h : s.exited = false) :
    (∃ f rest, s.ctl = .program ∧ s.stack = f :: rest ∧
      s.step .handlerReturns = s.handlerReturns f rest) ∨ s.step .handlerReturns = s := by
  simp only [step, h, Bool.false_eq_true, if_false]
  split
  · rename_i f rest hctl hstack
    exact .inl ⟨f, rest, hctl, hstack, rfl⟩
  · exact .inr rfl

theorem step_advance (h : s.exited = false) (cmdPeriod : Bool) (now : ℕ) :
    s.step (.advance cmdPeriod now) = s.advance cmdPeriod now := by
  simp [step, h]

theorem step_alarm_callback (h : s.exited = false) :
    s.step .alarm_callback = if s.alarm_installed then s.alarm_callback else s := by
  simp [step, h]

theorem step_raiseElsewhere (h : s.exited = false) (sig : ℤ) :
    s.step (.raiseElsewhere sig) = { s.raise sig with result := s.result } := by
  simp [step, h]

end Step

end SignalState

end Posix9
