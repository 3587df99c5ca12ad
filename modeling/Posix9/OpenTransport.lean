import Posix9.File

/-! Open Transport as posix9_socket.c uses it. It is not part of the library, so it is a parameter, like
    the File Manager: a state, one function for the calls and one for what arrives from the network. What
    is relied on is documented behaviour, stated in `OpenTransport.Lawful` and `OpenTransport.Streams`. -/

namespace Posix9

/-! ### Result codes -/

abbrev OTResult := ℤ

def kOTNoError : OTResult := 0
def kOTBadAddressErr : OTResult := -3150
def kOTBadOptionErr : OTResult := -3151
def kOTAccessErr : OTResult := -3152
def kOTBadReferenceErr : OTResult := -3153
def kOTNoAddressErr : OTResult := -3154
def kOTOutStateErr : OTResult := -3155
def kOTBadSequenceErr : OTResult := -3156
def kOTSysErrorErr : OTResult := -3157
def kOTLookErr : OTResult := -3158
def kOTBadDataErr : OTResult := -3159
def kOTBufferOverflowErr : OTResult := -3160
def kOTFlowErr : OTResult := -3161
def kOTNotSupportedErr : OTResult := -3162
def kOTStateChangeErr : OTResult := -3163
def kOTNoDataErr : OTResult := -3164
def kOTNoDisconnectErr : OTResult := -3165
def kOTNoUDErr : OTResult := -3167
def kOTBadFlagErr : OTResult := -3168
def kOTNoRelErr : OTResult := -3169
def kOTNoStructureTypeErr : OTResult := -3171
def kOTBadNameErr : OTResult := -3172
def kOTBadQLenErr : OTResult := -3173
def kOTAddressBusyErr : OTResult := -3174
def kOTIndOutErr : OTResult := -3175
def kOTProviderMismatchErr : OTResult := -3176
def kOTResQLenErr : OTResult := -3177
def kOTResAddressErr : OTResult := -3178
def kOTQFullErr : OTResult := -3179
def kOTProtocolErr : OTResult := -3180
def kEPERMErr : OTResult := -3200
def kENOENTErr : OTResult := -3201
def kOTBadSyncErr : OTResult := -3203
def kOTCanceledErr : OTResult := -3204
def kENXIOErr : OTResult := -3205
def kEBADFErr : OTResult := -3208
def kEAGAINErr : OTResult := -3210
def kENOMEMErr : OTResult := -3211
def kEACCESErr : OTResult := -3212
def kEFAULTErr : OTResult := -3213
def kEBUSYErr : OTResult := -3215
def kEEXISTErr : OTResult := -3216
def kENODEVErr : OTResult := -3218
def kEINVALErr : OTResult := -3221
def kENOTTYErr : OTResult := -3224
def kEPIPEErr : OTResult := -3231
def kERANGEErr : OTResult := -3233
def kEWOULDBLOCKErr : OTResult := -3234
def kEDEADLKErr : OTResult := -3235
def kEALREADYErr : OTResult := -3236
def kENOTSOCKErr : OTResult := -3237
def kEDESTADDRREQErr : OTResult := -3238
def kEMSGSIZEErr : OTResult := -3239
def kEPROTOTYPEErr : OTResult := -3240
def kENOPROTOOPTErr : OTResult := -3241
def kEPROTONOSUPPORTErr : OTResult := -3242
def kESOCKTNOSUPPORTErr : OTResult := -3243
def kEOPNOTSUPPErr : OTResult := -3244
def kEADDRINUSEErr : OTResult := -3247
def kEADDRNOTAVAILErr : OTResult := -3248
def kENETDOWNErr : OTResult := -3249
def kENETUNREACHErr : OTResult := -3250
def kENETRESETErr : OTResult := -3251
def kECONNABORTEDErr : OTResult := -3252
def kECONNRESETErr : OTResult := -3253
def kENOBUFSErr : OTResult := -3254
def kEISCONNErr : OTResult := -3255
def kENOTCONNErr : OTResult := -3256
def kESHUTDOWNErr : OTResult := -3257
def kETIMEDOUTErr : OTResult := -3259
def kECONNREFUSEDErr : OTResult := -3260
def kEHOSTDOWNErr : OTResult := -3263
def kEHOSTUNREACHErr : OTResult := -3264
def kEINPROGRESSErr : OTResult := -3270

/-! ### Calls -/

/-- A pointer; 0 is no endpoint. -/
abbrev EndpointRef := ℕ

def kOTInvalidEndpointRef : EndpointRef := 0

abbrev OTConfigurationRef := ℕ

def kOTInvalidConfigurationRef : OTConfigurationRef := 0

/-- The names configurations are made of. -/
inductive ConfigName where | kTCPName | kUDPName
  deriving DecidableEq

structure InetAddress where
  fPort : BitVec 16
  fHost : BitVec 32
  deriving DecidableEq

/-- A connection indication: the address it comes from and its sequence number. -/
structure TCall where
  addr : InetAddress
  sequence : ℤ
  deriving DecidableEq

/-- The index of a slot of socket_table; OTInstallNotifier is given its address as the context. -/
abbrev SockIdx := Fin MAX_SOCKETS

/-- The calls posix9_socket.c makes. -/
inductive OTCall where
  | InitOpenTransport
  | OTCreateConfiguration (name : ConfigName)
  | OTOpenEndpoint (config : OTConfigurationRef)
  | OTInstallNotifier (ep : EndpointRef) (context : SockIdx)
  | OTSetSynchronous (ep : EndpointRef)
  | OTSetBlocking (ep : EndpointRef)
  | OTSetNonBlocking (ep : EndpointRef)
  | OTBind (ep : EndpointRef) (addr : InetAddress) (qlen : ℕ)
  | OTUnbind (ep : EndpointRef)
  | OTListen (ep : EndpointRef)
  | OTAccept (ep resRef : EndpointRef) (call : TCall)
  | OTConnect (ep : EndpointRef) (addr : InetAddress)
  | OTSnd (ep : EndpointRef) (bytes : List UInt8) (expedited : Bool)
  | OTRcv (ep : EndpointRef) (nbytes : ℕ)
  | OTSndUData (ep : EndpointRef) (addr : InetAddress) (bytes : List UInt8)
  | OTRcvUData (ep : EndpointRef) (maxlen : ℕ)
  | OTSndDisconnect (ep : EndpointRef) (call : Option TCall)
  | OTSndOrderlyDisconnect (ep : EndpointRef)
  | OTCloseProvider (ep : EndpointRef)
  | OTLook (ep : EndpointRef)
  deriving DecidableEq

/-- What a call returns, and what it writes through the pointers it is given: a call leaves the parts
    it has no use for as they come. -/
structure OTReply where
  result : OTResult
  /-- The configuration or the endpoint. -/
  ref : ℕ
  /-- The indication OTListen has found. -/
  call : TCall
  /-- The address OTBind has bound to, or that OTRcvUData has received from. -/
  addr : InetAddress
  bytes : List UInt8

/-- The endpoints a call is made on. -/
def OTCall.names : OTCall → List EndpointRef
  | .InitOpenTransport | .OTCreateConfiguration _ | .OTOpenEndpoint _ => []
  | .OTAccept ep resRef _ => [ep, resRef]
  | .OTInstallNotifier ep _ | .OTSetSynchronous ep | .OTSetBlocking ep | .OTSetNonBlocking ep
  | .OTBind ep _ _ | .OTUnbind ep | .OTListen ep | .OTConnect ep _ | .OTSnd ep _ _ | .OTRcv ep _
  | .OTSndUData ep _ _ | .OTRcvUData ep _ | .OTSndDisconnect ep _ | .OTSndOrderlyDisconnect ep
  | .OTCloseProvider ep | .OTLook ep => [ep]

/-! ### Events -/

inductive OTEventCode where
  | T_LISTEN | T_CONNECT | T_DATA | T_EXDATA | T_DISCONNECT | T_ORDREL | T_GODATA | T_PASSCON | T_UDERR
  deriving DecidableEq

/-- What can arrive for an endpoint. -/
inductive Arrival where
  | indication (call : TCall)
  | connected (result : OTResult)
  | data (byte : UInt8) (bytes : List UInt8)
  | expedited (byte : UInt8) (bytes : List UInt8)
  | disconnect
  | orderlyRelease
  | goData
  | passed
  | unitError
  deriving DecidableEq

/-- The event its notifier is called with, if it is called. -/
def Arrival.event : Arrival → OTEventCode × OTResult
  | .indication _ => (.T_LISTEN, kOTNoError)
  | .connected result => (.T_CONNECT, result)
  | .data _ _ => (.T_DATA, kOTNoError)
  | .expedited _ _ => (.T_EXDATA, kOTNoError)
  | .disconnect => (.T_DISCONNECT, kOTNoError)
  | .orderlyRelease => (.T_ORDREL, kOTNoError)
  | .goData => (.T_GODATA, kOTNoError)
  | .passed => (.T_PASSCON, kOTNoError)
  | .unitError => (.T_UDERR, kOTNoError)

/-- What arrives without any effect on the receiving side. -/
def Arrival.plain : Arrival → Bool
  | .data _ _ | .expedited _ _ | .disconnect | .orderlyRelease => false
  | _ => true

/-! ### Endpoints -/

/-- The receiving side of an endpoint. -/
structure Stream where
  /-- Data that has arrived and that OTRcv has not returned. -/
  unread : List UInt8
  /-- Expedited data likewise, which OTRcv returns ahead of the other. -/
  expedited : List UInt8
  /-- The next data to arrive calls the notifier. -/
  armed : Bool
  /-- The peer has released the connection and the event has not been consumed. -/
  released : Bool
  /-- The connection is broken and the event has not been consumed. -/
  failed : Bool
  deriving DecidableEq

structure Endpoint extends Stream where
  isOpen : Bool
  /-- Indications that have arrived and that OTListen has not returned. -/
  queued : List TCall
  /-- Bound with a queue. -/
  listens : Bool
  deriving DecidableEq

/-- An endpoint just opened. -/
def Endpoint.new : Endpoint := ⟨⟨[], [], true, false, false⟩, true, [], false⟩

structure OpenTransport where
  State : Type
  call : OTCall → State → OTReply × State
  /-- The call does not return now: it waits for something to arrive. -/
  waits : OTCall → State → Bool
  /-- Something arrives for an endpoint: whether its notifier is called for it. -/
  arrive : EndpointRef → Arrival → State → Bool × State
  endpoint : State → EndpointRef → Endpoint

/-- Which endpoints are open. OTOpenEndpoint returns one that is not, and a call or an arrival is nothing
    to the endpoints it does not name. -/
structure OpenTransport.Lawful (ot : OpenTransport) : Prop where
  opened : ∀ config st, (ot.call (.OTOpenEndpoint config) st).1.result = noErr →
    (ot.call (.OTOpenEndpoint config) st).1.ref ≠ kOTInvalidEndpointRef ∧
      (ot.endpoint st (ot.call (.OTOpenEndpoint config) st).1.ref).isOpen = false ∧
      ot.endpoint (ot.call (.OTOpenEndpoint config) st).2 (ot.call (.OTOpenEndpoint config) st).1.ref =
        Endpoint.new ∧
      ∀ e, e ≠ (ot.call (.OTOpenEndpoint config) st).1.ref →
        ot.endpoint (ot.call (.OTOpenEndpoint config) st).2 e = ot.endpoint st e
  open_failed : ∀ config st, (ot.call (.OTOpenEndpoint config) st).1.result ≠ noErr →
    ot.endpoint (ot.call (.OTOpenEndpoint config) st).2 = ot.endpoint st
  frame : ∀ c st e, e ∉ c.names → (∀ config, c ≠ .OTOpenEndpoint config) →
    ot.endpoint (ot.call c st).2 e = ot.endpoint st e
  stays : ∀ c st e, e ∈ c.names → c ≠ .OTCloseProvider e →
    (ot.endpoint (ot.call c st).2 e).isOpen = (ot.endpoint st e).isOpen
  closed : ∀ e st, (ot.endpoint (ot.call (.OTCloseProvider e) st).2 e).isOpen = false
  arrive_frame : ∀ e a st e', e' ≠ e → ot.endpoint (ot.arrive e a st).2 e' = ot.endpoint st e'
  arrive_stays : ∀ e a st, (ot.endpoint (ot.arrive e a st).2 e).isOpen = (ot.endpoint st e).isOpen

/-- The calls that leave the receiving side of an endpoint alone. -/
def OTCall.keeps (e : EndpointRef) : OTCall → Bool
  | .OTOpenEndpoint _ => false
  | .OTRcv ep _ | .OTRcvUData ep _ | .OTSndDisconnect ep none | .OTCloseProvider ep => ep ≠ e
  | _ => true

/-- The calls that can give an endpoint a queue or take it away. -/
def OTCall.binds : OTCall → Bool
  | .OTOpenEndpoint _ | .OTBind _ _ _ | .OTUnbind _ | .OTCloseProvider _ => true
  | _ => false

/-- What calls and arrivals do to the receiving side of an open endpoint. The notifier is called for data
    that arrives on a drained endpoint, and not again until OTRcv has returned kOTNoDataErr. OTRcv returns
    expedited data first, and does not mix the two. -/
structure OpenTransport.Streams (ot : OpenTransport) : Prop where
  keeps : ∀ c st e, c.keeps e = true →
    (ot.endpoint (ot.call c st).2 e).toStream = (ot.endpoint st e).toStream
  rcv_length : ∀ e n st, 0 ≤ (ot.call (.OTRcv e n) st).1.result →
    (ot.call (.OTRcv e n) st).1.result = (ot.call (.OTRcv e n) st).1.bytes.length
  rcv_got : ∀ e n st, (ot.endpoint st e).expedited = [] → 0 ≤ (ot.call (.OTRcv e n) st).1.result →
    (ot.endpoint st e).unread = (ot.call (.OTRcv e n) st).1.bytes ++
        (ot.endpoint (ot.call (.OTRcv e n) st).2 e).unread ∧
      (ot.endpoint (ot.call (.OTRcv e n) st).2 e).expedited = []
  rcv_expedited : ∀ e n st, (ot.endpoint st e).expedited ≠ [] → 0 ≤ (ot.call (.OTRcv e n) st).1.result →
    (ot.endpoint st e).expedited = (ot.call (.OTRcv e n) st).1.bytes ++
        (ot.endpoint (ot.call (.OTRcv e n) st).2 e).expedited ∧
      (ot.endpoint (ot.call (.OTRcv e n) st).2 e).unread = (ot.endpoint st e).unread
  rcv_none : ∀ e n st, (ot.call (.OTRcv e n) st).1.result < 0 →
    (ot.endpoint (ot.call (.OTRcv e n) st).2 e).unread = (ot.endpoint st e).unread ∧
      (ot.endpoint (ot.call (.OTRcv e n) st).2 e).expedited = (ot.endpoint st e).expedited ∧
      ((ot.call (.OTRcv e n) st).1.result = kOTNoDataErr →
        (ot.endpoint (ot.call (.OTRcv e n) st).2 e).armed = true)
  rcv_events : ∀ e n st,
    (ot.endpoint (ot.call (.OTRcv e n) st).2 e).released = (ot.endpoint st e).released ∧
      (ot.endpoint (ot.call (.OTRcv e n) st).2 e).failed = (ot.endpoint st e).failed
  rcv_released : ∀ e n st, (ot.endpoint st e).isOpen = true → (ot.endpoint st e).released = true →
    (ot.endpoint st e).unread = [] → (ot.endpoint st e).expedited = [] →
      ot.waits (.OTRcv e n) st = false ∧ (ot.call (.OTRcv e n) st).1.result = kOTLookErr
  arrive_data : ∀ e byte bytes st, (ot.endpoint st e).isOpen = true →
    (ot.arrive e (.data byte bytes) st).1 = (ot.endpoint st e).armed ∧
      (ot.endpoint (ot.arrive e (.data byte bytes) st).2 e).toStream =
        { (ot.endpoint st e).toStream with
          unread := (ot.endpoint st e).unread ++ byte :: bytes, armed := false }
  arrive_expedited : ∀ e byte bytes st, (ot.endpoint st e).isOpen = true →
    (ot.endpoint (ot.arrive e (.expedited byte bytes) st).2 e).toStream =
      { (ot.endpoint st e).toStream with expedited := (ot.endpoint st e).expedited ++ byte :: bytes }
  arrive_release : ∀ e st, (ot.endpoint st e).isOpen = true →
    (ot.endpoint (ot.arrive e .orderlyRelease st).2 e).toStream =
      { (ot.endpoint st e).toStream with released := true }
  arrive_disconnect : ∀ e st, (ot.endpoint st e).isOpen = true →
    (ot.endpoint (ot.arrive e .disconnect st).2 e).failed = true ∧
      (ot.endpoint (ot.arrive e .disconnect st).2 e).unread <:+ (ot.endpoint st e).unread ∧
      (ot.endpoint (ot.arrive e .disconnect st).2 e).expedited <:+ (ot.endpoint st e).expedited
  arrive_other : ∀ e a st, a.plain = true →
    (ot.endpoint (ot.arrive e a st).2 e).toStream = (ot.endpoint st e).toStream
  /-- Only OTBind gives an endpoint a queue, and only such an endpoint is told of an indication. -/
  listens_same : ∀ c st e, c.binds = false →
    (ot.endpoint (ot.call c st).2 e).listens = (ot.endpoint st e).listens
  listens_unbind : ∀ ep st e, (ot.endpoint (ot.call (.OTUnbind ep) st).2 e).listens = true →
    (ot.endpoint st e).listens = true
  listens_bind : ∀ ep addr qlen st e,
    (ot.endpoint (ot.call (.OTBind ep addr qlen) st).2 e).listens = true → (ot.endpoint st e).listens = true ∨
      0 < qlen ∧ (ot.call (.OTBind ep addr qlen) st).1.result = noErr
  arrive_listens : ∀ e a st, (ot.endpoint (ot.arrive e a st).2 e).listens = (ot.endpoint st e).listens
  told_listens : ∀ e call st, (ot.arrive e (.indication call) st).1 = true →
    (ot.endpoint st e).listens = true

end Posix9
