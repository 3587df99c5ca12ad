import Posix9.HttpPost

/-! tls_wrapper.c, and http_post over it. BearSSL is not part of the repository, so it is a parameter: what its
    functions do with a context and the two callbacks they are given. -/

namespace Posix9.Miner

open Memory Program

/-! ### BearSSL -/

inductive Callback where
  | sock_read (len : ℕ)
  | sock_write (buf : List UInt8)

abbrev Callback.Reply : Callback → Type
  | .sock_read _ => ℤ × List UInt8
  | .sock_write _ => ℤ

/-- What tls_wrapper.c calls. A function calls nothing but the callbacks. It may call them any number of times; a
    call that returns has made finitely many, and is a call of the function cut off behind them. -/
structure BearSSL where
  /-- `tls_sc` and `tls_ioc`. -/
  Context : Type
  /-- From br_ssl_client_zero to br_sslio_init, with the seed it is given. -/
  start : CStr → List UInt8 → Context → Program Callback Callback.Reply Context
  current_state : Context → BitVec 32
  last_error : Context → ℤ
  write_all : List UInt8 → Context → Program Callback Callback.Reply (ℤ × Context)
  flush : Context → Program Callback Callback.Reply (ℤ × Context)
  read : ℕ → Context → Program Callback Callback.Reply ((ℤ × List UInt8) × Context)
  close : Context → Program Callback Callback.Reply (ℤ × Context)
  BR_SSL_CLOSED : BitVec 32
  BR_ERR_OK : ℤ
  BR_ERR_IO : ℤ

def sock_read (fd : ℤ) (len : ℕ) : Program NetCall Reply (ℤ × List UInt8) := do
  let (n, buf) ← recv fd len 0
  pure (if n ≤ 0 then (-1, []) else (n, buf))

def sock_write (fd : ℤ) (buf : List UInt8) : Program NetCall Reply ℤ := do
  let n ← send fd buf 0
  pure (if n ≤ 0 then -1 else n)

def callback (fd : ℤ) : (c : Callback) → Program NetCall Reply c.Reply
  | .sock_read len => sock_read fd len
  | .sock_write buf => sock_write fd buf

/-! ### tls_wrapper.c -/

/-- Its static variables. -/
structure Tls (ssl : BearSSL) where
  tls_sockfd : ℤ
  tls_last_error : CStr
  context : ssl.Context

namespace Tls

variable {ssl : BearSSL}

/-- As the program starts. -/
def init (context : ssl.Context) : Tls ssl := ⟨-1, "OK".toList, context⟩

/-- `tls_last_error = ...`. -/
def setError (s : Tls ssl) (error : String) : Tls ssl := { s with tls_last_error := error.toList }

/-- A call of BearSSL, which has `&tls_sockfd` for its callbacks. -/
def onContext {α : Type} (s : Tls ssl) (f : ssl.Context → Program Callback Callback.Reply (α × ssl.Context)) :
    Program NetCall Reply (α × Tls ssl) := do
  let (a, context) ← (f s.context).interpret (callback s.tls_sockfd)
  pure (a, { s with context })

/-- The bytes of `seed`: `samples` readings of TickCount. -/
def seed_prng : (samples : ℕ) → Program NetCall Reply (List UInt8)
  | 0 => pure []
  | samples + 1 => do
    let tc ← TickCount
    let seed ← seed_prng samples
    pure ([tc >>> 24, tc >>> 16, tc >>> 8, tc].map (fun w => UInt8.ofNat w.toNat) ++ seed)

/-- tls_connect from br_ssl_client_zero on. -/
def handshake (host : CStr) (s : Tls ssl) : Program NetCall Reply (ℤ × Tls ssl) := do
  let seed ← seed_prng 8
  let (_, s) ← s.onContext fun context => (ssl.start host seed context).bind fun context => .ret ((), context)
  if ssl.current_state s.context &&& ssl.BR_SSL_CLOSED ≠ 0 then
    let _ ← Miner.close s.tls_sockfd
    pure (-1, { s.setError "TLS handshake failed" with tls_sockfd := -1 })
  else pure (0, s)

def tls_connect (host : CStr) (port : ℕ) (s : Tls ssl) : Program NetCall Reply (ℤ × Tls ssl) := do
  let s := s.setError "OK"
  match ← gethostbyname host with
  | none => pure (-1, s.setError "DNS lookup failed")
  | some h_addr =>
    let fd ← socket AF_INET SOCK_STREAM 0
    let s := { s with tls_sockfd := fd }
    if s.tls_sockfd < 0 then pure (-1, s.setError "socket() failed")
    else
      let connected ← connect s.tls_sockfd ⟨BitVec.ofNat 16 port, h_addr⟩
      if connected < 0 then
        let _ ← Miner.close s.tls_sockfd
        pure (-1, { s.setError "connect() failed" with tls_sockfd := -1 })
      else s.handshake host

def tls_send (buf : List UInt8) (s : Tls ssl) : Program NetCall Reply (ℤ × Tls ssl) := do
  if s.tls_sockfd < 0 then pure (-1, s.setError "not connected")
  else
    let (result, s) ← s.onContext (ssl.write_all buf)
    if result < 0 then pure (-1, s.setError "TLS write failed")
    else
      let (result, s) ← s.onContext ssl.flush
      if result < 0 then pure (-1, s.setError "TLS flush failed")
      else pure (buf.length, s)

/-- Beside the result, what it writes to `buf`. -/
def tls_recv (len : ℕ) (s : Tls ssl) : Program NetCall Reply ((ℤ × List UInt8) × Tls ssl) := do
  if s.tls_sockfd < 0 then pure ((-1, []), s.setError "not connected")
  else
    let ((result, bytes), s) ← s.onContext (ssl.read len)
    if result < 0 then
      if ssl.last_error s.context = ssl.BR_ERR_OK ∨ ssl.last_error s.context = ssl.BR_ERR_IO then pure ((0, bytes), s)
      else pure ((-1, bytes), s.setError "TLS read failed")
    else pure ((result, bytes), s)

def tls_close (s : Tls ssl) : Program NetCall Reply (Tls ssl) := do
  if 0 ≤ s.tls_sockfd then
    let (_, s) ← s.onContext ssl.close
    let _ ← shutdown s.tls_sockfd SHUT_RDWR
    let _ ← Miner.close s.tls_sockfd
    pure ({ s with tls_sockfd := -1 }.setError "OK")
  else pure (s.setError "OK")

/-! ### http_post -/

def NODE_PORT : ℕ := 443

/-- The loop over tls_recv; there are at most `limit` rounds. -/
def recvLoop (limit : ℕ) : (rounds total_received : ℕ) → (ℕ → UInt8) → Tls ssl →
    Program NetCall Reply ((ℕ × (ℕ → UInt8)) × Tls ssl)
  | 0, total_received, response, s => pure ((total_received, response), s)
  | rounds + 1, total_received, response, s =>
    if total_received < limit then do
      let ((received, bytes), s) ← s.tls_recv (limit - total_received)
      if received ≤ 0 then pure ((total_received, response), s)
      else recvLoop limit rounds (total_received + received.toNat) (write response total_received bytes) s
    else pure ((total_received, response), s)

/-- Beside the result, what `response` holds. -/
def http_post (post : Post NODE_HOST) (response : Buffer) (s : Tls ssl) :
    Program NetCall Reply ((ℤ × (ℕ → UInt8)) × Tls ssl) := do
  let (connected, s) ← s.tls_connect NODE_HOST NODE_PORT
  if connected < 0 then pure ((-1, response.cells), s)
  else
    let (sent_len, s) ← s.tls_send post.request
    if sent_len < 0 then
      let s ← s.tls_close
      pure ((-1, response.cells), s)
    else
      let ((total_received, cells), s) ← recvLoop (response.size - 1) (response.size - 1) 0 response.cells s
      let s ← s.tls_close
      pure ((if 0 < total_received then 0 else -1, write cells total_received [0]), s)

end Tls

end Posix9.Miner
