import Mathlib.Algebra.Group.Nat.Defs
import Posix9.Environment
import Posix9.Lib.Program
import Posix9.Socket

/-! rustchain_miner_posix9.c: http_post over plain sockets, as a program of calls. What it does with its two loops
    does not depend on the pieces in which send accepts the request and recv delivers the response. -/

namespace Posix9.Miner

open Memory Program

def NODE_HOST : CStr := "50.28.86.131".toList
def NODE_PORT : ℕ := 8088
def BUFFER_SIZE : ℕ := 4096

/-- The calls http_post makes, those of tls_wrapper.c among them. -/
inductive NetCall where
  | gethostbyname (name : CStr)
  | socket (domain type protocol : ℤ)
  | connect (sockfd : ℤ) (addr : InetAddress)
  | send (sockfd : ℤ) (buf : List UInt8) (flags : BitVec 32)
  | recv (sockfd : ℤ) (len : ℕ) (flags : BitVec 32)
  | shutdown (sockfd how : ℤ)
  | close (fd : ℤ)
  | TickCount

/-- What they return: gethostbyname the address, if it finds one, and recv what it has written as well. -/
abbrev Reply : NetCall → Type
  | .gethostbyname _ => Option (BitVec 32)
  | .recv .. => ℤ × List UInt8
  | .TickCount => BitVec 32
  | .socket .. | .connect .. | .send .. | .shutdown .. | .close _ => ℤ

def gethostbyname (name : CStr) : Program NetCall Reply (Option (BitVec 32)) := .call (.gethostbyname name) .ret

def socket (domain type protocol : ℤ) : Program NetCall Reply ℤ := .call (.socket domain type protocol) .ret

def connect (sockfd : ℤ) (addr : InetAddress) : Program NetCall Reply ℤ := .call (.connect sockfd addr) .ret

def send (sockfd : ℤ) (buf : List UInt8) (flags : BitVec 32) : Program NetCall Reply ℤ :=
  .call (.send sockfd buf flags) .ret

def recv (sockfd : ℤ) (len : ℕ) (flags : BitVec 32) : Program NetCall Reply (ℤ × List UInt8) :=
  .call (.recv sockfd len flags) .ret

def shutdown (sockfd how : ℤ) : Program NetCall Reply ℤ := .call (.shutdown sockfd how) .ret

def close (fd : ℤ) : Program NetCall Reply ℤ := .call (.close fd) .ret

def TickCount : Program NetCall Reply (BitVec 32) := .call .TickCount .ret

/-- `sprintf(g_send_buffer, ...)`; `host` is what is behind `Host:`. -/
def requestText (host path json_body : CStr) : CStr :=
  "POST ".toList ++ path ++ " HTTP/1.0\r\nHost: ".toList ++ host ++
    "\r\nContent-Type: application/json\r\nContent-Length: ".toList ++ Nat.toDigits 10 json_body.length ++
    "\r\nConnection: close\r\n\r\n".toList ++ json_body

/-- A request that fits g_send_buffer. -/
structure Post (host : CStr) where
  path : CString
  json_body : CString
  fits : (requestText host path.chars json_body.chars).length < BUFFER_SIZE

/-- What is in g_send_buffer before its NUL; a character is a byte. -/
def Post.request {host : CStr} (post : Post host) : List UInt8 :=
  (requestText host post.path.chars post.json_body.chars).map fun c => UInt8.ofNat c.toNat

/-- `response` and `resp_size`. -/
structure Buffer where
  cells : ℕ → UInt8
  size : ℕ
  pos : 0 < size
  size_le : size ≤ 2 ^ 31

/-- The loop over send. Every round some byte is sent, so that there are at most as many as bytes. -/
def sendLoop (sock : ℤ) (request : List UInt8) : (rounds total_sent : ℕ) → Program NetCall Reply Bool
  | 0, _ => pure true
  | rounds + 1, total_sent =>
    if total_sent < request.length then do
      let sent ← send sock (request.drop total_sent) 0
      if sent ≤ 0 then pure false
      else sendLoop sock request rounds (total_sent + sent.toNat)
    else pure true

/-- The loop over recv; `limit` is `resp_size - 1`, and there are at most as many rounds. -/
def recvLoop (sock : ℤ) (limit : ℕ) :
    (rounds total_received : ℕ) → (ℕ → UInt8) → Program NetCall Reply (ℕ × (ℕ → UInt8))
  | 0, total_received, response => pure (total_received, response)
  | rounds + 1, total_received, response =>
    if total_received < limit then do
      let (received, bytes) ← recv sock (limit - total_received) 0
      if received ≤ 0 then pure (total_received, response)
      else recvLoop sock limit rounds (total_received + received.toNat) (write response total_received bytes)
    else pure (total_received, response)

/-- What is behind `Host:` without TLS. -/
def plainHost : CStr := NODE_HOST ++ ':' :: Nat.toDigits 10 NODE_PORT

/-- http_post from its first send on. -/
def exchange (sock : ℤ) (post : Post plainHost) (response : Buffer) : Program NetCall Reply (ℤ × (ℕ → UInt8)) := do
  if ← sendLoop sock post.request post.request.length 0 then
    let (total_received, cells) ← recvLoop sock (response.size - 1) (response.size - 1) 0 response.cells
    let _ ← shutdown sock SHUT_RDWR
    let _ ← close sock
    pure (if 0 < total_received then 0 else -1, write cells total_received [0])
  else
    let _ ← close sock
    pure (-1, response.cells)

/-- Beside the result, what `response` holds. -/
def http_post (post : Post plainHost) (response : Buffer) : Program NetCall Reply (ℤ × (ℕ → UInt8)) := do
  match ← gethostbyname NODE_HOST with
  | none => pure (-1, response.cells)
  | some h_addr =>
    let sock ← socket AF_INET SOCK_STREAM 0
    if sock < 0 then pure (-1, response.cells)
    else
      let connected ← connect sock ⟨BitVec.ofNat 16 NODE_PORT, h_addr⟩
      if connected < 0 then
        let _ ← close sock
        pure (-1, response.cells)
      else exchange sock post response

/-! ### The law -/

/-- A peer: what it has accepted, and what of its response is still to be delivered. -/
structure Peer where
  accepted : List UInt8
  stream : List UInt8

/-- The connection is made, send accepts some of what it is given, and recv delivers some of the response or, behind
    its end, nothing. -/
def Peer.Replies (p : Peer) : (c : NetCall) → Reply c → Peer → Prop
  | .gethostbyname _, host, q => host.isSome = true ∧ q = p
  | .socket .., sock, q => 0 ≤ sock ∧ q = p
  | .connect .., connected, q => 0 ≤ connected ∧ q = p
  | .send _ buf _, sent, q =>
    ∃ n, 1 ≤ n ∧ n ≤ buf.length ∧ sent = (n : ℤ) ∧ q = { p with accepted := p.accepted ++ buf.take n }
  | .recv _ len _, received, q =>
    ∃ n, n ≤ len ∧ n ≤ p.stream.length ∧ (p.stream ≠ [] → 1 ≤ n) ∧ received = ((n : ℤ), p.stream.take n) ∧
      q = { p with stream := p.stream.drop n }
  | .shutdown .., _, q | .close _, _, q | .TickCount, _, q => q = p

/-! ### The loops -/

variable {sock : ℤ} {request : List UInt8} {rounds total limit : ℕ} {p q : Peer} {b : Bool} {response : ℕ → UInt8}
  {received : ℕ × (ℕ → UInt8)}

/-- However it is accepted, the rest of the request is, and nothing else. -/
theorem sendLoop_yields (hrounds : request.length ≤ total + rounds) :
    Yields Peer.Replies p (sendLoop sock request rounds total) b q ↔
      b = true ∧ q = { p with accepted := p.accepted ++ request.drop total } := by
  induction rounds generalizing p total with
  | zero =>
    have hdone : request.length ≤ total := hrounds
    rw [sendLoop, pure_eq, yields_ret, List.drop_of_length_le hdone, List.append_nil]
  | succ rounds ih =>
    rw [sendLoop]
    split
    case isFalse hdone => rw [pure_eq, yields_ret, List.drop_of_length_le (Nat.not_lt.mp hdone), List.append_nil]
    case isTrue hlt =>
      rw [bind_eq, send, call_bind, yields_call]
      have hround : ∀ n, 1 ≤ n → (Yields Peer.Replies { p with accepted := p.accepted ++ (request.drop total).take n }
          (if (n : ℤ) ≤ 0 then pure false else sendLoop sock request rounds (total + (n : ℤ).toNat)) b q ↔
          b = true ∧ q = { p with accepted := p.accepted ++ request.drop total }) := by
        intro n hn
        have hdrop : request.drop (total + n) = (request.drop total).drop n := by
          rw [List.drop_drop]
        rw [if_neg (by omega), Int.toNat_natCast, ih (by omega), hdrop, List.append_assoc, List.take_append_drop]
      constructor
      · rintro ⟨sent, t, ⟨n, hn, -, rfl, rfl⟩, hrest⟩
        exact (hround n hn).mp hrest
      · intro h
        have hlen : 1 ≤ (request.drop total).length := by
          rw [List.length_drop]
          omega
        exact ⟨_, _, ⟨1, Nat.le_refl 1, hlen, rfl, rfl⟩, (hround 1 (Nat.le_refl 1)).mpr h⟩

/-- However it is divided, the response goes where it belongs, as far as there is room. -/
theorem recvLoop_yields (hrounds : limit ≤ total + rounds) :
    Yields Peer.Replies p (recvLoop sock limit rounds total response) received q ↔
      received = (total + (p.stream.take (limit - total)).length, write response total (p.stream.take (limit - total))) ∧
        q = { p with stream := p.stream.drop (limit - total) } := by
  induction rounds generalizing p total response with
  | zero =>
    have hnone : limit - total = 0 := by omega
    rw [recvLoop, pure_eq, yields_ret, hnone, List.take_zero, write_nil]
    rfl
  | succ rounds ih =>
    rw [recvLoop]
    split
    case isFalse hdone =>
      have hnone : limit - total = 0 := by omega
      rw [pure_eq, yields_ret, hnone, List.take_zero, write_nil]
      rfl
    case isTrue hlt =>
      rw [bind_eq, recv, call_bind, yields_call]
      have hround : ∀ n, n ≤ limit - total → n ≤ p.stream.length → (p.stream ≠ [] → 1 ≤ n) →
          (Yields Peer.Replies { p with stream := p.stream.drop n } (if (n : ℤ) ≤ 0 then pure (total, response)
            else recvLoop sock limit rounds (total + (n : ℤ).toNat) (write response total (p.stream.take n))) received q ↔
          received = (total + (p.stream.take (limit - total)).length,
            write response total (p.stream.take (limit - total))) ∧
              q = { p with stream := p.stream.drop (limit - total) }) := by
        intro n hroom hlen hsome
        rcases Nat.eq_zero_or_pos n with rfl | hpos
        · have hend : p.stream = [] := by
            by_contra hne
            exact absurd (hsome hne) (by decide)
          rw [if_pos (by omega), pure_eq, yields_ret, hend, List.take_nil, write_nil, List.drop_nil, List.drop_nil]
          rfl
        · have htake : p.stream.take (limit - total) =
              p.stream.take n ++ (p.stream.drop n).take (limit - (total + n)) := by
            rw [← List.take_add]
            congr 1
            omega
          have hdrop : (p.stream.drop n).drop (limit - (total + n)) = p.stream.drop (limit - total) := by
            rw [List.drop_drop]
            congr 1
            omega
          have hwrite := write_append response total (p.stream.take n) ((p.stream.drop n).take (limit - (total + n)))
          rw [List.length_take_of_le hlen] at hwrite
          rw [if_neg (by omega), Int.toNat_natCast, ih (by omega), hwrite, hdrop, htake, List.length_append,
            List.length_take_of_le hlen, Nat.add_assoc]
      constructor
      · rintro ⟨received', t, ⟨n, hroom, hlen, hsome, rfl, rfl⟩, hrest⟩
        exact (hround n hroom hlen hsome).mp hrest
      · intro h
        by_cases hend : p.stream = []
        · refine ⟨_, _, ⟨0, Nat.zero_le _, Nat.zero_le _, fun hne => absurd hend hne, rfl, rfl⟩, ?_⟩
          exact (hround 0 (Nat.zero_le _) (Nat.zero_le _) fun hne => absurd hend hne).mpr h
        · have hlen := List.length_pos_of_ne_nil hend
          refine ⟨_, _, ⟨1, by omega, hlen, fun _ => Nat.le_refl 1, rfl, rfl⟩, ?_⟩
          exact (hround 1 (by omega) hlen fun _ => Nat.le_refl 1).mpr h

/-! ### The whole exchange -/

/-- What http_post is to return and to leave in `response` where the peer's response is `stream`. -/
def outcome (response : Buffer) (stream : List UInt8) : ℤ × (ℕ → UInt8) :=
  (if 0 < min stream.length (response.size - 1) then 0 else -1,
    write response.cells 0 (stream.take (response.size - 1) ++ [0]))

/-- What shutdown and close return is not looked at. -/
theorem released_yields (sock : ℤ) (a result : ℤ × (ℕ → UInt8)) : Yields Peer.Replies p (do
    let _ ← shutdown sock SHUT_RDWR
    let _ ← close sock
    pure a) result q ↔ result = a ∧ q = p := by
  rw [bind_eq, shutdown, call_bind, yields_call]
  constructor
  · rintro ⟨r, t, rfl, h⟩
    rw [ret_bind, bind_eq, close, call_bind, yields_call] at h
    obtain ⟨r, t, rfl, h⟩ := h
    exact yields_ret.mp h
  · intro h
    refine ⟨0, _, rfl, ?_⟩
    rw [ret_bind, bind_eq, close, call_bind, yields_call]
    exact ⟨0, _, rfl, yields_ret.mpr h⟩

theorem exchange_yields (sock : ℤ) (post : Post plainHost) (response : Buffer) (stream : List UInt8)
    (result : ℤ × (ℕ → UInt8)) (q : Peer) : Yields Peer.Replies ⟨[], stream⟩ (exchange sock post response) result q ↔
      result = outcome response stream ∧ q = ⟨post.request, stream.drop (response.size - 1)⟩ := by
  rw [exchange, bind_eq, yields_bind]
  have hsend : ∀ b t, Yields Peer.Replies ⟨[], stream⟩ (sendLoop sock post.request post.request.length 0) b t ↔
      b = true ∧ t = ⟨post.request, stream⟩ := fun b t => sendLoop_yields (by omega)
  have hrecv : ∀ received t, Yields Peer.Replies ⟨post.request, stream⟩
      (recvLoop sock (response.size - 1) (response.size - 1) 0 response.cells) received t ↔
        received = ((stream.take (response.size - 1)).length, write response.cells 0 (stream.take (response.size - 1))) ∧
          t = ⟨post.request, stream.drop (response.size - 1)⟩ := by
    intro received t
    rw [recvLoop_yields (by omega), Nat.zero_add]
    rfl
  have houtcome : outcome response stream = (if 0 < (stream.take (response.size - 1)).length then 0 else -1,
      write (write response.cells 0 (stream.take (response.size - 1))) (stream.take (response.size - 1)).length [0]) := by
    have hwritten := write_append response.cells 0 (stream.take (response.size - 1)) [0]
    rw [Nat.zero_add] at hwritten
    rw [outcome, hwritten, List.length_take, Nat.min_comm]
  rw [houtcome]
  constructor
  · rintro ⟨b, t, hb, h⟩
    obtain ⟨rfl, rfl⟩ := (hsend b t).mp hb
    rw [if_pos rfl, bind_eq, yields_bind] at h
    obtain ⟨received, t, hreceived, h⟩ := h
    obtain ⟨rfl, rfl⟩ := (hrecv received t).mp hreceived
    exact (released_yields sock _ result).mp h
  · intro h
    refine ⟨true, _, (hsend _ _).mpr ⟨rfl, rfl⟩, ?_⟩
    rw [if_pos rfl, bind_eq, yields_bind]
    exact ⟨_, _, (hrecv _ _).mpr ⟨rfl, rfl⟩, (released_yields sock _ result).mpr h⟩

/-- In whatever pieces the request is accepted and the response delivered, http_post returns, the request has been
    accepted once and in order, and the result and `response` are those of the response as a whole. -/
theorem http_post_whole (post : Post plainHost) (response : Buffer) (stream : List UInt8)
    (result : ℤ × (ℕ → UInt8)) (q : Peer) : Yields Peer.Replies ⟨[], stream⟩ (http_post post response) result q ↔
      result = outcome response stream ∧ q = ⟨post.request, stream.drop (response.size - 1)⟩ := by
  rw [http_post, bind_eq, gethostbyname, call_bind, yields_call]
  constructor
  · rintro ⟨host, p, ⟨hhost, rfl⟩, h⟩
    obtain ⟨h_addr, rfl⟩ := Option.isSome_iff_exists.mp hhost
    dsimp only [ret_bind] at h
    rw [bind_eq, socket, call_bind, yields_call] at h
    obtain ⟨sock, p, ⟨hsock, rfl⟩, h⟩ := h
    rw [ret_bind, if_neg (Int.not_lt.mpr hsock), bind_eq, connect, call_bind, yields_call] at h
    obtain ⟨connected, p, ⟨hconnected, rfl⟩, h⟩ := h
    rw [ret_bind, if_neg (Int.not_lt.mpr hconnected)] at h
    exact (exchange_yields sock post response stream result q).mp h
  · intro h
    refine ⟨some 0, _, ⟨rfl, rfl⟩, ?_⟩
    dsimp only [ret_bind]
    rw [bind_eq, socket, call_bind, yields_call]
    refine ⟨0, _, ⟨Int.le_refl 0, rfl⟩, ?_⟩
    rw [ret_bind, if_neg (by decide), bind_eq, connect, call_bind, yields_call]
    refine ⟨0, _, ⟨Int.le_refl 0, rfl⟩, ?_⟩
    rw [ret_bind, if_neg (by decide)]
    exact (exchange_yields 0 post response stream result q).mpr h

end Posix9.Miner
