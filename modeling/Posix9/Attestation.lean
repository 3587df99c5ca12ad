import Posix9.Cleanup
import Posix9.Tls

/-! The sockets of http_post. In both builds, whatever is replied, it makes one socket at the most and ends by
    closing it; the calls between leave the table alone. -/

namespace Posix9.Miner

open Memory Program Program.Handles

/-- The handle is the descriptor that socket returns; close releases it. -/
def sockets : Handles NetCall Reply ℤ where
  acquires
    | .socket .. => true
    | _ => false
  acquired
    | .socket .., sock => if 0 ≤ sock then some sock else none
    | _, _ => none
  released
    | .close fd => some fd
    | _ => none
  only c r h hr := by
    cases c <;> first
      | rfl
      | cases hr
  apart c hc := by
    cases c <;> first
      | rfl
      | cases hc

/-! ### Calls, followed -/

variable {α β : Type} {Q : Stage ℤ → α → Prop} {st : Stage ℤ} {fd : ℤ}

theorem plain_or (c : NetCall) : sockets.Plain c ∨ (∃ domain type protocol, c = .socket domain type protocol) ∨
    ∃ fd, c = .close fd := by
  cases c with
  | socket domain type protocol => exact .inr (.inl ⟨_, _, _, rfl⟩)
  | close fd => exact .inr (.inr ⟨_, rfl⟩)
  | _ => exact .inl ⟨rfl, rfl⟩

theorem follows_socket {domain type protocol : ℤ} {rest : ℤ → Program NetCall Reply α}
    (hfail : ∀ sock < 0, sockets.Follows Q .idle (rest sock))
    (hsock : ∀ sock, 0 ≤ sock → sockets.Follows Q (.holding sock) (rest sock)) :
    sockets.Follows Q .idle ((socket domain type protocol).bind rest) := by
  refine ⟨⟨fun _ => rfl, fun h hh => (by cases hh)⟩, fun sock => ?_⟩
  by_cases hneg : sock < 0
  · have hnone : sockets.acquired (.socket domain type protocol) sock = none := if_neg (Int.not_le.mpr hneg)
    have hnext : sockets.next .idle (.socket domain type protocol) sock = .idle := by
      rw [next, hnone]
      rfl
    rw [hnext]
    exact hfail sock hneg
  · have hpos := Int.not_lt.mp hneg
    have hsome : sockets.acquired (.socket domain type protocol) sock = some sock := if_pos hpos
    rw [next_acquired hsome]
    exact hsock sock hpos

theorem follows_close {rest : ℤ → Program NetCall Reply α} (h : ∀ r, sockets.Follows Q .done (rest r)) :
    sockets.Follows Q (.holding fd) ((close fd).bind rest) := by
  refine ⟨⟨fun hacq => (by cases hacq), fun h hh => ?_⟩, fun r => ?_⟩
  · obtain rfl := Option.some.inj hh
    rfl
  · rw [next_released rfl]
    exact h r

theorem makes_recv (fd : ℤ) (len : ℕ) (flags : BitVec 32) : (recv fd len flags).Makes sockets.Plain :=
  ⟨⟨rfl, rfl⟩, fun _ => trivial⟩

theorem makes_send (fd : ℤ) (buf : List UInt8) (flags : BitVec 32) : (send fd buf flags).Makes sockets.Plain :=
  ⟨⟨rfl, rfl⟩, fun _ => trivial⟩

/-! ### Plain HTTP -/

theorem makes_sendLoop (sock : ℤ) (request : List UInt8) (rounds total_sent : ℕ) :
    (sendLoop sock request rounds total_sent).Makes sockets.Plain := by
  induction rounds generalizing total_sent with
  | zero => trivial
  | succ rounds ih =>
    rw [sendLoop]
    split
    · refine (makes_send ..).bind fun sent => ?_
      split
      · trivial
      · exact ih _
    · trivial

theorem makes_recvLoop (sock : ℤ) (limit rounds total_received : ℕ) (response : ℕ → UInt8) :
    (recvLoop sock limit rounds total_received response).Makes sockets.Plain := by
  induction rounds generalizing total_received response with
  | zero => trivial
  | succ rounds ih =>
    rw [recvLoop]
    split
    · refine (makes_recv ..).bind fun received => ?_
      dsimp only
      split
      · trivial
      · exact ih _ _
    · trivial

/-- No socket is held where http_post ends. -/
theorem http_post_follows (post : Post plainHost) (response : Buffer) :
    sockets.Follows (fun st _ => st.held = []) .idle (http_post post response) := by
  rw [http_post]
  refine follows_plain ⟨rfl, rfl⟩ fun host => ?_
  rcases host with _ | h_addr
  · exact rfl
  refine follows_socket (fun sock hneg => ?_) fun sock hpos => ?_
  · rw [if_pos hneg]
    exact rfl
  rw [if_neg (Int.not_lt.mpr hpos)]
  refine follows_plain ⟨rfl, rfl⟩ fun connected => ?_
  rw [ret_bind]
  split
  · exact follows_close fun _ => rfl
  refine follows_bind.mpr (follows_of_plain (makes_sendLoop ..) fun sent => ?_)
  split
  · refine follows_bind.mpr (follows_of_plain (makes_recvLoop ..) fun received => ?_)
    refine follows_plain ⟨rfl, rfl⟩ fun _ => ?_
    exact follows_close fun _ => rfl
  · exact follows_close fun _ => rfl

/-! ### TLS -/

namespace Tls

variable {ssl : BearSSL} {s : Tls ssl}

theorem makes_callback (fd : ℤ) (c : Callback) : (callback fd c).Makes sockets.Plain := by
  cases c with
  | sock_read len => exact (makes_recv ..).bind fun _ => trivial
  | sock_write buf => exact (makes_send ..).bind fun _ => trivial

/-- BearSSL leaves the descriptor alone. -/
theorem follows_onContext (s : Tls ssl) (f : ssl.Context → Program Callback Callback.Reply (α × ssl.Context)) :
    sockets.Follows (fun st' x => st' = st ∧ x.2.tls_sockfd = s.tls_sockfd) st (s.onContext f) :=
  follows_bind.mpr (follows_of_plain (makes_interpret (makes_callback _) _) fun _ => ⟨rfl, rfl⟩)

theorem makes_seed_prng (samples : ℕ) : (seed_prng samples).Makes sockets.Plain := by
  induction samples with
  | zero => trivial
  | succ samples ih => exact ⟨⟨rfl, rfl⟩, fun _ => ih.bind fun _ => trivial⟩

/-- The descriptor is held and is tls_sockfd. -/
structure Open (fd : ℤ) (st : Stage ℤ) (s : Tls ssl) : Prop where
  stage : st = .holding fd
  fd : s.tls_sockfd = fd

/-- No socket is held, and tls_sockfd is negative. -/
structure Shut (st : Stage ℤ) (s : Tls ssl) : Prop where
  held : st.held = []
  fd : s.tls_sockfd < 0

theorem follows_handshake (hs : s.tls_sockfd = fd) (host : CStr) : sockets.Follows
    (fun st x => if x.1 < 0 then Shut st x.2 else Open fd st x.2) (.holding fd) (s.handshake host) := by
  refine follows_bind.mpr (follows_of_plain (makes_seed_prng 8) fun seed => ?_)
  refine follows_bind.mpr ((follows_onContext s _).mono fun st x hx => ?_)
  obtain ⟨rfl, hfd⟩ := hx
  dsimp only
  split
  · rw [hfd, hs]
    exact follows_close fun _ => ⟨rfl, (by decide : (-1 : ℤ) < 0)⟩
  · exact ⟨rfl, hfd.trans hs⟩

theorem follows_tls_connect (hs : s.tls_sockfd < 0) (host : CStr) (port : ℕ) : sockets.Follows
    (fun st x => if x.1 < 0 then Shut st x.2 else ∃ fd, 0 ≤ fd ∧ Open fd st x.2) .idle (s.tls_connect host port) := by
  rw [tls_connect]
  refine follows_plain ⟨rfl, rfl⟩ fun found => ?_
  rcases found with _ | h_addr
  · exact ⟨rfl, hs⟩
  refine follows_socket (fun fd hneg => ?_) fun fd hpos => ?_
  · rw [if_pos (by exact hneg)]
    exact ⟨rfl, hneg⟩
  rw [if_neg (by exact Int.not_lt.mpr hpos)]
  refine follows_plain ⟨rfl, rfl⟩ fun connected => ?_
  rw [ret_bind]
  split
  · exact follows_close fun _ => ⟨rfl, (by decide : (-1 : ℤ) < 0)⟩
  · refine Follows.mono (follows_handshake (by exact rfl) host) fun st x hx => ?_
    split
    · rwa [if_pos ‹_›] at hx
    · rw [if_neg ‹_›] at hx
      exact ⟨fd, hpos, hx⟩

theorem follows_tls_send (hs : s.tls_sockfd = fd) (buf : List UInt8) :
    sockets.Follows (fun st x => Open fd st x.2) (.holding fd) (s.tls_send buf) := by
  rw [tls_send]
  split
  · exact ⟨rfl, hs⟩
  refine follows_bind.mpr ((follows_onContext s _).mono fun st x hx => ?_)
  obtain ⟨rfl, hfd⟩ := hx
  dsimp only
  split
  · exact ⟨rfl, hfd.trans hs⟩
  refine follows_bind.mpr ((follows_onContext x.2 _).mono fun st y hy => ?_)
  obtain ⟨rfl, hfd'⟩ := hy
  split <;> exact ⟨rfl, hfd'.trans (hfd.trans hs)⟩

theorem follows_tls_recv (hs : s.tls_sockfd = fd) (len : ℕ) :
    sockets.Follows (fun st x => Open fd st x.2) (.holding fd) (s.tls_recv len) := by
  rw [tls_recv]
  split
  · exact ⟨rfl, hs⟩
  refine follows_bind.mpr ((follows_onContext s _).mono fun st x hx => ?_)
  obtain ⟨rfl, hfd⟩ := hx
  dsimp only
  split
  · split <;> exact ⟨rfl, hfd.trans hs⟩
  · exact ⟨rfl, hfd.trans hs⟩

theorem follows_tls_close (hs : s.tls_sockfd = fd) (hpos : 0 ≤ fd) :
    sockets.Follows (fun st t => Shut st t) (.holding fd) s.tls_close := by
  rw [tls_close, if_pos (by omega)]
  refine follows_bind.mpr ((follows_onContext s _).mono fun st x hx => ?_)
  obtain ⟨rfl, hfd⟩ := hx
  refine follows_plain ⟨rfl, rfl⟩ fun _ => ?_
  rw [ret_bind, hfd, hs]
  exact follows_close fun _ => ⟨rfl, (by decide : (-1 : ℤ) < 0)⟩

theorem follows_recvLoop (hs : s.tls_sockfd = fd) (limit rounds total_received : ℕ) (response : ℕ → UInt8) :
    sockets.Follows (fun st x => Open fd st x.2) (.holding fd)
      (recvLoop limit rounds total_received response s) := by
  induction rounds generalizing total_received response s with
  | zero => exact ⟨rfl, hs⟩
  | succ rounds ih =>
    rw [recvLoop]
    split
    · refine follows_bind.mpr ((follows_tls_recv hs _).mono fun st x hx => ?_)
      obtain ⟨rfl, hfd⟩ := hx
      dsimp only
      split
      · exact ⟨rfl, hfd⟩
      · exact ih hfd _ _
    · exact ⟨rfl, hs⟩

/-- No socket is held where http_post ends, and tls_sockfd is negative again. -/
theorem http_post_follows (hs : s.tls_sockfd < 0) (post : Post NODE_HOST) (response : Buffer) :
    sockets.Follows (fun st x => Shut st x.2) .idle (s.http_post post response) := by
  rw [http_post]
  refine follows_bind.mpr ((follows_tls_connect hs _ _).mono fun st x hx => ?_)
  dsimp only
  split
  case isTrue hneg =>
    rw [if_pos hneg] at hx
    exact hx
  case isFalse hok =>
    rw [if_neg hok] at hx
    obtain ⟨fd, hpos, rfl, hfd⟩ := hx
    refine follows_bind.mpr ((follows_tls_send hfd _).mono fun st y hy => ?_)
    obtain ⟨rfl, hfd⟩ := hy
    split
    · exact follows_bind.mpr ((follows_tls_close hfd hpos).mono fun _ _ ht => ht)
    · refine follows_bind.mpr ((follows_recvLoop hfd ..).mono fun st z hz => ?_)
      obtain ⟨rfl, hfd⟩ := hz
      exact follows_bind.mpr ((follows_tls_close hfd hpos).mono fun _ _ ht => ht)

end Tls

/-! ### The library below -/

section Library

variable {fm : FileManager} {ot : OpenTransport} {s t u : IoState fm ot} {c : NetCall} {i : SockIdx}

/-- Things arrive. -/
def arrived (s : IoState fm ot) (arrivals : List (EndpointRef × Arrival)) : IoState fm ot :=
  arrivals.foldl (fun s x => s.step (.socket (.arrival x.1 x.2))) s

/-- A call on a socket has returned. What arrives may come between the last call of Open Transport it makes and
    what it stores. -/
def Returns {α : Type} (s : IoState fm ot) (res : Option (α × SocketState ot)) (r : α) (t : IoState fm ot) : Prop :=
  ∃ mid arrivals, res = some (r, mid) ∧ t = (arrived (IoState.join s.files mid) arrivals).step (.socket .stores)

/-- What a call replies and the state behind it. OTInetStringToAddress may find the address or not; TickCount may be
    anything. -/
def Answers (s : IoState fm ot) : (c : NetCall) → Reply c → IoState fm ot → Prop
  | .gethostbyname _, _, t => t = s
  | .socket domain type protocol, r, t => (s.onSockets fun sockets => sockets.socket domain type protocol) = (r, t)
  | .connect sockfd addr, r, t => Returns s (s.sockets.connect sockfd addr) r t
  | .send sockfd buf flags, r, t => Returns s (s.sockets.send sockfd buf flags) r t
  | .recv sockfd len _, r, t => Returns s (s.sockets.recv sockfd len) r t
  | .shutdown sockfd how, r, t => (s.onSockets fun sockets => sockets.shutdown sockfd how) = (r, t)
  | .close fd, r, t => s.close fd = (r, t)
  | .TickCount, _, t => t = s

/-- A call that waits goes on when enough has arrived. -/
def Replies (s : IoState fm ot) (c : NetCall) (r : Reply c) (t : IoState fm ot) : Prop :=
  ∃ arrivals, Answers (arrived s arrivals) c r t

def inUse (s : IoState fm ot) (i : SockIdx) : Bool := (s.sockets.socket_table i).inUse

/-! ### What a call does to the table -/

/-- The socket side keeps the law of its endpoints, and the same slots are in use. -/
structure Same (s t : IoState fm ot) : Prop where
  owned : t.sockets.Owned
  inUse : ∀ i, inUse t i = inUse s i

theorem Same.trans (hst : Same s t) (htu : Same t u) : Same s u :=
  ⟨htu.owned, fun i => (htu.inUse i).trans (hst.inUse i)⟩

theorem same_of_balanced {a : SocketInput} (hs : s.sockets.Owned) (h : SocketState.Balanced a s.sockets t.sockets) :
    Same s t := ⟨h.owned hs, h.inUse⟩

theorem arrived_same (hot : ot.Lawful) (hs : s.sockets.Owned) (arrivals : List (EndpointRef × Arrival)) :
    Same s (arrived s arrivals) := by
  induction arrivals generalizing s with
  | nil => exact ⟨hs, fun _ => rfl⟩
  | cons x arrivals ih =>
    have hkeeps : SocketState.Balanced (.arrival x.1 x.2) s.sockets (s.sockets.arrive x.1 x.2) :=
      (SocketState.arrive_keeps_slots hot s.sockets x.1 x.2).balanced (SocketState.plain_of_makes rfl)
    have hstep : Same s (s.step (.socket (.arrival x.1 x.2))) := same_of_balanced hs hkeeps
    exact hstep.trans (ih hstep.owned)

/-- A call that has returned. -/
theorem same_of_returned {α : Type} {a : SocketInput} {res : Option (α × SocketState ot)} {r : α} (hot : ot.Lawful)
    (hs : s.sockets.Owned) (hbalanced : SocketState.Balanced a s.sockets (s.sockets.after res))
    (h : Returns s res r t) : Same s t := by
  obtain ⟨mid, arrivals, rfl, rfl⟩ := h
  have hmid : Same s (IoState.join s.files mid) := same_of_balanced hs hbalanced
  have hwindow := hmid.trans (arrived_same hot hmid.owned arrivals)
  have hstores : SocketState.Balanced .stores (arrived (IoState.join s.files mid) arrivals).sockets
      (arrived (IoState.join s.files mid) arrivals).sockets.stores :=
    (SocketState.stores_keeps _).balanced (SocketState.plain_of_makes rfl)
  exact hwindow.trans (same_of_balanced hwindow.owned hstores)

/-- The plain calls. -/
theorem answers_same (hot : ot.Lawful) (hs : s.sockets.Owned) (hc : sockets.Plain c) {r : Reply c}
    (h : Answers s c r t) : Same s t := by
  cases c with
  | socket domain type protocol => cases hc.acquires
  | close fd => cases hc.released
  | gethostbyname name | TickCount =>
    obtain rfl : t = s := h
    exact ⟨hs, fun _ => rfl⟩
  | connect sockfd addr =>
    have hkeeps := SocketState.connect_keeps hot s.sockets sockfd addr
    exact same_of_returned hot hs (hkeeps.balanced (SocketState.plain_of_makes rfl)) h
  | send sockfd buf flags =>
    have hkeeps := SocketState.send_keeps hot s.sockets sockfd buf flags
    exact same_of_returned hot hs (hkeeps.balanced (SocketState.plain_of_makes rfl)) h
  | recv sockfd len flags =>
    have hkeeps := SocketState.recv_keeps hot s.sockets sockfd len
    exact same_of_returned hot hs (hkeeps.balanced (SocketState.plain_of_makes rfl)) h
  | shutdown sockfd how =>
    obtain ⟨-, rfl⟩ := Prod.mk.inj h
    have hkeeps := SocketState.shutdown_keeps hot s.sockets sockfd how
    exact same_of_balanced hs (hkeeps.balanced (SocketState.plain_of_makes rfl))

/-- The slot of the descriptor is in use and was not; the others are as they were. -/
structure Taken (s t : IoState fm ot) (fd : ℤ) (i : SockIdx) : Prop where
  owned : t.sockets.Owned
  fd : fd = SocketState.sockFd i
  free : inUse s i = false
  taken : inUse t i = true
  inUse : ∀ j, j ≠ i → inUse t j = inUse s j

/-- How the table is where the handle is at a stage. -/
def Link (s : IoState fm ot) : Stage ℤ → IoState fm ot → Prop
  | .holding fd, t => ∃ i, Taken s t fd i
  | _, t => Same s t

theorem Link.owned (h : Link s st t) : t.sockets.Owned := by
  cases st with
  | holding fd =>
    obtain ⟨i, hi⟩ := h
    exact hi.owned
  | _ => exact Same.owned h

theorem Link.trans (h : Link s st t) (htu : Same t u) : Link s st u := by
  cases st with
  | holding fd =>
    obtain ⟨i, hi⟩ := h
    exact ⟨i, htu.owned, hi.fd, hi.free, (htu.inUse i).trans hi.taken, fun j hj => (htu.inUse j).trans (hi.inUse j hj)⟩
  | _ => exact Same.trans h htu

/-- Where the table was as before at first. -/
theorem Same.link (hst : Same s t) (h : Link t st u) : Link s st u := by
  cases st with
  | holding fd =>
    obtain ⟨i, hi⟩ := h
    exact ⟨i, hi.owned, hi.fd, (hst.inUse i).symm.trans hi.free, hi.taken, fun j hj => (hi.inUse j hj).trans (hst.inUse j)⟩
  | _ => exact hst.trans h

/-- socket takes a slot, or the table is as before. -/
theorem socket_link (hot : ot.Lawful) (hs : s.sockets.Owned) (domain type protocol : ℤ) :
    Link s (sockets.next .idle (.socket domain type protocol) (s.sockets.socket domain type protocol).1)
      (IoState.join s.files (s.sockets.socket domain type protocol).2) := by
  rcases SocketState.socket_ends hot hs domain type protocol with ⟨hres, hback⟩ | ⟨i, hres, htakes⟩
  · have hnext : sockets.next .idle (.socket domain type protocol) (s.sockets.socket domain type protocol).1 =
        .idle := by
      rw [hres]
      rfl
    rw [hnext]
    exact same_of_balanced hs hback
  · have hpos : (0 : ℤ) ≤ SocketState.sockFd i := by
      rw [SocketState.sockFd, SOCKET_FD_BASE]
      omega
    have hacq : sockets.acquired (.socket domain type protocol) (s.sockets.socket domain type protocol).1 =
        some (SocketState.sockFd i) := by
      rw [hres]
      exact if_pos (e := none) hpos
    rw [next_acquired hacq]
    exact ⟨i, htakes.owned hs, rfl, htakes.free, htakes.taken, htakes.inUse⟩

/-- close gives the slot of the descriptor back. -/
theorem Taken.close (hot : ot.Lawful) (h : Taken s t fd i) {r : ℤ} (hclose : t.close fd = (r, u)) : Same s u := by
  have hget : t.sockets.get_socket fd = some i := h.fd ▸ SocketState.get_socket_sockFd h.taken
  have hsocket : t.close fd = t.onSockets fun sockets => sockets.posix9_close_socket fd :=
    if_pos (IoState.is_socket_of_get_socket hget)
  obtain ⟨-, rfl⟩ := Prod.mk.inj (hsocket.symm.trans hclose)
  rcases SocketState.close_ends hot h.owned fd with ⟨hres, -⟩ | ⟨j, hj, -, hreturns⟩
  · rw [SocketState.posix9_close_socket, hget] at hres
    cases hres
  · obtain rfl := Option.some.inj (hget.symm.trans hj)
    refine ⟨hreturns.owned h.owned, fun k => ?_⟩
    rcases eq_or_ne k i with rfl | hne
    · exact hreturns.free.trans h.free.symm
    · exact (hreturns.inUse k hne).trans (h.inUse k hne)

/-- Every permitted call takes the table from where the handle was to where it is. -/
theorem Link.step (hot : ot.Lawful) (h : Link s st t) (hc : sockets.Permits st c) {r : Reply c}
    (hr : Replies t c r u) : Link s (sockets.next st c r) u := by
  obtain ⟨arrivals, hanswer⟩ := hr
  have hbefore := h.trans (arrived_same hot h.owned arrivals)
  generalize arrived t arrivals = v at hanswer hbefore
  rcases plain_or c with hplain | ⟨domain, type, protocol, rfl⟩ | ⟨fd, rfl⟩
  · rw [hplain.next]
    exact hbefore.trans (answers_same hot hbefore.owned hplain hanswer)
  · obtain rfl := hc.acquires rfl
    obtain ⟨rfl, rfl⟩ := Prod.mk.inj hanswer
    exact Same.link hbefore (socket_link hot hbefore.owned domain type protocol)
  · obtain rfl := hc.releases fd rfl
    obtain ⟨i, hi⟩ := hbefore
    rw [next_released rfl]
    exact hi.close hot hanswer

end Library

/-! ### The loop -/

/-- Without TLS or with it; `context` is what `tls_sc` and `tls_ioc` hold when the program starts. -/
inductive Build where
  | plain
  | tls (ssl : BearSSL) (context : ssl.Context)

namespace Build

/-- The static variables of tls_wrapper.c, where it is there. -/
def Statics : Build → Type
  | plain => Unit
  | tls ssl _ => Tls ssl

def init : (b : Build) → b.Statics
  | plain => ()
  | tls _ context => Tls.init context

/-- The arguments of http_post. -/
def Args : Build → Type
  | plain => Post plainHost × Buffer
  | tls _ _ => Post NODE_HOST × Buffer

def http_post : (b : Build) → b.Args → b.Statics → Program NetCall Reply ((ℤ × (ℕ → UInt8)) × b.Statics)
  | plain, x, v => (Miner.http_post x.1 x.2).bind fun result => .ret (result, v)
  | tls _ _, x, v => Tls.http_post x.1 x.2 v

/-- tls_sockfd is negative, where there is one. -/
def Closed : (b : Build) → b.Statics → Prop
  | plain, _ => True
  | tls _ _, v => v.tls_sockfd < 0

end Build

section Loop

variable {fm : FileManager} {ot : OpenTransport} {b : Build} {s t u : IoState fm ot} {v w : b.Statics} {x : b.Args}
  {log : Log NetCall Reply} {logs : List (Log NetCall Reply)}

/-- A run of the attestation loop, with what each http_post in it has called. -/
inductive Attests (b : Build) : IoState fm ot → b.Statics → List (Log NetCall Reply) → IoState fm ot → b.Statics → Prop
  | nil {s : IoState fm ot} {v : b.Statics} : Attests b s v [] s v
  | post {s t u : IoState fm ot} {v w : b.Statics} {x : b.Args} {log : Log NetCall Reply}
      {logs : List (Log NetCall Reply)} {result : (ℤ × (ℕ → UInt8)) × b.Statics} :
    Runs Replies s (b.http_post x v) log result t → Attests b t result.2 logs u w → Attests b s v (log :: logs) u w

/-- The states a program with http_post in it can be in. -/
inductive Reached (b : Build) : IoState fm ot → b.Statics → Prop
  | start (mac : fm.State) (net : ot.State) : Reached b (IoState.start mac net) b.init
  | step {s : IoState fm ot} {v : b.Statics} (a : IoInput) : Reached b s v → Reached b (s.step a) v
  | attests {s t : IoState fm ot} {v w : b.Statics} {logs : List (Log NetCall Reply)} :
    Reached b s v → Attests b s v logs t w → Reached b t w

/-- The slots in use are those that were in use before, each http_post has closed what it has opened, one socket at
    the most and that once, and tls_sockfd is negative. -/
structure LeaksNothing (b : Build) (s : IoState fm ot) (logs : List (Log NetCall Reply)) (t : IoState fm ot)
    (w : b.Statics) : Prop where
  slots : ∀ i, inUse t i = inUse s i
  closes : ∀ log ∈ logs, sockets.closed log = sockets.opened log ∧ (sockets.opened log).length ≤ 1
  shut : b.Closed w

theorem Build.follows (hv : b.Closed v) (x : b.Args) :
    sockets.Follows (fun st y => st.held = [] ∧ b.Closed y.2) .idle (b.http_post x v) := by
  cases b with
  | plain => exact follows_bind.mpr ((http_post_follows x.1 x.2).mono fun _ _ hst => ⟨hst, trivial⟩)
  | tls ssl context => exact (Tls.http_post_follows hv x.1 x.2).mono fun _ _ hst => ⟨hst.held, hst.fd⟩

/-- One call of http_post. -/
theorem post_same (hot : ot.Lawful) (hs : s.sockets.Owned) (hv : b.Closed v)
    {result : (ℤ × (ℕ → UInt8)) × b.Statics} (hrun : Runs Replies s (b.http_post x v) log result t) :
    Same s t ∧ (sockets.closed log = sockets.opened log ∧ (sockets.opened log).length ≤ 1) ∧ b.Closed result.2 := by
  have hidle : Link s .idle s := ⟨hs, fun _ => rfl⟩
  have hstep : ∀ st (s' : IoState fm ot) c r t', Link s st s' → sockets.Permits st c → Replies s' c r t' →
      Link s (sockets.next st c r) t' := fun _ _ _ _ _ h hc hr => h.step hot hc hr
  obtain ⟨st, ⟨hheld, hclosed⟩, hlink, haccounts⟩ := (Build.follows hv x).run hstep hidle hrun
  have hsame : Same s t := by
    cases st with
    | holding fd => cases hheld
    | _ => exact hlink
  have hbalance := haccounts.balance
  rw [hheld, List.append_nil] at hbalance
  exact ⟨hsame, ⟨hbalance.symm, haccounts.once⟩, hclosed⟩

theorem attests_same (hot : ot.Lawful) (hs : s.sockets.Owned) (hv : b.Closed v) (hrun : Attests b s v logs t w) :
    Same s t ∧ LeaksNothing b s logs t w := by
  induction hrun with
  | nil => exact ⟨⟨hs, fun _ => rfl⟩, fun _ => rfl, fun _ hlog => (by cases hlog), hv⟩
  | post hpost _ ih =>
    obtain ⟨hsame, hclosed, hv'⟩ := post_same hot hs hv hpost
    obtain ⟨hrest, hleaks⟩ := ih hsame.owned hv'
    refine ⟨hsame.trans hrest, (hsame.trans hrest).inUse, fun log hlog => ?_, hleaks.shut⟩
    rcases List.mem_cons.mp hlog with rfl | hlog
    · exact hclosed
    · exact hleaks.closes log hlog

theorem Reached.owned (hot : ot.Lawful) (h : Reached b s v) : s.sockets.Owned ∧ b.Closed v := by
  induction h with
  | start mac net =>
    refine ⟨.start net, ?_⟩
    cases b with
    | plain => trivial
    | tls ssl context => exact (by decide : (-1 : ℤ) < 0)
  | step a _ ih => exact ⟨IoState.owned_step hot ih.1 a, ih.2⟩
  | attests _ hrun ih =>
    obtain ⟨hsame, hleaks⟩ := attests_same hot ih.1 ih.2 hrun
    exact ⟨hsame.owned, hleaks.shut⟩

/-- From any state that can be reached, however often http_post is called and whatever each of its calls replies, no
    socket is left behind. -/
theorem http_post_leaks_nothing (hot : ot.Lawful) (h : Reached b s v) (hrun : Attests b s v logs t w) :
    LeaksNothing b s logs t w := by
  obtain ⟨hs, hv⟩ := h.owned hot
  exact (attests_same hot hs hv hrun).2

/-- The library where nothing arrives and the name is found. -/
def reply (s : IoState fm ot) : (c : NetCall) → Option (Reply c × IoState fm ot)
  | .gethostbyname _ => some (some 0x321C5683, s)
  | .socket domain type protocol => some (s.onSockets fun sockets => sockets.socket domain type protocol)
  | .connect sockfd addr => (s.sockets.connect sockfd addr).map fun x => (x.1, IoState.join s.files x.2.stores)
  | .send sockfd buf flags => (s.sockets.send sockfd buf flags).map fun x => (x.1, IoState.join s.files x.2.stores)
  | .recv sockfd len _ => s.recv sockfd len
  | .shutdown sockfd how => some (s.onSockets fun sockets => sockets.shutdown sockfd how)
  | .close fd => some (s.close fd)
  | .TickCount => some (0, s)

theorem returns_of_map {α : Type} {res : Option (α × SocketState ot)} {r : α}
    (h : (res.map fun x => (x.1, IoState.join s.files x.2.stores)) = some (r, t)) : Returns s res r t := by
  obtain ⟨x, rfl, heq⟩ := Option.map_eq_some_iff.mp h
  obtain ⟨rfl, rfl⟩ := Prod.mk.inj heq
  exact ⟨x.2, [], rfl, rfl⟩

theorem replies_reply (s : IoState fm ot) (c : NetCall) (r : Reply c) (t : IoState fm ot) (h : reply s c = some (r, t)) :
    Replies s c r t := by
  refine ⟨[], ?_⟩
  cases c with
  | gethostbyname name | TickCount =>
    obtain ⟨-, rfl⟩ := Prod.mk.inj (Option.some.inj h)
    rfl
  | connect sockfd addr | send sockfd buf flags | recv sockfd len flags => exact returns_of_map h
  | _ => exact Option.some.inj h

/-- A BearSSL whose engine is closed before it has called anything. -/
def closedEngine : BearSSL where
  Context := Unit
  start _ _ _ := .ret ()
  current_state _ := 1
  last_error _ := 0
  write_all _ _ := .ret (-1, ())
  flush _ := .ret (-1, ())
  read _ _ := .ret ((-1, []), ())
  close _ := .ret (0, ())
  BR_SSL_CLOSED := 1
  BR_ERR_OK := 0
  BR_ERR_IO := 31

/-- `http_post("/attest/submit", "ok", response, 4096)` with TLS. -/
def attestation : (Build.tls closedEngine ()).Args :=
  (⟨⟨"/attest/submit".toList, by decide⟩, ⟨"ok".toList, by decide⟩, by decide +kernel⟩,
    ⟨fun _ => 0, 4096, by decide, by decide⟩)

/-- The first call of the program: connect fails. -/
theorem http_post_leaks_nothing_wire : ∃ (t : IoState bareDisk wire) (w : Tls closedEngine) (log : Log NetCall Reply),
    sockets.opened log = [1000] ∧
      LeaksNothing (.tls closedEngine ()) (IoState.start [] Wire.idle : IoState bareDisk wire) [log] t w := by
  have hexec : (exec reply (IoState.start [] Wire.idle : IoState bareDisk wire)
      ((Build.tls closedEngine ()).http_post attestation (Build.tls closedEngine ()).init)).any
        (fun x => sockets.opened x.1 = [1000]) = true := by decide +kernel
  obtain ⟨⟨log, result, t⟩, hrun, hopened⟩ := (Option.any_eq_true _ _).mp hexec
  have hstart := @Reached.start bareDisk wire (.tls closedEngine ()) [] Wire.idle
  exact ⟨t, result.2, log, of_decide_eq_true hopened,
    http_post_leaks_nothing wire_lawful hstart (.post (runs_exec replies_reply hrun) .nil)⟩

end Loop

end Posix9.Miner
