import Mathlib.Data.List.ReduceOption
import Posix9.Submission

/-! rustchain_miner_posix9.c: submit_attestation and the loop of main, without TLS. The calls may fail at any point; a
    node sees the connections one behind the other. -/

namespace Posix9.Miner

open Memory Program

/-! ### The program -/

/-- What submit_attestation prints in the end. -/
inductive Report where
  | success
  | response (shown : List UInt8)
  | failed (err : ℤ)
  deriving DecidableEq

def bytes (s : CStr) : List UInt8 := s.map fun c => UInt8.ofNat c.toNat

/-- strstr, as far as it finds something or not. -/
def strstr (haystack needle : List UInt8) : Bool := decide (needle <:+: haystack)

def verdict (response : List UInt8) : Report :=
  if strstr response (bytes "200 OK".toList) || strstr response (bytes "\"ok\"".toList) then .success
  else .response (response.take 80)

/-- `stack` is what is in `response` before; main does not look at what is returned. -/
def submit_attestation (w : Wallet) (stack : ℕ → UInt8) : Program NetCall Reply Report := do
  let nonce ← TickCount
  let (err, response) ← http_post (submission false w nonce) ⟨stack, BUFFER_SIZE, by decide, by decide⟩
  pure (if err = 0 then verdict (stringAt 0 response 0 BUFFER_SIZE) else .failed err)

/-- `rounds` rounds of the loop of main. -/
def attestationLoop (w : Wallet) (stack : ℕ → ℕ → UInt8) :
    (rounds loop_count : ℕ) → Program NetCall Reply (List Report)
  | 0, _ => pure []
  | rounds + 1, loop_count => do
    let report ← submit_attestation w (stack loop_count)
    let reports ← attestationLoop w stack rounds (loop_count + 1)
    pure (report :: reports)

/-! ### The node -/

/-- A connection: what has been accepted from the miner, and what has been delivered to it. -/
structure Session where
  accepted : List UInt8
  delivered : List UInt8

/-- Any call may fail. A connect that does not begins a session, and send and recv go on with the last one. -/
def Session.Replies (p : List Session) : (c : NetCall) → Reply c → List Session → Prop
  | .connect .., connected, q => (connected < 0 ∧ q = p) ∨ (0 ≤ connected ∧ q = p ++ [⟨[], []⟩])
  | .send _ buf _, sent, q => (sent ≤ 0 ∧ q = p) ∨ ∃ n earlier x, 1 ≤ n ∧ n ≤ buf.length ∧ sent = (n : ℤ) ∧
    p = earlier ++ [x] ∧ q = earlier ++ [{ x with accepted := x.accepted ++ buf.take n }]
  | .recv _ len _, received, q => (received.1 ≤ 0 ∧ q = p) ∨ ∃ got earlier x, got ≠ [] ∧ got.length ≤ len ∧
    received = ((got.length : ℤ), got) ∧ p = earlier ++ [x] ∧ q = earlier ++ [{ x with delivered := x.delivered ++ got }]
  | .gethostbyname _, _, q | .socket .., _, q | .shutdown .., _, q | .close _, _, q | .TickCount, _, q => q = p

variable {p q earlier : List Session} {x : Session} {w : Wallet} {sock : ℤ} {request : List UInt8}
  {rounds total limit : ℕ} {b : Bool} {response : ℕ → UInt8} {received : ℕ × (ℕ → UInt8)} {result : ℤ × (ℕ → UInt8)}

/-! ### The loops -/

theorem last_eq {earlier' : List Session} {y : Session} (h : earlier ++ [x] = earlier' ++ [y]) :
    earlier' = earlier ∧ y = x := by
  obtain ⟨hearlier, hlast⟩ := List.append_inj' h rfl
  exact ⟨hearlier.symm, (List.cons.inj hlast).1.symm⟩

/-- Some of the rest of the request is accepted, and all of it where the loop comes to its end. -/
theorem sendLoop_session (hrounds : request.length ≤ total + rounds)
    (h : Yields Session.Replies (earlier ++ [x]) (sendLoop sock request rounds total) b q) :
    ∃ n, q = earlier ++ [{ x with accepted := x.accepted ++ (request.drop total).take n }] ∧
      (b = true → request.length ≤ total + n) := by
  induction rounds generalizing x total with
  | zero =>
    rw [sendLoop, pure_eq, yields_ret] at h
    refine ⟨0, ?_, fun _ => hrounds⟩
    rw [h.2, List.take_zero, List.append_nil]
  | succ rounds ih =>
    rw [sendLoop] at h
    split at h
    case isFalse hdone =>
      rw [pure_eq, yields_ret] at h
      refine ⟨0, ?_, fun _ => Nat.not_lt.mp hdone⟩
      rw [h.2, List.take_zero, List.append_nil]
    case isTrue hlt =>
      rw [bind_eq, send, call_bind, yields_call] at h
      obtain ⟨sent, t, ⟨hfailed, rfl⟩ | ⟨n, earlier', y, hn, hlen, rfl, heq, rfl⟩, h⟩ := h
      · rw [ret_bind, if_pos hfailed, pure_eq, yields_ret] at h
        refine ⟨0, ?_, fun hb => ?_⟩
        · rw [h.2, List.take_zero, List.append_nil]
        · rw [h.1] at hb
          cases hb
      · obtain ⟨rfl, rfl⟩ := last_eq heq
        rw [ret_bind, if_neg (by omega), Int.toNat_natCast] at h
        obtain ⟨m, hq, hall⟩ := ih (by omega) h
        refine ⟨n + m, ?_, fun hb => ?_⟩
        · rw [hq, List.take_add, List.drop_drop, List.append_assoc]
        · have := hall hb
          omega

/-- What is delivered goes into `response`, as far as there is room. -/
def Delivers (limit total : ℕ) (response : ℕ → UInt8) (earlier : List Session) (x : Session)
    (received : ℕ × (ℕ → UInt8)) (q : List Session) : Prop :=
  ∃ got, got.length ≤ limit - total ∧ q = earlier ++ [{ x with delivered := x.delivered ++ got }] ∧
    received = (total + got.length, write response total got)

theorem Delivers.nothing (h : received = (total, response) ∧ q = earlier ++ [x]) :
    Delivers limit total response earlier x received q := by
  obtain ⟨rfl, rfl⟩ := h
  refine ⟨[], Nat.zero_le _, ?_, ?_⟩
  · rw [List.append_nil]
  · rw [write_nil]
    rfl

theorem recvLoop_session
    (h : Yields Session.Replies (earlier ++ [x]) (recvLoop sock limit rounds total response) received q) :
    Delivers limit total response earlier x received q := by
  induction rounds generalizing x total response with
  | zero =>
    rw [recvLoop, pure_eq, yields_ret] at h
    exact .nothing h
  | succ rounds ih =>
    rw [recvLoop] at h
    split at h
    case isFalse hdone =>
      rw [pure_eq, yields_ret] at h
      exact .nothing h
    case isTrue hlt =>
      rw [bind_eq, recv, call_bind, yields_call] at h
      obtain ⟨r, t, ⟨hfailed, rfl⟩ | ⟨got, earlier', y, hne, hlen, rfl, heq, rfl⟩, h⟩ := h
      · rw [ret_bind] at h
        dsimp only at h
        rw [if_pos hfailed, pure_eq, yields_ret] at h
        exact .nothing h
      · obtain ⟨rfl, rfl⟩ := last_eq heq
        have hpos := List.length_pos_of_ne_nil hne
        rw [ret_bind] at h
        dsimp only at h
        rw [if_neg (by omega), Int.toNat_natCast] at h
        obtain ⟨more, hroom, rfl, rfl⟩ := ih h
        refine ⟨got ++ more, ?_, ?_, ?_⟩
        · rw [List.length_append]
          omega
        · rw [List.append_assoc]
        · rw [List.length_append, Nat.add_assoc, write_append]

/-! ### The whole exchange -/

/-- What may come of a request over a connection. -/
def Exchanged (request : List UInt8) (response : Buffer) (x : Session) (result : ℤ × (ℕ → UInt8)) : Prop :=
  x.accepted <+: request ∧ (result.1 = -1 ∨
    (result = (0, write response.cells 0 (x.delivered ++ [0])) ∧ x.accepted = request ∧ x.delivered ≠ [] ∧
      x.delivered.length < response.size))

theorem released_session (a : ℤ × (ℕ → UInt8)) (h : Yields Session.Replies p (do
    let _ ← shutdown sock SHUT_RDWR
    let _ ← close sock
    pure a) result q) : result = a ∧ q = p := by
  rw [bind_eq, shutdown, call_bind, yields_call] at h
  obtain ⟨r, t, rfl, h⟩ := h
  rw [ret_bind, bind_eq, close, call_bind, yields_call] at h
  obtain ⟨r, t, rfl, h⟩ := h
  exact yields_ret.mp h

theorem exchange_session {post : Post plainHost} {response : Buffer}
    (h : Yields Session.Replies (earlier ++ [⟨[], []⟩]) (exchange sock post response) result q) :
    ∃ x, q = earlier ++ [x] ∧ Exchanged post.request response x result := by
  rw [exchange, bind_eq, yields_bind] at h
  obtain ⟨b, t, hsend, h⟩ := h
  obtain ⟨n, rfl, hall⟩ := sendLoop_session (by omega) hsend
  rw [List.drop_zero, List.nil_append] at h
  rcases b with _ | _
  · rw [if_neg (by decide), bind_eq, close, call_bind, yields_call] at h
    obtain ⟨r, t, rfl, h⟩ := h
    obtain ⟨rfl, rfl⟩ := yields_ret.mp h
    exact ⟨_, rfl, List.take_prefix _ _, .inl rfl⟩
  · have hwhole : post.request.take n = post.request := List.take_of_length_le (by have := hall rfl; omega)
    rw [if_pos rfl, hwhole, bind_eq, yields_bind] at h
    obtain ⟨received, t, hrecv, h⟩ := h
    obtain ⟨got, hroom, rfl, rfl⟩ := recvLoop_session hrecv
    obtain ⟨rfl, rfl⟩ := released_session _ h
    refine ⟨_, rfl, List.prefix_refl _, ?_⟩
    rcases got with _ | ⟨c, got⟩
    · exact .inl rfl
    · have hsize := response.pos
      rw [Nat.sub_zero, List.length_cons] at hroom
      have hpos : 0 < 0 + (c :: got).length := by
        rw [Nat.zero_add]
        exact Nat.succ_pos _
      refine .inr ⟨?_, rfl, List.cons_ne_nil c got, ?_⟩
      · rw [if_pos hpos, Nat.zero_add, List.nil_append]
        have hwrite := write_append response.cells 0 (c :: got) [0]
        rw [Nat.zero_add] at hwrite
        rw [hwrite]
      · change got.length + 1 < response.size
        omega

theorem http_post_session {post : Post plainHost} {response : Buffer}
    (h : Yields Session.Replies p (http_post post response) result q) :
    (q = p ∧ result.1 = -1) ∨ ∃ x, q = p ++ [x] ∧ Exchanged post.request response x result := by
  rw [http_post, bind_eq, gethostbyname, call_bind, yields_call] at h
  obtain ⟨host, p, rfl, h⟩ := h
  rw [ret_bind] at h
  rcases host with _ | h_addr
  · obtain ⟨rfl, rfl⟩ := yields_ret.mp h
    exact .inl ⟨rfl, rfl⟩
  · dsimp only at h
    rw [bind_eq, socket, call_bind, yields_call] at h
    obtain ⟨sock, p, rfl, h⟩ := h
    rw [ret_bind] at h
    split at h
    · obtain ⟨rfl, rfl⟩ := yields_ret.mp h
      exact .inl ⟨rfl, rfl⟩
    rw [bind_eq, connect, call_bind, yields_call] at h
    obtain ⟨connected, t, ⟨hfailed, rfl⟩ | ⟨hconnected, rfl⟩, h⟩ := h
    · rw [ret_bind, if_pos hfailed, bind_eq, close, call_bind, yields_call] at h
      obtain ⟨r, t, rfl, h⟩ := h
      obtain ⟨rfl, rfl⟩ := yields_ret.mp h
      exact .inl ⟨rfl, rfl⟩
    · rw [ret_bind, if_neg (Int.not_lt.mpr hconnected)] at h
      exact .inr (exchange_session h)

/-! ### What is reported -/

/-- The bytes are a request whose body is the attestation. -/
def Carries (w : Wallet) (nonce : BitVec 32) (bytes : List UInt8) : Prop :=
  ∃ body : CStr, Http.read (ofBytes bytes) = some (Miner.received plainHost body, []) ∧
    Json.parse body = some (attested w.chars nonce)

/-- A report and the session it is about, if it came to one: a failure, in which the node may have got a part of an
    attestation, or what the node answered to a whole one. -/
inductive Reported (w : Wallet) : Report → Option Session → Prop
  | unreached : Reported w (.failed (-1)) none
  | failed {x : Session} {nonce : BitVec 32} {whole : List UInt8} : Carries w nonce whole → x.accepted <+: whole →
    Reported w (.failed (-1)) (some x)
  | answered {x : Session} {nonce : BitVec 32} : Carries w nonce x.accepted → x.delivered ≠ [] →
    Reported w (verdict (x.delivered.takeWhile (· ≠ 0))) (some x)

theorem submission_carries (w : Wallet) (nonce : BitVec 32) : Carries w nonce (submission false w nonce).request := by
  have hread := read_submission false w nonce []
  rw [List.append_nil] at hread
  exact ⟨_, hread, parse_json w nonce⟩

/-- What strstr looks at, with a NUL in the response or without. -/
theorem stringAt_response (cells : ℕ → UInt8) (got : List UInt8) (hroom : got.length < limit) :
    stringAt 0 (write cells 0 (got ++ [0])) 0 limit = got.takeWhile (· ≠ 0) := by
  have hsplit := List.takeWhile_append_dropWhile (p := (· ≠ (0 : UInt8))) (l := got)
  have hheld := holdsAt_write cells 0 (got ++ [0])
  have hnul : (0 : UInt8) ∉ got.takeWhile (· ≠ 0) := by
    intro hmem
    have := List.mem_takeWhile_imp hmem
    simp at this
  have hlen := (List.takeWhile_sublist (l := got) (p := (· ≠ (0 : UInt8)))).length_le
  refine stringAt_of_holdsAt ?_ hnul (Nat.lt_of_le_of_lt hlen hroom)
  rcases hrest : got.dropWhile (· ≠ 0) with _ | ⟨c, rest⟩
  · rw [hrest, List.append_nil] at hsplit
    rw [hsplit]
    exact hheld
  · have hc : c = 0 := by
      have hfirst := List.dropWhile_get_zero_not (p := (· ≠ (0 : UInt8))) got (by rw [hrest]; exact Nat.succ_pos _)
      simp only [hrest, List.get_eq_getElem, List.getElem_cons_zero] at hfirst
      simpa using hfirst
    subst hc
    have hsplit' : got ++ [0] = (got.takeWhile (· ≠ 0) ++ [0]) ++ (rest ++ [0]) := by
      rw [hrest] at hsplit
      conv => lhs; rw [← hsplit]
      simp
    have hwhole : HoldsAt (write cells 0 (got ++ [0])) 0 ((got.takeWhile (· ≠ 0) ++ [0]) ++ (rest ++ [0])) := by
      rw [← hsplit']
      exact hheld
    exact (holdsAt_append.mp hwhole).1

theorem submit_attestation_session {stack : ℕ → UInt8} {report : Report}
    (h : Yields Session.Replies p (submit_attestation w stack) report q) :
    ∃ session : Option Session, q = p ++ session.toList ∧ Reported w report session := by
  rw [submit_attestation, bind_eq, TickCount, call_bind, yields_call] at h
  obtain ⟨nonce, p, rfl, h⟩ := h
  rw [ret_bind, bind_eq, yields_bind] at h
  obtain ⟨⟨err, response⟩, t, hpost, h⟩ := h
  obtain ⟨rfl, rfl⟩ := yields_ret.mp h
  have hcarries := submission_carries w nonce
  rcases http_post_session hpost with ⟨rfl, hfailed⟩ | ⟨x, rfl, hprefix, hfailed | ⟨hresult, hwhole, hsome, hroom⟩⟩
  · obtain rfl : err = -1 := hfailed
    exact ⟨none, (List.append_nil _).symm, .unreached⟩
  · obtain rfl : err = -1 := hfailed
    exact ⟨some x, rfl, .failed hcarries hprefix⟩
  · obtain ⟨rfl, rfl⟩ := Prod.mk.inj hresult
    refine ⟨some x, rfl, ?_⟩
    rw [if_pos rfl, stringAt_response _ _ hroom]
    exact .answered (hwhole ▸ hcarries) hsome

/-- However the calls turn out, the loop of main makes at most one session a round and reports each round for what it
    was: what the node gets is the beginning of an attestation, and a whole one where it is reported as answered. -/
theorem attestationLoop_sessions {stack : ℕ → ℕ → UInt8} {loop_count : ℕ} {reports : List Report}
    (h : Yields Session.Replies p (attestationLoop w stack rounds loop_count) reports q) :
    reports.length = rounds ∧ ∃ sessions : List (Option Session),
      q = p ++ sessions.reduceOption ∧ List.Forall₂ (Reported w) reports sessions := by
  induction rounds generalizing p loop_count reports with
  | zero =>
    obtain ⟨rfl, rfl⟩ := yields_ret.mp h
    exact ⟨rfl, [], (List.append_nil _).symm, .nil⟩
  | succ rounds ih =>
    rw [attestationLoop, bind_eq, yields_bind] at h
    obtain ⟨report, t, hfirst, h⟩ := h
    rw [bind_eq, yields_bind] at h
    obtain ⟨reports, u, hrest, h⟩ := h
    obtain ⟨rfl, rfl⟩ := yields_ret.mp h
    obtain ⟨session, rfl, hreported⟩ := submit_attestation_session hfirst
    obtain ⟨hrounds, sessions, rfl, hall⟩ := ih hrest
    refine ⟨congrArg Nat.succ hrounds, session :: sessions, ?_, .cons hreported hall⟩
    rw [List.append_assoc]
    cases session with
    | none => rw [List.reduceOption_cons_of_none, Option.toList_none, List.nil_append]
    | some x => rw [List.reduceOption_cons_of_some, Option.toList_some, List.singleton_append]

/-- A node that is found once, takes everything and answers at once. -/
def answer (p : List Session) : (c : NetCall) → Option (Reply c × List Session)
  | .gethostbyname _ => some (if p = [] then some 0 else none, p)
  | .socket .. | .shutdown .. | .close _ => some ((0 : ℤ), p)
  | .TickCount => some ((7 : BitVec 32), p)
  | .connect .. => some ((0 : ℤ), p ++ [⟨[], []⟩])
  | .send _ buf _ => p.getLast?.bind fun x =>
    if buf = [] then none else some ((buf.length : ℤ), p.dropLast ++ [{ x with accepted := x.accepted ++ buf }])
  | .recv _ len _ => p.getLast?.bind fun x =>
    if x.delivered ≠ [] ∨ len < 6 then some (((0 : ℤ), []), p)
    else some (((6 : ℤ), bytes "200 OK".toList), p.dropLast ++ [{ x with delivered := bytes "200 OK".toList }])

theorem replies_answer (p : List Session) (c : NetCall) (r : Reply c) (q : List Session)
    (h : answer p c = some (r, q)) : Session.Replies p c r q := by
  cases c with
  | gethostbyname name | socket domain type protocol | shutdown sockfd how | close fd | TickCount =>
    cases h
    rfl
  | connect sockfd addr =>
    cases h
    exact .inr ⟨Int.le_refl 0, rfl⟩
  | send sockfd buf flags =>
    obtain ⟨x, hlast, h⟩ := Option.bind_eq_some_iff.mp h
    obtain ⟨earlier, rfl⟩ := List.getLast?_eq_some_iff.mp hlast
    rw [List.dropLast_concat] at h
    split at h
    · cases h
    · rename_i hbuf
      cases h
      refine .inr ⟨buf.length, earlier, x, List.length_pos_of_ne_nil hbuf, Nat.le_refl _, rfl, rfl, ?_⟩
      rw [List.take_length]
  | recv sockfd len flags =>
    obtain ⟨x, hlast, h⟩ := Option.bind_eq_some_iff.mp h
    obtain ⟨earlier, rfl⟩ := List.getLast?_eq_some_iff.mp hlast
    rw [List.dropLast_concat] at h
    split at h
    · cases h
      exact .inl ⟨Int.le_refl 0, rfl⟩
    · rename_i hfirst
      obtain ⟨hempty, hlen⟩ := not_or.mp hfirst
      cases h
      refine .inr ⟨bytes "200 OK".toList, earlier, x, by decide, Nat.not_lt.mp hlen, rfl, rfl, ?_⟩
      rw [not_not.mp hempty, List.nil_append]

def zeroWallet : Wallet where
  chars := List.replicate 64 '0'
  digits c hc := by
    rw [List.eq_of_mem_replicate hc]
    decide
  length := List.length_replicate

theorem attestationLoop_sessions_two : ∃ sessions : List (Option Session),
    sessions.reduceOption.length = 1 ∧
      List.Forall₂ (Reported zeroWallet) [.success, .failed (-1)] sessions := by
  have hexec : (exec answer [] (attestationLoop zeroWallet (fun _ _ => 0) 2 0)).any
      (fun x => x.2.1 = [.success, .failed (-1)] ∧ x.2.2.length = 1) = true := by decide +kernel
  obtain ⟨⟨log, reports, q⟩, hrun, h⟩ := (Option.any_eq_true _ _).mp hexec
  obtain ⟨hreports, hlength⟩ := of_decide_eq_true h
  obtain ⟨-, sessions, hq, hall⟩ := attestationLoop_sessions ⟨log, runs_exec replies_answer hrun⟩
  rw [List.nil_append] at hq
  exact ⟨sessions, hq ▸ hlength, hreports ▸ hall⟩

end Posix9.Miner
