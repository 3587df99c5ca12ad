import Posix9.SocketTurns
import Posix9.Wire
import Posix9.Lib.Runs

/-! The flags of a socket next to its endpoint. listen takes an unbound socket for a listening one and, where
    OTUnbind has succeeded and OTBind has not, leaves a bound one that is not; bind gives a listening one a
    queue of 0; the notifier takes every T_CONNECT for a connection, whatever its result; and connect and
    accept store that a socket is connected without a look at what has come since. -/

namespace Posix9.SocketState

open Runs

variable {ot : OpenTransport} {s : SocketState ot} {i j : SockIdx}

/-- The flags of a socket say what Open Transport last answered for its endpoint. -/
structure Truthful (v : View) : Prop where
  bound : v.bound = true ↔ v.queue.isSome = true
  listening : v.listening = true → ∃ qlen, 1 ≤ qlen ∧ v.queue = some qlen
  connected : v.connected = true → v.linked = true

/-- The flags of every socket do. -/
def FlagsTrue (s : SocketState ot) : Prop := ∀ i, (s.socket_table i).inUse = true → Truthful (s.view i)

/-- What connect and accept store is still so: the notifier has not been called with a disconnect or a release
    since. -/
def StoresLinked (s : SocketState ot) : Option UnderWay → Prop
  | some (.accepted acc) => (s.view acc.newsock).linked = true
  | some (.connected i _) => (s.view i).linked = true
  | _ => True

/-- The input keeps the flags true: bind fails on a listening socket, listen is called on a bound one and
    binds it again if it unbinds it, connect does not fail on a connected one, what is stored is still so, and
    no notifier is called with a connection that has failed. -/
def KeepsFlags (s : SocketState ot) : SocketInput → Prop
  | .call (.bind fd addr) => s.underWay.isSome = false → ∀ i ∈ s.get_socket fd,
    (s.socket_table i).listening = true → (s.bindReply i addr).result ≠ noErr
  | .call (.listen fd backlog) => s.underWay.isSome = false → ∀ i ∈ s.get_socket fd,
    (s.socket_table i).type = SOCK_STREAM → (s.socket_table i).bound = true ∧
      ((s.unbindReply i).result = noErr → (s.rebindReply i backlog).result = noErr)
  | .call (.connect fd addr) => s.underWay.isSome = false → ∀ i ∈ s.get_socket fd,
    ot.waits (.OTConnect (s.socket_table i).ep addr) s.net = false → (s.socket_table i).connected = true →
      (s.connectReply i addr).result = noErr
  | .stores => s.StoresLinked s.underWay
  | .arrival ep (.connected result) => ∀ i, (s.socket_table i).inUse = true → (s.socket_table i).ep = ep →
    s.told i (.connected result) = true → result = noErr
  | _ => True

theorem one_le_queueLength (backlog : ℤ) : 1 ≤ queueLength backlog := by
  rw [queueLength]
  split <;> omega

/-! ### One input -/

theorem truthful_arrived (h : Truthful (s.view j)) (hj : (s.socket_table j).inUse = true) (a : Arrival)
    (hC : s.KeepsFlags (.arrival (s.socket_table j).ep a)) :
    Truthful ((s.view j).arrived a (s.told j a) (s.arrivedStream j a)) := by
  refine ⟨?_, ?_, ?_⟩
  · rw [View.arrived_bound, View.arrived_queue]
    exact h.bound
  · rw [View.arrived_listening, View.arrived_queue]
    exact h.listening
  · cases htold : s.told j a with
    | false => exact h.connected
    | true =>
      cases a with
      | connected result =>
        intro _
        exact decide_eq_true (hC j hj rfl htold)
      | disconnect | orderlyRelease =>
        intro hconnected
        cases hconnected
      | _ => exact h.connected

theorem truthful_turn (hs : s.WellFormed) (hflags : s.FlagsTrue) {a : SocketInput}
    (hcall : ∀ c, a = .call c → s.underWay = none) (hC : s.KeepsFlags a) {v : View} (h : Turn s a j v) :
    Truthful v := by
  have hidle : ∀ c, a = .call c → s.underWay.isSome = false := fun c hc => by rw [hcall c hc]; rfl
  cases h with
  | same hj => exact hflags j hj
  | opened | accepted => exact ⟨by simp [View.fresh], by simp [View.fresh], by simp [View.fresh]⟩
  | installed notified hacc =>
    have hbefore := hflags _ (hs.accepting_inUse hacc)
    exact ⟨hbefore.bound, hbefore.listening, hbefore.connected⟩
  | acceptStored hw hj =>
    have hbefore := hflags _ hj
    rw [KeepsFlags, hw] at hC
    exact ⟨hbefore.bound, hbefore.listening, fun _ => hC⟩
  | connectStored hw hj =>
    have hbefore := hflags j hj
    rw [KeepsFlags, hw] at hC
    exact ⟨hbefore.bound, hbefore.listening, fun _ => hC⟩
  | recvStored _ hj =>
    have hbefore := hflags j hj
    exact ⟨hbefore.bound, hbefore.listening, hbefore.connected⟩
  | bound hget hres =>
    have hbefore := hflags j (get_socket_inUse hget)
    refine ⟨by simp, fun hlistening => ?_, hbefore.connected⟩
    exact absurd hres (hC (hidle _ rfl) j hget hlistening)
  | bindFailed hget =>
    have hbefore := hflags j (get_socket_inUse hget)
    exact ⟨hbefore.bound, hbefore.listening, hbefore.connected⟩
  | listening hget htype hunbound =>
    have hbound := (hC (hidle _ rfl) j hget htype).1
    rw [hunbound] at hbound
    cases hbound
  | @rebound fd backlog j listens hget htype hbound =>
    have hbefore := hflags j (get_socket_inUse hget)
    have hbound' : (s.view j).bound = true := hbound
    exact ⟨by simp [hbound'], fun _ => ⟨_, one_le_queueLength backlog, rfl⟩, hbefore.connected⟩
  | rebindFailed hget htype hbound hfailed =>
    have hbefore := hflags j (get_socket_inUse hget)
    have hunbind := mt (hC (hidle _ rfl) j hget htype).2 hfailed
    rw [if_neg hunbind]
    exact ⟨hbefore.bound, hbefore.listening, hbefore.connected⟩
  | connected hget =>
    have hbefore := hflags j (get_socket_inUse hget)
    exact ⟨hbefore.bound, hbefore.listening, fun _ => rfl⟩
  | connectFailed hget hwaits hfailed =>
    have hbefore := hflags j (get_socket_inUse hget)
    refine ⟨hbefore.bound, hbefore.listening, fun hconnected => ?_⟩
    exact absurd (hC (hidle _ rfl) j hget hwaits hconnected) hfailed
  | received hreceipt | receivedNone hreceipt =>
    have hbefore := hflags j (receipt_inUse hreceipt)
    exact ⟨hbefore.bound, hbefore.listening, hbefore.connected⟩
  | receivedUnit stream hget =>
    have hbefore := hflags j (get_socket_inUse hget)
    exact ⟨hbefore.bound, hbefore.listening, hbefore.connected⟩
  | arrived hj hep =>
    subst hep
    exact truthful_arrived (hflags j hj) hj _ hC

/-! ### Inputs that do not keep them -/

theorem bind_done {fd : ℤ} {addr : InetAddress} (hget : s.get_socket fd = some i)
    (hres : (s.bindReply i addr).result = noErr) :
    (s.bind fd addr).2 = (s.callOT (.OTBind (s.socket_table i).ep addr 0)).2.updateEntry i fun e =>
      { e with bound := true, localAddr := (s.bindReply i addr).addr } := by
  have hres : (s.callOT (.OTBind (s.socket_table i).ep addr 0)).1.result = noErr := hres
  simp only [bind, hget, hres]
  rfl

theorem listen_unbound {fd : ℤ} (backlog : ℤ) (hget : s.get_socket fd = some i)
    (htype : (s.socket_table i).type = SOCK_STREAM) (hbound : (s.socket_table i).bound = false) :
    (s.listen fd backlog).2 = s.updateEntry i fun e => { e with listening := true } := by
  simp only [listen, hget, htype, hbound]
  rfl

theorem listen_failed {fd backlog : ℤ} (hget : s.get_socket fd = some i)
    (htype : (s.socket_table i).type = SOCK_STREAM) (hbound : (s.socket_table i).bound = true)
    (hfailed : (s.rebindReply i backlog).result ≠ noErr) :
    (s.listen fd backlog).2 = ((s.callOT (.OTUnbind (s.socket_table i).ep)).2.callOT (.OTBind
      (s.socket_table i).ep (s.socket_table i).localAddr (queueLength backlog))).2.setErrno
        (ot_error_to_errno (s.rebindReply i backlog).result) := by
  have hfailed : ((s.callOT (.OTUnbind (s.socket_table i).ep)).2.callOT (.OTBind (s.socket_table i).ep
    (s.socket_table i).localAddr (queueLength backlog))).1.result ≠ noErr := hfailed
  simp only [listen, hget, htype, hbound, if_pos hfailed]
  rfl

theorem connect_failed {fd : ℤ} {addr : InetAddress} (hget : s.get_socket fd = some i)
    (hwaits : ot.waits (.OTConnect (s.socket_table i).ep addr) s.net = false)
    (hfailed : (s.connectReply i addr).result ≠ noErr) :
    s.after (s.connect fd addr) = (s.callOT (.OTConnect (s.socket_table i).ep addr)).2.setErrno
      (ot_error_to_errno (s.connectReply i addr).result) := by
  have hfailed : (s.callOT (.OTConnect (s.socket_table i).ep addr)).1.result ≠ noErr := hfailed
  simp only [connect, hget, hwaits, if_pos hfailed]
  rfl

/-- A listening socket that bind binds has a queue of 0. -/
theorem bind_of_truthful (hstr : ot.Streams) {fd : ℤ} {addr : InetAddress} (hget : s.get_socket fd = some i)
    (hflags : (s.bind fd addr).2.FlagsTrue) (hlistening : (s.socket_table i).listening = true) :
    (s.bindReply i addr).result ≠ noErr := by
  intro hres
  rw [bind_done hget hres] at hflags
  have hafter := hflags i (by rw [updateEntry_self]; exact get_socket_inUse hget)
  rw [view_updateEntry rfl, view_bind hstr s i, if_pos (by exact hres)] at hafter
  obtain ⟨qlen, hqlen, hqueue⟩ := hafter.listening hlistening
  rw [← Option.some.inj hqueue] at hqlen
  cases hqlen

theorem listen_of_truthful (hstr : ot.Streams) {fd backlog : ℤ} (hget : s.get_socket fd = some i)
    (hbefore : Truthful (s.view i)) (hflags : (s.listen fd backlog).2.FlagsTrue)
    (htype : (s.socket_table i).type = SOCK_STREAM) : (s.socket_table i).bound = true ∧
      ((s.unbindReply i).result = noErr → (s.rebindReply i backlog).result = noErr) := by
  have hi := get_socket_inUse hget
  -- an unbound endpoint has no queue for the flag to speak of
  have hbound : (s.socket_table i).bound = true := by
    by_contra hunbound
    rw [listen_unbound backlog hget htype (Bool.eq_false_iff.mpr hunbound)] at hflags
    have hafter := hflags i (by rw [updateEntry_self]; exact hi)
    rw [view_updateEntry rfl] at hafter
    obtain ⟨qlen, -, hqueue⟩ := hafter.listening rfl
    exact hunbound (hbefore.bound.mpr (Option.isSome_iff_exists.mpr ⟨qlen, hqueue⟩))
  refine ⟨hbound, fun hunbind => ?_⟩
  by_contra hfailed
  rw [listen_failed hget htype hbound hfailed] at hflags
  have hafter := hflags i hi
  rw [view_setErrno, view_rebind hstr s i backlog, if_neg hfailed, if_pos hunbind] at hafter
  cases hafter.bound.mp hbound

theorem connect_of_truthful (hstr : ot.Streams) {fd : ℤ} {addr : InetAddress} (hget : s.get_socket fd = some i)
    (hflags : (s.after (s.connect fd addr)).FlagsTrue)
    (hwaits : ot.waits (.OTConnect (s.socket_table i).ep addr) s.net = false)
    (hconnected : (s.socket_table i).connected = true) : (s.connectReply i addr).result = noErr := by
  by_contra hfailed
  rw [connect_failed hget hwaits hfailed] at hflags
  have hafter := hflags i (get_socket_inUse hget)
  rw [view_setErrno, view_connect hstr s i addr] at hafter
  exact hfailed (of_decide_eq_true (hafter.connected hconnected))

/-- The notifier takes a failed connection for one. -/
theorem connected_of_truthful (hot : ot.Lawful) (hstr : ot.Streams) (hs : s.WellFormed)
    (hi : (s.socket_table i).inUse = true) {result : OTResult} (htold : s.told i (.connected result) = true)
    (hflags : (s.arrive (s.socket_table i).ep (.connected result)).FlagsTrue) : result = noErr := by
  have hafter := hflags i (((arrive_keeps hot hs.toWired _ _).2.2 i).trans hi)
  rw [view_arrive hstr hs.toWired hi, htold] at hafter
  exact of_decide_eq_true (hafter.connected rfl)

/-- A connection that is broken when it is stored is not one. -/
theorem stores_of_flagsTrue (hs : s.WellFormed) (hflags : s.stores.FlagsTrue) : s.StoresLinked s.underWay := by
  rcases hw : s.underWay with _ | ⟨acc | acc | ⟨i, addr⟩ | i⟩
  · trivial
  · trivial
  · rw [stores, hw] at hflags
    have hafter := hflags acc.newsock (by simpa [acceptReturns] using hs.accepted_inUse hw)
    rw [view_acceptReturns] at hafter
    exact hafter.connected rfl
  · rw [stores, hw] at hflags
    have hafter := hflags i (by simpa [connectReturns] using hs.connected_inUse hw)
    rw [view_connectReturns] at hafter
    exact hafter.connected rfl
  · trivial

theorem keepsFlags_of_flagsTrue (hot : ot.Lawful) (hstr : ot.Streams) (hs : s.WellFormed) (hbefore : s.FlagsTrue)
    (a : SocketInput) (hflags : (s.step a).FlagsTrue) : s.KeepsFlags a := by
  cases a with
  | call c =>
    have hcall : s.underWay.isSome = false → (s.stepCall c).FlagsTrue := by
      intro hidle
      rw [step, hidle] at hflags
      exact hflags
    cases c with
    | bind fd addr => exact fun hidle i hget => bind_of_truthful hstr hget (hcall hidle)
    | listen fd backlog =>
      exact fun hidle i hget => listen_of_truthful hstr hget (hbefore i (get_socket_inUse hget)) (hcall hidle)
    | connect fd addr => exact fun hidle i hget => connect_of_truthful hstr hget (hcall hidle)
    | _ => trivial
  | installs => trivial
  | stores => exact stores_of_flagsTrue hs hflags
  | arrival ep a =>
    cases a with
    | connected result =>
      rintro i hi rfl htold
      exact connected_of_truthful hot hstr hs hi htold hflags
    | _ => trivial

/-- The flags are true throughout exactly those runs whose inputs all keep them so. -/
theorem flagsTrue_iff_keepsFlags (hot : ot.Lawful) (hstr : ot.Streams) (net : ot.State)
    (inputs : List SocketInput) :
    Always step FlagsTrue (start net) inputs ↔ Meets step KeepsFlags (start net) inputs := by
  have hstart : (start net).FlagsTrue := fun i hi => by cases hi
  refine always_iff_meets (I := fun s : SocketState ot => s.WellFormed ∧ s.FlagsTrue) ?_ (fun _ h => h.2) ?_
    ⟨.start net, hstart⟩
  · rintro s a ⟨hs, hflags⟩ hC
    refine ⟨hs.step hot hstr a, fun i hi => ?_⟩
    rcases step_cases s a with hrefused | hcall
    · rw [hrefused] at hi ⊢
      exact hflags i hi
    · exact truthful_turn hs hflags hcall hC ((turns_step hot hstr hs.toWired a).turn i hi)
  · rintro s a ⟨hs, hbefore⟩ hflags
    exact keepsFlags_of_flagsTrue hot hstr hs hbefore a hflags

/-- A server that binds before it listens. -/
theorem flagsTrue_server : Always step FlagsTrue (start Wire.idle : SocketState wire)
    [.call (.socket AF_INET SOCK_STREAM 0), .call (.bind 1000 ⟨80, 0⟩), .call (.listen 1000 5),
      .arrival 1 (.indication ⟨⟨1024, 1⟩, 1⟩), .call (.accept 1000), .installs, .stores] := by
  refine (flagsTrue_iff_keepsFlags wire_lawful wire_streams Wire.idle _).mpr
    ⟨trivial, ?_, ?_, trivial, trivial, trivial, ?_, trivial⟩
  · intro _
    decide +kernel
  · intro _
    decide +kernel
  · change (View.linked _) = true
    decide +kernel

/-- A server that does not bind; its endpoint has no queue. -/
theorem unbound_listener : ¬ Always step FlagsTrue (start Wire.idle : SocketState wire)
    [.call (.socket AF_INET SOCK_STREAM 0), .call (.listen 1000 5)] := by
  intro h
  obtain ⟨qlen, -, hqueue⟩ := (h.last ⟨0, by decide⟩ (by decide +kernel)).listening (by decide +kernel)
  have hnone : ((run step (start Wire.idle : SocketState wire) [.call (.socket AF_INET SOCK_STREAM 0),
      .call (.listen 1000 5)]).view ⟨0, by decide⟩).queue = none := by decide +kernel
  cases hnone.symm.trans hqueue

end Posix9.SocketState
