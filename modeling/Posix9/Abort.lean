import Posix9.Endpoints

/-! What close does to data still on its way. It disconnects with OTSndDisconnect, the abortive release, where
    the flag says that the socket is connected; neither send nor shutdown clears the flag. -/

namespace Posix9

/-- The number of bytes that OTSnd has accepted on an endpoint since its connection was made. -/
def acceptedBy (ep : EndpointRef) : List OTRecord → ℕ
  | [] => 0
  | .call (.OTSnd e _ _) r :: log =>
    if e = ep ∧ 0 ≤ r.result then acceptedBy ep log + r.result.toNat else acceptedBy ep log
  | .call (.OTConnect e _) r :: log => if e = ep ∧ r.result = noErr then 0 else acceptedBy ep log
  | .call (.OTAccept _ e _) r :: log => if e = ep ∧ r.result = noErr then 0 else acceptedBy ep log
  | .call (.OTOpenEndpoint _) r :: log => if r.ref = ep ∧ r.result = noErr then 0 else acceptedBy ep log
  | .call _ _ :: log => acceptedBy ep log
  | .event _ _ _ :: log => acceptedBy ep log

namespace SocketState

open Runs

variable {ot : OpenTransport} {s t : SocketState ot} {i : SockIdx} {a : SocketInput} {c : OTCall} {r : OTReply}
  {l : List OTRecord} {ep : EndpointRef} {P : OTCall → OTReply → Prop}

/-! ### The law -/

/-- The input has the connection of an endpoint released abortively. -/
def Aborts (s : SocketState ot) (a : SocketInput) (ep : EndpointRef) : Prop :=
  ∃ l r, (s.step a).log = l ++ s.log ∧ .call (.OTSndDisconnect ep none) r ∈ l

section Delivered

-- How much of what OTSnd has accepted on an endpoint, since its connection was made, has reached the peer.
variable (delivered : ot.State → EndpointRef → ℕ)

/-- Everything that has been accepted for the socket has been delivered. -/
def AllDelivered (s : SocketState ot) (i : SockIdx) : Prop :=
  acceptedBy (s.socket_table i).ep s.log ≤ delivered s.net (s.socket_table i).ep

instance (s : SocketState ot) (i : SockIdx) : Decidable (s.AllDelivered delivered i) :=
  inferInstanceAs (Decidable (_ ≤ _))

/-- The connection of no stream socket is released abortively while some may be on its way. -/
def KeepsAccepted (s : SocketState ot) (a : SocketInput) : Prop :=
  ∀ i, (s.socket_table i).inUse = true → (s.socket_table i).type = SOCK_STREAM →
    s.Aborts a (s.socket_table i).ep → s.AllDelivered delivered i

/-- close is called for a stream socket whose connected flag is set only when nothing is on its way. -/
def ClosesDelivered (s : SocketState ot) : SocketInput → Prop
  | .call (.close fd) => s.underWay = none → ∀ i ∈ s.get_socket fd, (s.socket_table i).type = SOCK_STREAM →
    (s.socket_table i).connected = true → s.AllDelivered delivered i
  | _ => True

end Delivered

/-! ### Who releases -/

theorem aborts_of_log (hl : (s.step a).log = l ++ s.log) :
    s.Aborts a ep ↔ ∃ r, .call (.OTSndDisconnect ep none) r ∈ l := by
  constructor
  · rintro ⟨l', r, hl', hmem⟩
    obtain rfl := List.append_cancel_right (hl'.symm.trans hl)
    exact ⟨r, hmem⟩
  · rintro ⟨r, hmem⟩
    exact ⟨l, r, hl, hmem⟩

theorem makes_disconnect (ha : ∀ fd, a ≠ .call (.close fd)) (ep : EndpointRef) :
    a.makes (.OTSndDisconnect ep none) = false := by
  rcases a with d | _ | _ | _
  · cases d <;> first
      | rfl
      | exact absurd rfl (ha _)
  all_goals rfl

/-- Only close does. -/
theorem not_aborts (hot : ot.Lawful) (hs : s.Owned) (ha : ∀ fd, a ≠ .call (.close fd)) (ep : EndpointRef) :
    ¬ s.Aborts a ep := by
  obtain ⟨l, hl, hissued⟩ := made_step hot hs a
  rw [aborts_of_log hl]
  rintro ⟨r, hmem⟩
  have hmakes := (hissued _ r hmem).makes
  rw [makes_disconnect ha] at hmakes
  cases hmakes

theorem close_aborts (hs : s.Owned) (hidle : s.underWay = none) {fd : ℤ} (hget : s.get_socket fd = some i)
    (ep : EndpointRef) : s.Aborts (.call (.close fd)) ep ↔
      (s.socket_table i).connected = true ∧ ep = (s.socket_table i).ep := by
  have hvalid := hs.valid i (get_socket_inUse hget)
  by_cases hconnected : (s.socket_table i).connected = true
  · have hlog : (s.step (.call (.close fd))).log =
        [.call (.OTCloseProvider (s.socket_table i).ep)
            ((s.callOT (.OTSndDisconnect (s.socket_table i).ep none)).2.callOT
              (.OTCloseProvider (s.socket_table i).ep)).1,
          .call (.OTSndDisconnect (s.socket_table i).ep none)
            (s.callOT (.OTSndDisconnect (s.socket_table i).ep none)).1] ++ s.log := by
      simp only [step, hidle, stepCall, posix9_close_socket, hget, if_pos hvalid, if_pos hconnected]
      rfl
    rw [aborts_of_log hlog]
    simp [hconnected]
  · have hlog : (s.step (.call (.close fd))).log = [.call (.OTCloseProvider (s.socket_table i).ep)
        (s.callOT (.OTCloseProvider (s.socket_table i).ep)).1] ++ s.log := by
      simp only [step, hidle, stepCall, posix9_close_socket, hget, if_pos hvalid, if_neg hconnected]
      rfl
    rw [aborts_of_log hlog]
    simp [hconnected]

/-- It does so for a socket that it closes and whose flag is set. -/
theorem aborts_iff (hs : s.Owned) (fd : ℤ) (ep : EndpointRef) : s.Aborts (.call (.close fd)) ep ↔
    s.underWay = none ∧ ∃ i ∈ s.get_socket fd, (s.socket_table i).connected = true ∧
      ep = (s.socket_table i).ep := by
  rcases hidle : s.underWay with _ | w
  · rcases hget : s.get_socket fd with _ | i
    · have hlog : (s.step (.call (.close fd))).log = [] ++ s.log := by
        simp only [step, hidle, stepCall, posix9_close_socket, hget]
        rfl
      rw [aborts_of_log hlog]
      simp
    · rw [close_aborts hs hidle hget]
      simp
  · have hlog : (s.step (.call (.close fd))).log = [] ++ s.log := by
      simp only [step, hidle]
      rfl
    rw [aborts_of_log hlog]
    simp

/-! ### Runs -/

theorem keepsAccepted_iff (hot : ot.Lawful) (hs : s.Owned) (delivered : ot.State → EndpointRef → ℕ)
    (a : SocketInput) : s.KeepsAccepted delivered a ↔ s.ClosesDelivered delivered a := by
  by_cases ha : ∃ fd, a = .call (.close fd)
  case neg =>
    refine iff_of_true (fun i _ _ habort => absurd habort (not_aborts hot hs (not_exists.mp ha) _)) ?_
    rcases a with d | _ | _ | _
    · cases d <;> first
        | trivial
        | exact absurd ⟨_, rfl⟩ ha
    all_goals trivial
  case pos =>
    obtain ⟨fd, rfl⟩ := ha
    constructor
    · intro hkeeps hidle i hget htype hconnected
      exact hkeeps i (get_socket_inUse hget) htype ((close_aborts hs hidle hget _).mpr ⟨hconnected, rfl⟩)
    · intro hcloses i hi htype habort
      obtain ⟨hidle, k, hget, hconnected, hep⟩ := (aborts_iff hs fd _).mp habort
      obtain rfl := hs.distinct i k hi (get_socket_inUse hget) hep
      exact hcloses hidle i hget htype hconnected

/-- No accepted data is discarded in exactly the runs that close a stream socket, where its connected flag is
    set, only once everything accepted for it has been delivered. -/
theorem keepsAccepted_iff_closesDelivered (hot : ot.Lawful) (delivered : ot.State → EndpointRef → ℕ)
    (net : ot.State) (inputs : List SocketInput) :
    Meets step (KeepsAccepted delivered) (start net) inputs ↔
      Meets step (ClosesDelivered delivered) (start net) inputs :=
  meets_iff (fun _ a hs _ => hs.step hot a) (fun _ a hs => keepsAccepted_iff hot hs delivered a)
    (Owned.start net)

/-- A client that sends a byte, and closes its end of the connection and then the socket. -/
def sendingClient : List SocketInput :=
  [.call (.socket AF_INET SOCK_STREAM 0), .call (.bind 1000 ⟨0, 0⟩), .call (.connect 1000 ⟨80, 1⟩),
    .stores, .call (.send 1000 [65] 0), .call (.shutdown 1000 SHUT_WR), .call (.close 1000)]

/-- By the time it closes the socket the peer has it all. -/
theorem keepsAccepted_sendingClient :
    Meets step (KeepsAccepted fun _ _ => 1) (start Wire.idle : SocketState wire) sendingClient := by
  refine (keepsAccepted_iff_closesDelivered wire_lawful _ Wire.idle _).mpr
    ⟨trivial, trivial, trivial, trivial, trivial, trivial, ?_, trivial⟩
  intro _
  decide +kernel

/-- The peer has nothing yet. -/
theorem discarded_sendingClient :
    ¬ Meets step (KeepsAccepted fun _ _ => 0) (start Wire.idle : SocketState wire) sendingClient := by
  rintro ⟨-, -, -, -, -, -, hkeeps, -⟩
  have hs : (run step (start Wire.idle : SocketState wire) sendingClient.dropLast).Owned :=
    (always_of_step (fun _ a hs => hs.step wire_lawful a) (Owned.start Wire.idle) _).last
  have hlost := hkeeps ⟨0, by decide⟩ (by decide +kernel) (by decide +kernel)
    ((close_aborts hs (by decide +kernel) (by decide +kernel) _).mpr ⟨by decide +kernel, rfl⟩)
  exact absurd hlost (by decide +kernel)

end SocketState

end Posix9
