import Posix9.Readiness

/-! The end of a stream. Once the peer has released the connection and all data has been received, OTRcv
    returns kOTLookErr for as long as nobody consumes the event, and nobody does: `ot_error_to_errno` makes it
    EAGAIN, next to kOTNoDataErr, which recv takes for the end of the stream. -/

namespace Posix9

/-- The notifier of an endpoint has been called with T_ORDREL since the endpoint was opened. -/
def releasedIn (ep : EndpointRef) : List OTRecord → Bool
  | [] => false
  | .call (.OTOpenEndpoint _) r :: log => if r.ref = ep ∧ r.result = noErr then false else releasedIn ep log
  | .call _ _ :: log => releasedIn ep log
  | .event e code _ :: log => e = ep ∧ code = .T_ORDREL ∨ releasedIn ep log

namespace SocketState

open Runs

variable {ot : OpenTransport} {s : SocketState ot} {i : SockIdx}

/-- The peer of a stream socket has released the connection, the notifier has been told, and all data has
    been received. -/
structure AtEnd (s : SocketState ot) (i : SockIdx) : Prop where
  inUse : (s.socket_table i).inUse = true
  stream : (s.socket_table i).type = SOCK_STREAM
  told : releasedIn (s.socket_table i).ep s.log = true
  released : (s.view i).stream.released = true
  received : (s.view i).stream.unread = [] ∧ (s.view i).stream.expedited = []

/-- recv returns 0, and from then on every select that asks for the socket reports it, for as long as it is
    not closed. -/
def EndDelivered (s : SocketState ot) (i : SockIdx) : Prop :=
  ∀ len, ∃ bytes t, s.recv (sockFd i) len = some ((0, bytes), t) ∧
    ∀ later, SocketInput.call (.close (sockFd i)) ∉ later → ∀ args now, isSet (sockFd i) args.readfds = true →
      sockFd i < args.nfds → ∃ res, ((run step t later).select args now).1 = some res ∧
        res.readResult (sockFd i) = true

theorem wellFormed_run (hot : ot.Lawful) (hstr : ot.Streams) (net : ot.State) (inputs : List SocketInput) :
    (run step (start net) inputs).WellFormed :=
  (always_of_step (fun _ a hs => hs.step hot hstr a) (.start net) inputs).last

/-- OTRcv answers kOTLookErr, and recv fails with what that is mapped to. -/
theorem recv_atEnd (hstr : ot.Streams) (hs : s.Wired) (h : AtEnd s i) (len : ℕ) :
    ∃ t, s.recv (sockFd i) len = some ((-1, []), t) ∧ t.posix9_errno = EAGAIN := by
  obtain ⟨hunread, hexpedited⟩ := h.received
  obtain ⟨hwaits, hlook⟩ := hstr.rcv_released _ len s.net (hs.valid i h.inUse).2 h.released hunread hexpedited
  have hreply : (s.callOT (.OTRcv (s.socket_table i).ep len)).1.result = kOTLookErr := hlook
  refine ⟨(s.callOT (.OTRcv (s.socket_table i).ep len)).2.setErrno (ot_error_to_errno kOTLookErr), ?_, ?_⟩
  · simp only [recv, get_socket_sockFd h.inUse, hwaits, hreply]
    rfl
  · show ot_error_to_errno kOTLookErr = EAGAIN
    decide

/-- In no run is the end of a stream delivered: recv fails with EAGAIN. -/
theorem end_not_delivered (hot : ot.Lawful) (hstr : ot.Streams) (net : ot.State) (inputs : List SocketInput)
    (i : SockIdx) (h : AtEnd (run step (start net) inputs) i) : ¬ EndDelivered (run step (start net) inputs) i ∧
      ∀ len, ∃ t, (run step (start net) inputs).recv (sockFd i) len = some ((-1, []), t) ∧
        t.posix9_errno = EAGAIN := by
  have hfails := recv_atEnd hstr (wellFormed_run hot hstr net inputs).toWired h
  refine ⟨fun hdelivered => ?_, hfails⟩
  obtain ⟨bytes, t, hzero, -⟩ := hdelivered 1
  obtain ⟨u, hagain, -⟩ := hfails 1
  cases hzero.symm.trans hagain

/-- A client whose peer sends a byte and releases the connection. -/
def releasedClient : List SocketInput := [
  .call (.socket AF_INET SOCK_STREAM 0), .call (.bind 1000 ⟨0, 0⟩), .call (.connect 1000 ⟨80, 1⟩), .stores,
  .arrival 1 (.data 1 []), .arrival 1 .orderlyRelease, .call (.recv 1000 16), .stores]

theorem atEnd_releasedClient :
    AtEnd (run step (start Wire.idle : SocketState wire) releasedClient) ⟨0, by decide⟩ :=
  ⟨by decide +kernel, by decide +kernel, by decide +kernel, by decide +kernel, by decide +kernel⟩

theorem end_not_delivered_client :
    ¬ EndDelivered (run step (start Wire.idle : SocketState wire) releasedClient) ⟨0, by decide⟩ :=
  (end_not_delivered wire_lawful wire_streams Wire.idle releasedClient _ atEnd_releasedClient).1

/-- Its next recv fails, where the end of the stream is 0. -/
theorem released_client_fails : ¬ ∀ inputs i, AtEnd (run step (start Wire.idle : SocketState wire) inputs) i →
    EndDelivered (run step (start Wire.idle : SocketState wire) inputs) i := by
  intro h
  obtain ⟨bytes, t, hzero, -⟩ := h releasedClient ⟨0, by decide⟩ atEnd_releasedClient 16
  have hresult : ((run step (start Wire.idle : SocketState wire) releasedClient).recv
      (sockFd ⟨0, by decide⟩) 16).map (fun r => r.1.1) = some (-1) := by decide +kernel
  rw [hzero] at hresult
  exact absurd (Option.some.inj hresult) (show (0 : ℤ) ≠ -1 by decide)

end SocketState

end Posix9
