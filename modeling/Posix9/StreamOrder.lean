import Posix9.Lib.Conserve
import Posix9.Readiness

/-! The bytes of a stream socket. What recv and recvfrom return on a descriptor since it was opened, and what Open
    Transport still holds for it, are the bytes that have arrived for its endpoint, in their order. Nothing but a
    receipt on the descriptor itself takes any, and no byte is left over from what had the slot before. Expedited
    data is no part of the stream: a receipt made while some is waiting returns that, and takes no byte. -/

namespace Posix9.SocketState

open Runs Conserve

variable {ot : OpenTransport} {s : SocketState ot} {i : SockIdx} {a : SocketInput} {v : View}

/-- A slot in use whose data is a stream. -/
def streams (s : SocketState ot) (i : SockIdx) : Bool :=
  (s.socket_table i).inUse && (s.socket_table i).type ≠ SOCK_DGRAM

/-- The bytes a call returns to its caller. -/
def returnedBytes (s : SocketState ot) : SocketCall → List UInt8
  | .recv fd len => (s.recv fd len).elim [] fun r => r.1.2
  | .recvfrom fd len => (s.recvfrom fd len).elim [] fun r => r.1.2.1
  | _ => []

/-- The descriptor a call receives on. -/
def receives : SocketCall → Option ℤ
  | .recv fd _ | .recvfrom fd _ => some fd
  | _ => none

/-- The bytes of the stream in a slot: what has arrived and not been received, what arrives for its endpoint, and
    what is returned on its descriptor where no expedited data is ahead of it. A disconnect may drop some. -/
def bytesOf (i : SockIdx) : Flow (SocketState ot) SocketInput UInt8 where
  holds s := if s.streams i then (s.view i).stream.unread else []
  enters s a :=
    match a with
    | .arrival ep (.data byte bytes) => if (s.socket_table i).ep = ep then byte :: bytes else []
    | _ => []
  leaves s a :=
    match a with
    | .call c =>
      if s.underWay = none ∧ (receives c).bind s.get_socket = some i ∧ (s.view i).stream.expedited = [] then
        s.returnedBytes c
      else []
    | _ => []
  loses s a :=
    match a with
    | .arrival ep .disconnect => (s.socket_table i).ep = ep
    | _ => false
  clears s a := !(s.step a).streams i

/-! ### What a receipt returns -/

/-- What OTRcv has returned, if it has. -/
def receivedBytes (s : SocketState ot) (i : SockIdx) (len : ℕ) : List UInt8 :=
  if ot.waits (.OTRcv (s.socket_table i).ep len) s.net = false ∧ 0 ≤ (s.rcvReply i len).result then
    (s.rcvReply i len).bytes
  else []

theorem recv_bytes {fd : ℤ} (len : ℕ) (hget : s.get_socket fd = some i) :
    ((s.recv fd len).elim [] fun r => r.1.2) = s.receivedBytes i len := by
  rw [recv, hget, receivedBytes, rcvReply]
  dsimp only
  rcases hwaits : ot.waits (.OTRcv (s.socket_table i).ep len) s.net with _ | _
  case true => rfl
  rw [if_neg Bool.false_ne_true]
  by_cases hgot : 0 ≤ (s.callOT (.OTRcv (s.socket_table i).ep len)).1.result
  case pos =>
    rw [if_neg (Int.not_lt.mpr hgot), if_pos ⟨rfl, hgot⟩]
    rfl
  case neg =>
    rw [if_neg fun h : _ ∧ _ => hgot h.2, if_pos (Int.not_le.mp hgot)]
    split
    · split <;> rfl
    · rfl

/-- recvfrom on a stream is recv. -/
theorem recvfrom_bytes {fd : ℤ} (len : ℕ) (hget : s.get_socket fd = some i)
    (htype : (s.socket_table i).type ≠ SOCK_DGRAM) :
    ((s.recvfrom fd len).elim [] fun r => r.1.2.1) = s.receivedBytes i len := by
  rw [← recv_bytes len hget, recvfrom, hget]
  dsimp only
  rw [if_pos htype]
  rcases s.recv fd len with _ | r <;> rfl

theorem returned_of_receipt {c : SocketCall} {len : ℕ} (h : s.receipt c = some (i, len)) :
    s.returnedBytes c = s.receivedBytes i len := by
  cases c with
  | recv fd n =>
    obtain ⟨k, hget, heq⟩ := Option.map_eq_some_iff.mp h
    obtain ⟨rfl, rfl⟩ := Prod.mk.inj heq
    exact recv_bytes n hget
  | recvfrom fd n =>
    rcases hget : s.get_socket fd with _ | k <;> rw [receipt, hget] at h
    · cases h
    · dsimp only at h
      split at h
      case isTrue htype =>
        obtain ⟨rfl, rfl⟩ := Prod.mk.inj (Option.some.inj h)
        exact recvfrom_bytes n hget htype
      case isFalse => cases h
  | _ => cases h

theorem receipt_of_receives {c : SocketCall} (htype : (s.socket_table i).type ≠ SOCK_DGRAM)
    (h : (receives c).bind s.get_socket = some i) : ∃ len, s.receipt c = some (i, len) := by
  cases c with
  | recv fd n =>
    have hget : s.get_socket fd = some i := h
    exact ⟨n, by rw [receipt, hget]; rfl⟩
  | recvfrom fd n =>
    have hget : s.get_socket fd = some i := h
    exact ⟨n, by rw [receipt, hget]; exact if_pos htype⟩
  | _ => cases h

theorem receives_inUse {c : SocketCall} (h : (receives c).bind s.get_socket = some i) :
    (s.socket_table i).inUse = true := by
  obtain ⟨fd, -, hget⟩ := Option.bind_eq_some_iff.mp h
  exact get_socket_inUse hget

/-! ### One step -/

theorem streams_iff : s.streams i = true ↔ (s.socket_table i).inUse = true ∧ (s.view i).type ≠ SOCK_DGRAM := by
  rw [streams, Bool.and_eq_true, decide_eq_true_eq]
  rfl

theorem holds_streams (h : s.streams i = true) : (bytesOf i).holds s = (s.view i).stream.unread := if_pos h

theorem holds_free (h : (s.socket_table i).inUse = false) : (bytesOf i).holds s = [] := by
  refine if_neg fun hs => ?_
  rw [(streams_iff.mp hs).1] at h
  cases h

/-- No turn but that of a receipt and that of an arrival takes bytes of a stream or adds any; a slot just filled has
    none. -/
theorem turn_unread (hstr : ot.Streams) (hs : s.WellFormed) (h : Turn s a i v) (htype : v.type ≠ SOCK_DGRAM)
    (harrival : ∀ e x, a ≠ .arrival e x)
    (hreceipt : ∀ c len, a = .call c → s.receipt c = some (i, len) → (s.view i).stream.expedited = [] →
      s.receivedBytes i len = []) :
    s.streams i = true ∧ v.stream.unread = (s.view i).stream.unread ∨
      (s.socket_table i).inUse = false ∧ v.stream.unread = [] := by
  cases h with
  | same hi => exact .inl ⟨streams_iff.mpr ⟨hi, htype⟩, rfl⟩
  | opened hfree | accepted hfree => exact .inr ⟨hfree, rfl⟩
  | installed notified hacc => exact .inl ⟨streams_iff.mpr ⟨hs.accepting_inUse hacc, htype⟩, rfl⟩
  | @acceptStored acc hw hi =>
    refine .inl ⟨streams_iff.mpr ⟨hi, ?_⟩, rfl⟩
    rw [(hs.filled acc hw).1]
    exact (by decide : (0 : ℤ) ≠ SOCK_DGRAM)
  | connectStored _ hi | recvStored _ hi => exact .inl ⟨streams_iff.mpr ⟨hi, htype⟩, rfl⟩
  | bound hget | bindFailed hget | listening hget | rebound _ hget | rebindFailed hget | connected hget
  | connectFailed hget => exact .inl ⟨streams_iff.mpr ⟨get_socket_inUse hget, htype⟩, rfl⟩
  | received hr hwaits hgot =>
    refine .inl ⟨streams_iff.mpr ⟨receipt_inUse hr, htype⟩, ?_⟩
    by_cases hexpedited : (s.view i).stream.expedited = []
    · have hnone := hreceipt _ _ rfl hr hexpedited
      rw [receivedBytes, if_pos ⟨hwaits, hgot⟩] at hnone
      have hrest := rcvStream_unread hstr s i hexpedited hgot
      rw [hnone] at hrest
      exact hrest.symm
    · exact (hstr.rcv_expedited _ _ _ hexpedited hgot).2
  | receivedNone hr hnone =>
    exact .inl ⟨streams_iff.mpr ⟨receipt_inUse hr, htype⟩, (hstr.rcv_none _ _ _ hnone).1⟩
  | receivedUnit stream hget hdgram => exact absurd hdgram htype
  | arrived => exact absurd rfl (harrival _ _)

/-- A receipt takes from the front what it returns. -/
theorem holds_receipt (hstr : ot.Streams) {c : SocketCall} {len : ℕ} (hidle : s.underWay = none)
    (hr : s.receipt c = some (i, len)) (hexpedited : (s.view i).stream.expedited = [])
    (hsome : s.receivedBytes i len ≠ [])
    (hstreams : (s.step (.call c)).streams i = true) :
    (bytesOf i).holds s = s.receivedBytes i len ++ (bytesOf i).holds (s.step (.call c)) := by
  have hgot : ot.waits (.OTRcv (s.socket_table i).ep len) s.net = false ∧ 0 ≤ (s.rcvReply i len).result := by
    by_contra h
    exact hsome (if_neg h)
  have hview : (s.step (.call c)).view i = { s.view i with stream := s.rcvStream i len } := by
    rw [step_receipt hidle hr hgot.1 hgot.2]
    exact view_callOT_silent hstr s i (c := .OTRcv (s.socket_table i).ep len) rfl
  have hbefore : s.streams i = true := by
    refine streams_iff.mpr ⟨receipt_inUse hr, ?_⟩
    have htype := (streams_iff.mp hstreams).2
    rwa [hview] at htype
  rw [holds_streams hbefore, holds_streams hstreams, hview, receivedBytes, if_pos hgot]
  exact rcvStream_unread hstr s i hexpedited hgot.2

theorem leaves_call (c : SocketCall) : (bytesOf i).leaves s (.call c) =
    if s.underWay = none ∧ (receives c).bind s.get_socket = some i ∧ (s.view i).stream.expedited = [] then
      s.returnedBytes c
    else [] := rfl

theorem leaves_receipt {c : SocketCall} {len : ℕ} (hidle : s.underWay = none) (hr : s.receipt c = some (i, len))
    (hexpedited : (s.view i).stream.expedited = []) :
    (bytesOf i).leaves s (.call c) = s.receivedBytes i len := by
  have hreceives : (receives c).bind s.get_socket = some i := by
    cases c with
    | recv fd n =>
      obtain ⟨k, hget, heq⟩ := Option.map_eq_some_iff.mp hr
      exact hget.trans (congrArg some (Prod.mk.inj heq).1)
    | recvfrom fd n =>
      rcases hget : s.get_socket fd with _ | k <;> rw [receipt, hget] at hr
      · cases hr
      · dsimp only at hr
        split at hr
        · exact hget.trans (congrArg some (Prod.mk.inj (Option.some.inj hr)).1)
        · cases hr
    | _ => cases hr
  rw [leaves_call, if_pos ⟨hidle, hreceives, hexpedited⟩, returned_of_receipt hr]

/-- A call: what it returns is what is held no longer. -/
theorem holds_call (hot : ot.Lawful) (hstr : ot.Streams) (hs : s.WellFormed) (c : SocketCall)
    (hstreams : (s.step (.call c)).streams i = true) : (bytesOf i).holds s =
      (bytesOf i).leaves s (.call c) ++ (bytesOf i).holds (s.step (.call c)) := by
  by_cases hidle : s.underWay = none
  case neg =>
    have hrefused : s.step (.call c) = s := if_pos (Option.isSome_iff_ne_none.mpr hidle)
    rw [hrefused, leaves_call, if_neg fun h => hidle h.1]
    rfl
  by_cases hsome : ∃ len, s.receipt c = some (i, len) ∧ (s.view i).stream.expedited = [] ∧
      s.receivedBytes i len ≠ []
  · obtain ⟨len, hr, hexpedited, hsome⟩ := hsome
    rw [leaves_receipt hidle hr hexpedited]
    exact holds_receipt hstr hidle hr hexpedited hsome hstreams
  have hnone : ∀ len, s.receipt c = some (i, len) → (s.view i).stream.expedited = [] →
      s.receivedBytes i len = [] := by
    intro len hr hexpedited
    by_contra h
    exact hsome ⟨len, hr, hexpedited, h⟩
  obtain ⟨hi, htype⟩ := streams_iff.mp hstreams
  rcases turn_unread hstr hs ((turns_step hot hstr hs.toWired (.call c)).turn i hi) htype (by simp)
    (fun c' len heq => SocketInput.call.inj heq ▸ hnone len) with ⟨hbefore, hunread⟩ | ⟨hfree, hunread⟩
  · have hleaves : (bytesOf i).leaves s (.call c) = [] := by
      by_cases hreceives : (receives c).bind s.get_socket = some i ∧ (s.view i).stream.expedited = []
      · obtain ⟨len, hr⟩ := receipt_of_receives (streams_iff.mp hbefore).2 hreceives.1
        exact (leaves_receipt hidle hr hreceives.2).trans (hnone len hr hreceives.2)
      · exact if_neg fun h => hreceives h.2
    rw [hleaves, holds_streams hbefore, holds_streams hstreams, hunread]
    rfl
  · have hleaves : (bytesOf i).leaves s (.call c) = [] := by
      refine if_neg fun h => ?_
      rw [receives_inUse h.2.1] at hfree
      cases hfree
    rw [hleaves, holds_free hfree, holds_streams hstreams, hunread]
    rfl

/-- Data for the endpoint goes behind what is unread, and only a disconnect drops any of that. -/
theorem unread_arrived (hstr : ot.Streams) (hs : s.WellFormed) (hi : (s.socket_table i).inUse = true) (x : Arrival) :
    (s.arrivedStream i x).unread.Sublist
        ((s.view i).stream.unread ++ (bytesOf i).enters s (.arrival (s.socket_table i).ep x)) ∧
      ((bytesOf i).loses s (.arrival (s.socket_table i).ep x) = false → (s.arrivedStream i x).unread =
        (s.view i).stream.unread ++ (bytesOf i).enters s (.arrival (s.socket_table i).ep x)) := by
  have hsame : ∀ l : List UInt8, l = [] → (s.arrivedStream i x).unread = (s.view i).stream.unread →
      (s.arrivedStream i x).unread = (s.view i).stream.unread ++ l := by
    rintro l rfl h
    rw [h, List.append_nil]
  cases x with
  | data byte bytes =>
    have hadded : (s.arrivedStream i (.data byte bytes)).unread = (s.view i).stream.unread ++
        (bytesOf i).enters s (.arrival (s.socket_table i).ep (.data byte bytes)) := by
      have henters : (bytesOf i).enters s (.arrival (s.socket_table i).ep (.data byte bytes)) = byte :: bytes :=
        if_pos rfl
      rw [arrivedStream_data hstr hs hi, henters]
    exact ⟨hadded ▸ List.Sublist.refl _, fun _ => hadded⟩
  | disconnect =>
    have hsuffix := (hstr.arrive_disconnect _ s.net (hs.valid i hi).2).2.1
    refine ⟨hsuffix.sublist.trans (List.sublist_append_left _ _), fun hkept => ?_⟩
    exact absurd rfl (of_decide_eq_false hkept)
  | expedited byte bytes =>
    have hkept := hsame [] rfl
      (by rw [arrivedStream, hstr.arrive_expedited _ byte bytes s.net (hs.valid i hi).2]; rfl)
    exact ⟨hkept ▸ List.Sublist.refl _, fun _ => hkept⟩
  | orderlyRelease =>
    have hkept := hsame [] rfl (by rw [arrivedStream, hstr.arrive_release _ s.net (hs.valid i hi).2]; rfl)
    exact ⟨hkept ▸ List.Sublist.refl _, fun _ => hkept⟩
  | _ =>
    have hkept := hsame [] rfl (congrArg Stream.unread (hstr.arrive_other _ _ s.net rfl))
    exact ⟨hkept ▸ List.Sublist.refl _, fun _ => hkept⟩

theorem holds_arrival (hot : ot.Lawful) (hstr : ot.Streams) (hs : s.WellFormed) (ep : EndpointRef) (x : Arrival)
    (hstreams : (s.arrive ep x).streams i = true) :
    ((bytesOf i).holds (s.arrive ep x)).Sublist ((bytesOf i).holds s ++ (bytesOf i).enters s (.arrival ep x)) ∧
      ((bytesOf i).loses s (.arrival ep x) = false →
        (bytesOf i).holds (s.arrive ep x) = (bytesOf i).holds s ++ (bytesOf i).enters s (.arrival ep x)) := by
  obtain ⟨-, -, hinUse⟩ := arrive_keeps hot hs.toWired ep x
  obtain ⟨hafter, htype⟩ := streams_iff.mp hstreams
  have hi : (s.socket_table i).inUse = true := (hinUse i).symm.trans hafter
  rw [holds_streams hstreams]
  by_cases hep : (s.socket_table i).ep = ep
  case neg =>
    have hview := view_arrive_of_ne hot hs.toWired x hi hep
    have hbefore : s.streams i = true := streams_iff.mpr ⟨hi, hview ▸ htype⟩
    have henters : (bytesOf i).enters s (.arrival ep x) = [] := by
      cases x <;> simp [bytesOf, hep]
    rw [henters, List.append_nil, holds_streams hbefore, hview]
    exact ⟨List.Sublist.refl _, fun _ => rfl⟩
  case pos =>
    subst hep
    have hview := view_arrive hstr hs.toWired hi x
    have hbefore : s.streams i = true := streams_iff.mpr ⟨hi, by rwa [hview, View.arrived_type] at htype⟩
    rw [holds_streams hbefore, hview, View.arrived_stream]
    exact unread_arrived hstr hs hi x

/-- Where the slot holds a stream behind the next part of a call, it holds what it did. -/
theorem holds_rest (hot : ot.Lawful) (hstr : ot.Streams) (hs : s.WellFormed) (hcall : ∀ c, a ≠ .call c)
    (harrival : ∀ e x, a ≠ .arrival e x) (hstreams : (s.step a).streams i = true) :
    (bytesOf i).holds (s.step a) = (bytesOf i).holds s := by
  obtain ⟨hi, htype⟩ := streams_iff.mp hstreams
  rw [holds_streams hstreams]
  rcases turn_unread hstr hs ((turns_step hot hstr hs.toWired a).turn i hi) htype harrival
    (fun c _ h => absurd h (hcall c)) with ⟨hbefore, hunread⟩ | ⟨hfree, hunread⟩
  · rw [holds_streams hbefore, hunread]
  · rw [holds_free hfree, hunread]

/-! ### Every run -/

theorem bytesOf_conserves (hot : ot.Lawful) (hstr : ot.Streams) (i : SockIdx) :
    (bytesOf i).Conserves (@step ot) WellFormed where
  keeps s a hs hclears hloses := by
    have hstreams : (s.step a).streams i = true := (Bool.not_eq_false' _).mp hclears
    cases a with
    | call c => exact (List.append_nil _).trans (holds_call hot hstr hs c hstreams)
    | installs => exact (List.append_nil _).trans (holds_rest hot hstr hs (by simp) (by simp) hstreams).symm
    | stores => exact (List.append_nil _).trans (holds_rest hot hstr hs (by simp) (by simp) hstreams).symm
    | arrival ep x => exact ((holds_arrival hot hstr hs ep x hstreams).2 hloses).symm
  loses s a hs hclears hloses := by
    have hstreams : (s.step a).streams i = true := (Bool.not_eq_false' _).mp hclears
    cases a with
    | arrival ep x => exact (holds_arrival hot hstr hs ep x hstreams).1
    | _ => cases hloses
  clears s a _ hclears := if_neg (by rw [(Bool.not_eq_true' _).mp hclears]; exact Bool.false_ne_true)

/-- The books of a slot behind a run: what has arrived for its endpoint and what has been received on its descriptor
    since the slot was filled, expedited data left aside. -/
def books (net : ot.State) (inputs : List SocketInput) (i : SockIdx) : Books UInt8 :=
  (run ((bytesOf i).audited step) (start net, .empty) inputs).2

/-- In every run, what has been received on a stream socket and what is still unread are of the bytes that have
    arrived for it and in their order, and they are all of them unless a disconnect has arrived. -/
theorem streams_in_order (hot : ot.Lawful) (hstr : ot.Streams) (net : ot.State) (inputs : List SocketInput)
    (i : SockIdx) (hstreams : (run step (start net) inputs).streams i = true) :
    ((books net inputs i).left ++ ((run step (start net) inputs).view i).stream.unread).Sublist
        (books net inputs i).entered ∧
      ((books net inputs i).lost = false → (books net inputs i).entered =
        (books net inputs i).left ++ ((run step (start net) inputs).view i).stream.unread) := by
  have hbalanced := (bytesOf_conserves hot hstr i).balanced (fun s a hs => hs.step hot hstr a) (.start net)
    (holds_free rfl) inputs
  have hholds := holds_streams hstreams
  rw [← (bytesOf i).run_audited step (start net, .empty) inputs] at hholds ⊢
  exact ⟨hholds ▸ hbalanced.sublist, fun hlost => hholds ▸ hbalanced.whole hlost⟩

/-- A client that closes its first connection with a byte unread and receives on a second one, which has the slot of
    the first. Its first receipt returns the expedited byte. -/
def secondClient : List SocketInput := [
  .call (.socket AF_INET SOCK_STREAM 0), .call (.bind 1000 ⟨0, 0⟩), .call (.connect 1000 ⟨80, 1⟩), .stores,
  .arrival 1 (.data 7 []), .call (.close 1000), .call (.socket AF_INET SOCK_STREAM 0),
  .call (.bind 1000 ⟨0, 0⟩), .call (.connect 1000 ⟨80, 1⟩), .stores, .arrival 2 (.data 1 [2, 3]),
  .arrival 2 (.expedited 9 []), .call (.recv 1000 2), .stores, .call (.recv 1000 2), .stores]

theorem second_client_in_order : (@books wire Wire.idle secondClient ⟨0, by decide⟩).left = [1, 2] ∧
    (@books wire Wire.idle secondClient ⟨0, by decide⟩).entered =
      (@books wire Wire.idle secondClient ⟨0, by decide⟩).left ++
        ((run step (start Wire.idle : SocketState wire) secondClient).view ⟨0, by decide⟩).stream.unread :=
  ⟨by decide +kernel, (streams_in_order wire_lawful wire_streams Wire.idle secondClient ⟨0, by decide⟩
    (by decide +kernel)).2 (by decide +kernel)⟩

end Posix9.SocketState
