import Posix9.SocketTurns
import Posix9.Wire
import Posix9.Lib.Runs

/-! Read readiness: what select reports, next to what there is to read. `readable` is set by the notifier,
    which Open Transport does not call again for data that follows data, and recv takes it back even where it
    leaves something unread or something has come since it received; `listening` counts as readable whether
    a connection is waiting or not. -/

namespace Posix9.SocketState

open Runs

variable {ot : OpenTransport} {s : SocketState ot} {i j : SockIdx}

/-! ### What select reports -/

/-- The first test of select. -/
structure Reads (s : SocketState ot) (args : SelectArgs) (i : SockIdx) : Prop where
  inUse : (s.socket_table i).inUse = true
  asked : isSet (sockFd i) args.readfds = true
  ready : (s.socket_table i).readable = true ∨ (s.socket_table i).listening = true

theorem selectFd_table (args : SelectArgs) (acc : Selected × SocketState ot) (i : SockIdx) :
    (selectFd args acc i).2.socket_table = acc.2.socket_table := by
  rw [selectFd]
  dsimp only
  split <;> rfl

theorem reads_selectFd (args : SelectArgs) (acc : Selected × SocketState ot) (i j : SockIdx) :
    (selectFd args acc i).2.Reads args j ↔ acc.2.Reads args j := by
  have htable := selectFd_table args acc i
  constructor <;> rintro ⟨hin, hasked, hready⟩
  · exact ⟨htable ▸ hin, hasked, htable ▸ hready⟩
  · exact ⟨htable.symm ▸ hin, hasked, htable.symm ▸ hready⟩

/-- The read test is the only one that sets a bit of the first set. -/
theorem selectTests_readResult (args : SelectArgs) (i : SockIdx) (sock : SocketEntry) (res : Selected) :
    (selectTests args i sock res).readResult =
      if isSet (sockFd i) args.readfds = true ∧ (sock.readable = true ∨ sock.listening = true) then
        Function.update res.readResult (sockFd i) true
      else res.readResult := by
  rw [selectTests]
  split_ifs <;> rfl

/-- Every test that sets a bit counts. -/
theorem selectTests_count (args : SelectArgs) (i : SockIdx) (sock : SocketEntry) (res : Selected) :
    res.count ≤ (selectTests args i sock res).count ∧
      (isSet (sockFd i) args.readfds = true ∧ (sock.readable = true ∨ sock.listening = true) →
        0 < (selectTests args i sock res).count) := by
  rw [selectTests]
  split_ifs <;> simp_all <;> omega

theorem selectFd_readResult (args : SelectArgs) (acc : Selected × SocketState ot) (i j : SockIdx) :
    (selectFd args acc i).1.readResult (sockFd j) = true ↔
      acc.1.readResult (sockFd j) = true ∨ i = j ∧ acc.2.Reads args j := by
  obtain ⟨res, s⟩ := acc
  rw [selectFd]
  dsimp only
  split
  case isTrue hfree =>
    constructor
    · exact .inl
    · rintro (h | ⟨rfl, hreads⟩)
      · exact h
      · exact absurd hreads.inUse hfree
  case isFalse hin =>
    have hreads : s.Reads args i ↔ isSet (sockFd i) args.readfds = true ∧
        ((s.socket_table i).readable = true ∨ (s.socket_table i).listening = true) :=
      ⟨fun h => ⟨h.asked, h.ready⟩, fun h => ⟨not_not.mp hin, h.1, h.2⟩⟩
    rw [callOT_table, selectTests_readResult]
    rcases eq_or_ne i j with rfl | hne
    · by_cases h : s.Reads args i
      · rw [if_pos (hreads.mp h)]
        simp [h]
      · rw [if_neg (mt hreads.mpr h)]
        simp [h]
    · have hfd : sockFd j ≠ sockFd i := fun h => hne (sockFd_injective h).symm
      split <;> simp [Function.update_of_ne hfd, hne]

theorem foldl_selectFd_readResult (args : SelectArgs) (is : List SockIdx) (acc : Selected × SocketState ot)
    (j : SockIdx) : (is.foldl (selectFd args) acc).1.readResult (sockFd j) = true ↔
      acc.1.readResult (sockFd j) = true ∨ j ∈ is ∧ acc.2.Reads args j := by
  induction is generalizing acc with
  | nil => simp
  | cons i is ih =>
    rw [List.foldl_cons, ih, selectFd_readResult, reads_selectFd, List.mem_cons]
    grind

theorem selectFd_count (args : SelectArgs) (acc : Selected × SocketState ot) (i : SockIdx) :
    acc.1.count ≤ (selectFd args acc i).1.count ∧ (acc.2.Reads args i → 0 < (selectFd args acc i).1.count) := by
  obtain ⟨res, s⟩ := acc
  obtain ⟨hmono, hcounts⟩ := selectTests_count args i (s.socket_table i) res
  rw [selectFd]
  dsimp only
  split
  case isTrue hfree => exact ⟨Nat.le_refl _, fun hreads => absurd hreads.inUse hfree⟩
  case isFalse => exact ⟨hmono, fun hreads => hcounts ⟨hreads.asked, hreads.ready⟩⟩

theorem foldl_selectFd_count (args : SelectArgs) (is : List SockIdx) (acc : Selected × SocketState ot) :
    acc.1.count ≤ (is.foldl (selectFd args) acc).1.count ∧
      ∀ j ∈ is, acc.2.Reads args j → 0 < (is.foldl (selectFd args) acc).1.count := by
  induction is generalizing acc with
  | nil => simp
  | cons i is ih =>
    obtain ⟨hmono, hcounts⟩ := ih (selectFd args acc i)
    obtain ⟨hmonoFd, hcountsFd⟩ := selectFd_count args acc i
    refine ⟨Nat.le_trans hmonoFd hmono, fun j hj hreads => ?_⟩
    rcases List.mem_cons.mp hj with rfl | hj
    · exact Nat.lt_of_lt_of_le (hcountsFd hreads) hmono
    · exact hcounts j hj ((reads_selectFd args acc i j).mpr hreads)

theorem mem_scanned (args : SelectArgs) (i : SockIdx) :
    i ∈ (List.finRange MAX_SOCKETS).filter (fun i => sockFd i < args.nfds) ↔ sockFd i < args.nfds := by
  rw [List.mem_filter, decide_eq_true_iff]
  exact and_iff_right (List.mem_finRange i)

theorem selectScan_readResult (args : SelectArgs) (s : SocketState ot) (i : SockIdx) :
    (s.selectScan args).1.readResult (sockFd i) = true ↔ sockFd i < args.nfds ∧ s.Reads args i := by
  rw [selectScan, foldl_selectFd_readResult, mem_scanned]
  exact or_iff_right (by simp [Selected.zero])

/-- A descriptor is reported readable exactly if its socket is ready to read. -/
theorem select_reports_iff (args : SelectArgs) (now : BitVec 32) (s : SocketState ot) (i : SockIdx) :
    (∃ res, (s.select args now).1 = some res ∧ res.readResult (sockFd i) = true) ↔
      sockFd i < args.nfds ∧ s.Reads args i := by
  have hresult : ∀ res, (s.select args now).1 = some res → res = (s.selectScan args).1 := by
    intro res hres
    rw [select] at hres
    dsimp only at hres
    split at hres
    · exact (Option.some.inj hres).symm
    · cases hres
  constructor
  · rintro ⟨res, hres, hfd⟩
    obtain rfl := hresult res hres
    exact (selectScan_readResult args s i).mp hfd
  · intro h
    refine ⟨(s.selectScan args).1, ?_, (selectScan_readResult args s i).mpr h⟩
    rw [select]
    exact congrArg Prod.fst (if_pos (.inl ((foldl_selectFd_count args _ (.zero, s)).2 i
      ((mem_scanned args i).mpr h.1) h.2)))

/-! ### Data is reported -/

/-- Any select that asks for a stream socket with something unread reports it readable. -/
def ReportsUnread (s : SocketState ot) : Prop :=
  ∀ i, (s.socket_table i).inUse = true → (s.socket_table i).type = SOCK_STREAM → (s.view i).stream.unread ≠ [] →
    ∀ args now, isSet (sockFd i) args.readfds = true → sockFd i < args.nfds →
      ∃ res, (s.select args now).1 = some res ∧ res.readResult (sockFd i) = true

/-- What is stored leaves no stream socket unready with something unread. Nothing is unread when recv takes
    the readiness back, unless the socket listens: neither left over nor come since. What has come for the
    endpoint of an accepted connection has made its slot readable. -/
def StoresReady (s : SocketState ot) : Option UnderWay → Prop
  | some (.received i) => (s.socket_table i).type = SOCK_STREAM →
    (s.socket_table i).listening = true ∨ (s.view i).stream.unread = []
  | some (.accepted acc) => (s.socket_table acc.sock).type = SOCK_STREAM →
    (s.socket_table acc.newsock).readable = true ∨ (s.view acc.newsock).stream.unread = []
  | _ => True

/-- The input does not either. Data that arrives for a stream socket finds it ready, or its notifier installed
    and due to be called. -/
def KeepsReady (s : SocketState ot) : SocketInput → Prop
  | .stores => s.StoresReady s.underWay
  | .arrival ep (.data _ _) => ∀ i, (s.socket_table i).inUse = true → (s.socket_table i).ep = ep →
    (s.socket_table i).type = SOCK_STREAM → (s.socket_table i).readable = true ∨
      (s.socket_table i).listening = true ∨ (s.view i).stream.armed = true ∧ (s.view i).notified = true
  | _ => True

instance decidableStoresReady (s : SocketState ot) : DecidablePred s.StoresReady
  | some (.received i) => inferInstanceAs (Decidable ((s.socket_table i).type = SOCK_STREAM →
      (s.socket_table i).listening = true ∨ (s.view i).stream.unread = []))
  | some (.accepted acc) => inferInstanceAs (Decidable ((s.socket_table acc.sock).type = SOCK_STREAM →
      (s.socket_table acc.newsock).readable = true ∨ (s.view acc.newsock).stream.unread = []))
  | none | some (.accepting _) | some (.connected _ _) => .isTrue trivial

instance decidableKeepsReady (s : SocketState ot) : DecidablePred s.KeepsReady
  | .stores => inferInstanceAs (Decidable (s.StoresReady s.underWay))
  | .arrival ep (.data _ _) => inferInstanceAs (Decidable (∀ i, (s.socket_table i).inUse = true →
      (s.socket_table i).ep = ep → (s.socket_table i).type = SOCK_STREAM → (s.socket_table i).readable = true ∨
      (s.socket_table i).listening = true ∨ (s.view i).stream.armed = true ∧ (s.view i).notified = true))
  | .call _ | .installs | .arrival _ (.indication _) | .arrival _ (.connected _) | .arrival _ (.expedited _ _)
  | .arrival _ .disconnect | .arrival _ .orderlyRelease | .arrival _ .goData | .arrival _ .passed
  | .arrival _ .unitError => .isTrue trivial

/-- What `ReportsUnread` says of one socket. -/
def Covered (v : View) : Prop :=
  v.type = SOCK_STREAM → v.stream.unread ≠ [] → v.readable = true ∨ v.listening = true

theorem reportsUnread_iff (s : SocketState ot) :
    s.ReportsUnread ↔ ∀ i, (s.socket_table i).inUse = true → Covered (s.view i) := by
  constructor
  · intro h i hi htype hunread
    have hreport := h i hi htype hunread ⟨sockFd i + 1, some fun _ => true, none, none, 0⟩ 0 rfl (Int.lt_succ _)
    exact ((select_reports_iff _ _ s i).mp hreport).2.ready
  · intro h i hi htype hunread args now hasked hlt
    exact (select_reports_iff args now s i).mpr ⟨hlt, hi, hasked, h i hi htype hunread⟩

/-- What OTRcv returns is what is unread no longer, where no expedited data is ahead of it. -/
theorem rcvStream_unread (hstr : ot.Streams) (s : SocketState ot) (i : SockIdx) {len : ℕ}
    (hexpedited : (s.view i).stream.expedited = []) (hgot : 0 ≤ (s.rcvReply i len).result) :
    (s.view i).stream.unread = (s.rcvReply i len).bytes ++ (s.rcvStream i len).unread :=
  (hstr.rcv_got _ _ _ hexpedited hgot).1

/-- Expedited data or not, OTRcv adds nothing to what is unread. -/
theorem unread_of_received (hstr : ot.Streams) (s : SocketState ot) (i : SockIdx) {len : ℕ}
    (hgot : 0 ≤ (s.rcvReply i len).result) (hunread : (s.rcvStream i len).unread ≠ []) :
    (s.view i).stream.unread ≠ [] := by
  by_cases hexpedited : (s.view i).stream.expedited = []
  · rw [rcvStream_unread hstr s i hexpedited hgot]
    exact List.append_ne_nil_of_right_ne_nil _ hunread
  · have hsame : (s.rcvStream i len).unread = (s.view i).stream.unread :=
      (hstr.rcv_expedited _ _ _ hexpedited hgot).2
    exact hsame ▸ hunread

/-- The notifier is called for data that arrives on an armed endpoint. -/
theorem told_data (hstr : ot.Streams) (hs : s.WellFormed) (hj : (s.socket_table j).inUse = true) (byte : UInt8)
    (bytes : List UInt8) : s.told j (.data byte bytes) = ((s.view j).stream.armed && (s.view j).notified) := by
  rw [told, (hstr.arrive_data _ byte bytes s.net (hs.valid j hj).2).1]
  rfl

theorem arrivedStream_data (hstr : ot.Streams) (hs : s.WellFormed) (hj : (s.socket_table j).inUse = true)
    (byte : UInt8) (bytes : List UInt8) : s.arrivedStream j (.data byte bytes) =
      { (s.view j).stream with unread := (s.view j).stream.unread ++ byte :: bytes, armed := false } :=
  (hstr.arrive_data _ byte bytes s.net (hs.valid j hj).2).2

/-- Nothing but data adds to what is unread. -/
theorem unread_of_arrived (hstr : ot.Streams) (hs : s.WellFormed) (hj : (s.socket_table j).inUse = true)
    {a : Arrival} (hdata : ∀ byte bytes, a ≠ .data byte bytes) (hunread : (s.arrivedStream j a).unread ≠ []) :
    (s.view j).stream.unread ≠ [] := by
  have hopen := (hs.valid j hj).2
  cases a with
  | data byte bytes => exact absurd rfl (hdata byte bytes)
  | expedited byte bytes =>
    rw [arrivedStream, hstr.arrive_expedited _ byte bytes s.net hopen] at hunread
    exact hunread
  | orderlyRelease =>
    rw [arrivedStream, hstr.arrive_release _ s.net hopen] at hunread
    exact hunread
  | disconnect =>
    intro hnil
    have hsuffix := (hstr.arrive_disconnect _ s.net hopen).2.1
    rw [show (ot.endpoint s.net (s.socket_table j).ep).unread = [] from hnil] at hsuffix
    exact hunread (List.suffix_nil.mp hsuffix)
  | _ =>
    rw [arrivedStream, hstr.arrive_other _ _ s.net rfl] at hunread
    exact hunread

theorem covered_arrived (hstr : ot.Streams) (hs : s.WellFormed) (hj : (s.socket_table j).inUse = true)
    (a : Arrival) (hcovered : Covered (s.view j)) (hC : s.KeepsReady (.arrival (s.socket_table j).ep a)) :
    Covered ((s.view j).arrived a (s.told j a) (s.arrivedStream j a)) := by
  intro htype hunread
  rw [View.arrived_type] at htype
  rw [View.arrived_stream] at hunread
  rw [View.arrived_readable, View.arrived_listening]
  by_cases hdata : ∃ byte bytes, a = .data byte bytes
  · obtain ⟨byte, bytes, rfl⟩ := hdata
    rcases hC j hj rfl htype with hready | hlistening | ⟨harmed, hnotified⟩
    · exact .inl (.inl hready)
    · exact .inr hlistening
    · refine .inl (.inr ⟨?_, .inl rfl⟩)
      rw [told_data hstr hs hj, harmed, hnotified]
      rfl
  · have hbefore := unread_of_arrived hstr hs hj (fun byte bytes h => hdata ⟨byte, bytes, h⟩) hunread
    exact (hcovered htype hbefore).imp .inl id

theorem covered_turn (hstr : ot.Streams) (hs : s.WellFormed)
    (hcovered : ∀ i, (s.socket_table i).inUse = true → Covered (s.view i)) {a : SocketInput}
    (hC : s.KeepsReady a) {v : View} (h : Turn s a j v) : Covered v := by
  intro htype hunread
  cases h with
  | same hj => exact hcovered j hj htype hunread
  | opened | accepted => exact absurd rfl hunread
  | installed notified hacc => exact hcovered _ (hs.accepting_inUse hacc) htype hunread
  | @acceptStored acc hw =>
    rw [KeepsReady, hw] at hC
    exact .inl ((hC htype).resolve_right hunread)
  | connectStored _ hj => exact hcovered j hj htype hunread
  | recvStored hw =>
    rw [KeepsReady, hw] at hC
    exact .inr ((hC htype).resolve_right hunread)
  | bound hget | bindFailed hget | rebindFailed hget | connected hget | connectFailed hget =>
    exact hcovered j (get_socket_inUse hget) htype hunread
  | listening | rebound => exact .inr rfl
  | received hreceipt _ hgot =>
    -- recv has not taken the readiness back yet
    exact hcovered j (receipt_inUse hreceipt) htype (unread_of_received hstr s j hgot hunread)
  | receivedNone hreceipt hnone =>
    have hsame := (hstr.rcv_none _ _ _ hnone).1
    exact hcovered j (receipt_inUse hreceipt) htype (hsame ▸ hunread)
  | receivedUnit stream hget hdgram => exact absurd (hdgram.symm.trans htype) (by decide)
  | arrived hj hep =>
    subst hep
    exact covered_arrived hstr hs hj _ (hcovered j hj) hC htype hunread

/-! ### Where it is not -/

/-- What is stored is ready if no socket is left uncovered. -/
theorem stores_of_covered (hs : s.WellFormed)
    (hcovered : ∀ i, (s.stores.socket_table i).inUse = true → Covered (s.stores.view i)) :
    s.StoresReady s.underWay := by
  rcases hw : s.underWay with _ | ⟨acc | acc | ⟨i, addr⟩ | i⟩
  · trivial
  · trivial
  · intro htype
    rw [stores, hw] at hcovered
    have hafter := hcovered acc.newsock (by simpa [acceptReturns] using hs.accepted_inUse hw)
    rw [view_acceptReturns] at hafter
    by_cases hunread : (s.view acc.newsock).stream.unread = []
    · exact .inr hunread
    · have hlistening := (hs.filled acc hw).2
      exact (hafter htype hunread).imp id fun h => absurd (hlistening.symm.trans h) Bool.false_ne_true
  · trivial
  · intro htype
    rw [stores, hw] at hcovered
    have hafter := hcovered i (by simpa [recvReturns] using hs.received_inUse hw)
    rw [view_recvReturns] at hafter
    by_cases hunread : (s.view i).stream.unread = []
    · exact .inr hunread
    · exact .inl ((hafter htype hunread).resolve_left Bool.false_ne_true)

theorem data_of_covered (hstr : ot.Streams) (hs : s.WellFormed) (byte : UInt8)
    (bytes : List UInt8) (hi : (s.socket_table i).inUse = true) (htype : (s.socket_table i).type = SOCK_STREAM)
    (hcovered : Covered ((s.arrive (s.socket_table i).ep (.data byte bytes)).view i)) :
    (s.socket_table i).readable = true ∨ (s.socket_table i).listening = true ∨
      (s.view i).stream.armed = true ∧ (s.view i).notified = true := by
  have hunread : (s.arrivedStream i (.data byte bytes)).unread ≠ [] := by
    rw [arrivedStream_data hstr hs hi]
    simp
  rw [view_arrive hstr hs.toWired hi] at hcovered
  have hready := hcovered (by rw [View.arrived_type]; exact htype) (by rw [View.arrived_stream]; exact hunread)
  rw [View.arrived_readable, View.arrived_listening, told_data hstr hs hi, Bool.and_eq_true] at hready
  rcases hready with (h | h) | h
  · exact .inl h
  · exact .inr (.inr h.1)
  · exact .inr (.inl h)

theorem keepsReady_of_covered (hot : ot.Lawful) (hstr : ot.Streams) (hs : s.WellFormed) (a : SocketInput)
    (hcovered : ∀ i, ((s.step a).socket_table i).inUse = true → Covered ((s.step a).view i)) :
    s.KeepsReady a := by
  cases a with
  | call c => trivial
  | installs => trivial
  | stores => exact stores_of_covered hs hcovered
  | arrival ep a =>
    cases a with
    | data byte bytes =>
      rintro i hi rfl htype
      refine data_of_covered hstr hs byte bytes hi htype (hcovered i ?_)
      exact ((arrive_keeps hot hs.toWired _ _).2.2 i).trans hi
    | _ => trivial

/-- Every stream socket with something unread is reported throughout exactly those runs whose inputs all
    `KeepsReady`. -/
theorem reportsUnread_iff_keepsReady (hot : ot.Lawful) (hstr : ot.Streams) (net : ot.State)
    (inputs : List SocketInput) :
    Always step ReportsUnread (start net) inputs ↔ Meets step KeepsReady (start net) inputs := by
  refine always_iff_meets (I := fun s => s.WellFormed ∧ ∀ i, (s.socket_table i).inUse = true → Covered (s.view i))
    ?_ ?_ ?_ ⟨.start net, fun i hi => by cases hi⟩
  · rintro s a ⟨hs, hcovered⟩ hC
    refine ⟨hs.step hot hstr a, fun i hi => ?_⟩
    exact covered_turn hstr hs hcovered hC ((turns_step hot hstr hs.toWired a).turn i hi)
  · rintro s ⟨-, hcovered⟩
    exact (reportsUnread_iff s).mpr hcovered
  · rintro s a ⟨hs, -⟩ hP
    exact keepsReady_of_covered hot hstr hs a ((reportsUnread_iff _).mp hP)

/-- A client that reads all there is. -/
theorem reportsUnread_client : Always step ReportsUnread (start Wire.idle : SocketState wire)
    [.call (.socket AF_INET SOCK_STREAM 0), .call (.bind 1000 ⟨0, 0⟩), .call (.connect 1000 ⟨80, 1⟩), .stores,
      .arrival 1 (.data 1 [2]), .call (.recv 1000 16), .stores] :=
  (reportsUnread_iff_keepsReady wire_lawful wire_streams Wire.idle _).mpr (by decide +kernel)

/-- A client that reads one byte of two; select then keeps it waiting for the second. -/
theorem unread_byte_lost : ¬ Always step ReportsUnread (start Wire.idle : SocketState wire)
    [.call (.socket AF_INET SOCK_STREAM 0), .call (.bind 1000 ⟨0, 0⟩), .call (.connect 1000 ⟨80, 1⟩), .stores,
      .arrival 1 (.data 1 [2]), .call (.recv 1000 1), .stores] := by
  intro h
  have hlast := (reportsUnread_iff _).mp h.last ⟨0, by decide⟩ (by decide +kernel) (by decide +kernel) (by decide +kernel)
  revert hlast
  decide +kernel

/-! ### Reports are true -/

/-- There is something for recv to return, the end of the stream or an error included. -/
def Stream.Pending (st : Stream) : Prop := st.unread ≠ [] ∨ st.released = true ∨ st.failed = true

/-- What select reports can be had without waiting: a connection from a listening socket, something to
    receive from any other. -/
def ReportsTruly (s : SocketState ot) : SocketInput → Prop
  | .call (.select args now) => s.underWay.isSome = false → ∀ res, (s.select args now).1 = some res →
    ∀ i, res.readResult (sockFd i) = true →
      if (s.socket_table i).listening then (ot.endpoint s.net (s.socket_table i).ep).queued ≠ []
      else Stream.Pending (s.view i).stream
  | _ => True

/-- select is asked only of listening sockets with a connection waiting. -/
def AsksQueued (s : SocketState ot) : SocketInput → Prop
  | .call (.select args _) => s.underWay.isSome = false → ∀ i, (s.socket_table i).inUse = true →
    (s.socket_table i).listening = true → isSet (sockFd i) args.readfds = true → sockFd i < args.nfds →
      (ot.endpoint s.net (s.socket_table i).ep).queued ≠ []
  | _ => True

/-- A socket that is readable listens or has something to receive, unless recv has just received it and has
    not stored that yet, and one that is told of connections listens. -/
structure Warranted (s : SocketState ot) (i : SockIdx) : Prop where
  readable : s.underWay ≠ some (.received i) → (s.view i).readable = true →
    (s.view i).listening = true ∨ Stream.Pending (s.view i).stream
  listens : (s.view i).listens = true → (s.view i).listening = true

theorem pending_arrived (hstr : ot.Streams) (hs : s.WellFormed) (hj : (s.socket_table j).inUse = true)
    (a : Arrival) (h : Stream.Pending (s.view j).stream) : Stream.Pending (s.arrivedStream j a) := by
  have hopen := (hs.valid j hj).2
  cases a with
  | data byte bytes =>
    rw [arrivedStream_data hstr hs hj]
    exact .inl (by simp)
  | expedited byte bytes =>
    rw [arrivedStream, hstr.arrive_expedited _ byte bytes s.net hopen]
    exact h
  | orderlyRelease =>
    rw [arrivedStream, hstr.arrive_release _ s.net hopen]
    exact .inr (.inl rfl)
  | disconnect => exact .inr (.inr (hstr.arrive_disconnect _ s.net hopen).1)
  | _ =>
    rw [arrivedStream, hstr.arrive_other _ _ s.net rfl]
    exact h

theorem readable_arrived (hstr : ot.Streams) (hs : s.WellFormed) (hj : (s.socket_table j).inUse = true)
    (a : Arrival) (h : s.Warranted j) (hw : s.underWay ≠ some (.received j))
    (hreadable : ((s.view j).arrived a (s.told j a) (s.arrivedStream j a)).readable = true) :
    (s.view j).listening = true ∨ Stream.Pending (s.arrivedStream j a) := by
  rcases (View.arrived_readable _ _ _ _).mp hreadable with hbefore | ⟨htold, hevent⟩
  · exact (h.readable hw hbefore).imp id (pending_arrived hstr hs hj a)
  · cases a with
    | data byte bytes =>
      refine .inr (.inl ?_)
      rw [arrivedStream_data hstr hs hj]
      simp
    | indication call =>
      have hcalled := (Bool.and_eq_true_iff.mp htold).1
      exact .inl (h.listens (hstr.told_listens _ call s.net hcalled))
    | _ => rcases hevent with h | h <;> cases h

theorem listens_turn (hwarranted : ∀ i, (s.socket_table i).inUse = true → s.Warranted i) (hs : s.WellFormed)
    {a : SocketInput} {v : View} (h : Turn s a j v) (hlistens : v.listens = true) : v.listening = true := by
  cases h with
  | same hj | connectStored _ hj | recvStored _ hj => exact (hwarranted j hj).listens hlistens
  | opened | accepted => cases hlistens
  | installed notified hacc => exact (hwarranted _ (hs.accepting_inUse hacc)).listens hlistens
  | acceptStored _ hj => exact (hwarranted _ hj).listens hlistens
  | bound hget _ h | bindFailed hget _ h | rebindFailed hget _ _ _ h =>
    exact (hwarranted j (get_socket_inUse hget)).listens (h hlistens)
  | listening | rebound => rfl
  | connected hget | connectFailed hget | receivedUnit stream hget =>
    exact (hwarranted j (get_socket_inUse hget)).listens hlistens
  | received hreceipt | receivedNone hreceipt => exact (hwarranted j (receipt_inUse hreceipt)).listens hlistens
  | arrived hj hep =>
    subst hep
    rw [View.arrived_listens] at hlistens
    rw [View.arrived_listening]
    exact (hwarranted j hj).listens hlistens

/-- A receipt of data leaves its store to come. -/
theorem readable_turn (hstr : ot.Streams) (hs : s.WellFormed)
    (hwarranted : ∀ i, (s.socket_table i).inUse = true → s.Warranted i) {a : SocketInput}
    (hunit : ∀ fd len, a ≠ .call (.recvfrom fd len)) (hw : s.underWay ≠ some (.received j)) {v : View}
    (h : Turn s a j v) (hreadable : v.readable = true) : (v.listening = true ∨ Stream.Pending v.stream) ∨
      ∃ c len, a = .call c ∧ s.receipt c = some (j, len) ∧
        ot.waits (.OTRcv (s.socket_table j).ep len) s.net = false ∧ 0 ≤ (s.rcvReply j len).result := by
  cases h with
  | same hj | connectStored _ hj => exact .inl ((hwarranted j hj).readable hw hreadable)
  | opened | accepted | recvStored => cases hreadable
  | installed notified hacc => exact .inl ((hwarranted _ (hs.accepting_inUse hacc)).readable hw hreadable)
  | acceptStored _ hj => exact .inl ((hwarranted _ hj).readable hw hreadable)
  | bound hget | bindFailed hget | rebindFailed hget | connected hget | connectFailed hget =>
    exact .inl ((hwarranted j (get_socket_inUse hget)).readable hw hreadable)
  | listening | rebound => exact .inl (.inl rfl)
  | received hreceipt hwaits hgot => exact .inr ⟨_, _, rfl, hreceipt, hwaits, hgot⟩
  | @receivedNone _ len _ hreceipt hnone =>
    refine .inl (((hwarranted j (receipt_inUse hreceipt)).readable hw hreadable).imp id ?_)
    have hunread := (hstr.rcv_none _ _ _ hnone).1
    have hevents := hstr.rcv_events (s.socket_table j).ep len s.net
    rintro (h | h | h)
    · exact .inl (hunread.symm ▸ h)
    · exact .inr (.inl (hevents.1.trans h))
    · exact .inr (.inr (hevents.2.trans h))
  | receivedUnit => exact absurd rfl (hunit _ _)
  | arrived hj hep =>
    subst hep
    rw [View.arrived_listening, View.arrived_stream]
    exact .inl (readable_arrived hstr hs hj _ (hwarranted j hj) hw hreadable)

/-- A receipt goes on until its store is made. -/
theorem step_received (hot : ot.Lawful) (hs : s.Wired) (hw : s.underWay = some (.received j)) (a : SocketInput) :
    (s.step a).underWay = some (.received j) ∨ s.step a = s.recvReturns j := by
  cases a with
  | call c =>
    refine .inl ?_
    rw [step, hw]
    exact hw
  | installs =>
    refine .inl ?_
    rw [step, hw]
    exact hw
  | stores =>
    refine .inr ?_
    rw [step, stores, hw]
  | arrival ep a => exact .inl ((arrive_keeps hot hs ep a).2.1.trans hw)

theorem warranted_step (hot : ot.Lawful) (hstr : ot.Streams) (hs : s.WellFormed)
    (hwarranted : ∀ i, (s.socket_table i).inUse = true → s.Warranted i) {a : SocketInput}
    (hunit : ∀ fd len, a ≠ .call (.recvfrom fd len)) (hj : ((s.step a).socket_table j).inUse = true) :
    (s.step a).Warranted j := by
  have hturn := (turns_step hot hstr hs.toWired a).turn j hj
  refine ⟨fun hdone hreadable => ?_, listens_turn hwarranted hs hturn⟩
  by_cases hw : s.underWay = some (.received j)
  · rcases step_received hot hs.toWired hw a with hgoesOn | hstored
    · exact absurd hgoesOn hdone
    · rw [hstored, view_recvReturns] at hreadable
      cases hreadable
  rcases readable_turn hstr hs hwarranted hunit hw hturn hreadable with hwarrant | ⟨c, len, rfl, hreceipt, hwaits, hgot⟩
  · exact hwarrant
  rcases step_cases s (.call c) with hrefused | hidle
  · rw [hrefused] at hj hreadable ⊢
    exact (hwarranted j hj).readable hw hreadable
  · exact absurd (congrArg underWay (step_receipt (hidle c rfl) hreceipt hwaits hgot)) hdone

/-- Where what is readable is warranted, a round of select reports truly if it is asked only of listening
    sockets with a connection waiting. -/
theorem reportsTruly_iff (hwarranted : ∀ i, (s.socket_table i).inUse = true → s.Warranted i)
    (a : SocketInput) : s.ReportsTruly a ↔ s.AsksQueued a := by
  cases a with
  | call c =>
    cases c with
    | select args now =>
      refine forall_congr' fun hidle => ⟨fun h i hi hlistening hasked hlt => ?_, fun h res hres i hfd => ?_⟩
      · obtain ⟨res, hres, hfd⟩ := (select_reports_iff args now s i).mpr ⟨hlt, hi, hasked, .inr hlistening⟩
        have htrue := h res hres i hfd
        rwa [if_pos hlistening] at htrue
      · obtain ⟨hlt, hreads⟩ := (select_reports_iff args now s i).mp ⟨res, hres, hfd⟩
        split
        case isTrue hlistening => exact h i hreads.inUse hlistening hreads.asked hlt
        case isFalse hlistening =>
          have hreadable := hreads.ready.resolve_right hlistening
          have hw : s.underWay ≠ some (.received i) := by
            intro hw
            rw [hw] at hidle
            cases hidle
          exact ((hwarranted i hreads.inUse).readable hw hreadable).resolve_left hlistening
    | _ => exact Iff.rfl
  | _ => exact Iff.rfl

/-- In a run without recvfrom, all that select reports is true exactly if it is asked only of listening
    sockets with a connection waiting. -/
theorem reportsTruly_iff_asksQueued (hot : ot.Lawful) (hstr : ot.Streams) (net : ot.State)
    (inputs : List SocketInput) (hunit : ∀ fd len, SocketInput.call (.recvfrom fd len) ∉ inputs) :
    Meets step ReportsTruly (start net) inputs ↔ Meets step AsksQueued (start net) inputs := by
  have hclass : Meets step (fun _ a => ∀ fd len, a ≠ .call (.recvfrom fd len)) (start net) inputs :=
    meets_of_forall_mem (fun a ha _ fd len h => hunit fd len (by rw [← h]; exact ha)) _
  refine meets_congr (I := fun s => s.WellFormed ∧ ∀ i, (s.socket_table i).inUse = true → s.Warranted i)
    ?_ ?_ ⟨.start net, fun i hi => by cases hi⟩ hclass
  · rintro s a ⟨hs, hwarranted⟩ hD
    exact ⟨hs.step hot hstr a, fun i => warranted_step hot hstr hs hwarranted hD⟩
  · rintro s a ⟨-, hwarranted⟩
    exact reportsTruly_iff hwarranted a

/-- A server that asks once a connection is waiting. -/
theorem reportsTruly_server : Meets step ReportsTruly (start Wire.idle : SocketState wire)
    [.call (.socket AF_INET SOCK_STREAM 0), .call (.bind 1000 ⟨80, 0⟩), .call (.listen 1000 5),
      .arrival 1 (.indication ⟨⟨1024, 1⟩, 1⟩),
      .call (.select ⟨1001, some fun fd => fd = 1000, none, none, 60⟩ 0)] := by
  refine (reportsTruly_iff_asksQueued wire_lawful wire_streams Wire.idle _ (by simp)).mpr
    ⟨trivial, trivial, trivial, trivial, ?_, trivial⟩
  intro _
  decide +kernel

/-- A server that asks before; accept would wait. -/
theorem idle_listener_reported : ¬ Meets step ReportsTruly (start Wire.idle : SocketState wire)
    [.call (.socket AF_INET SOCK_STREAM 0), .call (.bind 1000 ⟨80, 0⟩), .call (.listen 1000 5),
      .call (.select ⟨1001, some fun fd => fd = 1000, none, none, 60⟩ 0)] := by
  rintro ⟨-, -, -, htrue, -⟩
  obtain ⟨res, hres, hfd⟩ := (select_reports_iff ⟨1001, some fun fd => fd = 1000, none, none, 60⟩ 0
    (run step (start Wire.idle : SocketState wire) [.call (.socket AF_INET SOCK_STREAM 0),
      .call (.bind 1000 ⟨80, 0⟩), .call (.listen 1000 5)]) ⟨0, by decide⟩).mpr
    ⟨by decide, by decide +kernel, by decide, .inr (by decide +kernel)⟩
  have hqueued := htrue (by decide +kernel) res hres ⟨0, by decide⟩ hfd
  revert hqueued
  rw [if_pos (by decide +kernel)]
  decide +kernel

end Posix9.SocketState
