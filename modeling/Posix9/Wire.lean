import Posix9.OpenTransport

/-! An Open Transport for the runs on fixed inputs: a table of endpoints and the next one to open. -/

namespace Posix9

/-- An endpoint, its mode and whether OTBind has bound it. -/
structure WireEnd extends Endpoint where
  blocking : Bool
  isBound : Bool

namespace WireEnd

/-- As OTOpenEndpoint gives it: nothing has arrived, and calls wait until OTSetNonBlocking. -/
def fresh : WireEnd := ⟨Endpoint.new, true, false⟩

/-- A reply that has nothing but its result. -/
def reply (result : OTResult) : OTReply := ⟨result, 0, ⟨⟨0, 0⟩, 0⟩, ⟨0, 0⟩, []⟩

/-- The reply of a receipt that returns bytes. -/
def got (bytes : List UInt8) : OTReply := { reply bytes.length with bytes }

/-- Expedited data comes first; a release shows once both are drained, and the endpoint is armed where
    there is nothing at all. -/
def rcv (e : WireEnd) (nbytes : ℕ) : OTReply × WireEnd :=
  if e.expedited ≠ [] then (got (e.expedited.take nbytes), { e with expedited := e.expedited.drop nbytes })
  else if e.unread ≠ [] then (got (e.unread.take nbytes), { e with unread := e.unread.drop nbytes })
  else if e.released then (reply kOTLookErr, e)
  else (reply kOTNoDataErr, { e with armed := true })

/-- A call on an open endpoint. -/
def act (e : WireEnd) : OTCall → OTReply × WireEnd
  | .OTSetBlocking _ => (reply noErr, { e with blocking := true })
  | .OTSetNonBlocking _ => (reply noErr, { e with blocking := false })
  | .OTBind _ addr qlen =>
    if e.isBound then (reply kOTOutStateErr, e)
    else ({ reply noErr with addr }, { e with isBound := true, listens := 0 < qlen })
  | .OTUnbind _ =>
    if e.isBound then (reply noErr, { e with isBound := false, listens := false })
    else (reply kOTOutStateErr, e)
  | .OTListen _ =>
    match e.queued with
    | [] => (reply kOTNoDataErr, e)
    | call :: queued => ({ reply noErr with call }, { e with queued })
  | .OTConnect _ _ => (reply (if e.isBound then noErr else kOTOutStateErr), e)
  | .OTSnd _ bytes _ => (reply bytes.length, e)
  | .OTRcv _ nbytes | .OTRcvUData _ nbytes => e.rcv nbytes
  | .OTCloseProvider _ => (reply noErr, { e with isOpen := false })
  | _ => (reply noErr, e)

/-- Something arrives for an open endpoint. -/
def take (e : WireEnd) : Arrival → Bool × WireEnd
  | .indication call => if e.listens then (true, { e with queued := e.queued ++ [call] }) else (false, e)
  | .data byte bytes => (e.armed, { e with unread := e.unread ++ byte :: bytes, armed := false })
  | .expedited byte bytes => (true, { e with expedited := e.expedited ++ byte :: bytes })
  | .orderlyRelease => (true, { e with released := true })
  | .disconnect => (true, { e with failed := true, unread := [], expedited := [] })
  | _ => (true, e)

variable {e : WireEnd} {c : OTCall} {a : Arrival}

/-- A receipt takes expedited data, or normal data where there is none of it, or nothing. -/
theorem rcv_cases (e : WireEnd) (n : ℕ) :
    (e.expedited ≠ [] ∧
        e.rcv n = (got (e.expedited.take n), { e with expedited := e.expedited.drop n })) ∨
      (e.expedited = [] ∧ e.unread ≠ [] ∧
        e.rcv n = (got (e.unread.take n), { e with unread := e.unread.drop n })) ∨
      (e.expedited = [] ∧ e.unread = [] ∧
        (e.rcv n = (reply kOTLookErr, e) ∧ e.released = true ∨
          e.rcv n = (reply kOTNoDataErr, { e with armed := true }) ∧ e.released = false)) := by
  rw [rcv]
  by_cases hexpedited : e.expedited ≠ []
  · exact .inl ⟨hexpedited, if_pos hexpedited⟩
  have hnone := not_not.mp hexpedited
  rw [if_neg hexpedited]
  by_cases hunread : e.unread ≠ []
  · exact .inr (.inl ⟨hnone, hunread, if_pos hunread⟩)
  rw [if_neg hunread]
  refine .inr (.inr ⟨hnone, not_not.mp hunread, ?_⟩)
  cases e.released with
  | true => exact .inl ⟨rfl, rfl⟩
  | false => exact .inr ⟨rfl, rfl⟩

/-- A receipt takes data and may arm the endpoint. It neither closes it nor takes a release or a disconnect
    away. -/
theorem rcv_endpoint (e : WireEnd) (n : ℕ) : (e.rcv n).2.isOpen = e.isOpen ∧
    (e.rcv n).2.listens = e.listens ∧ (e.rcv n).2.released = e.released ∧
    (e.rcv n).2.failed = e.failed := by
  rcases rcv_cases e n with ⟨-, h⟩ | ⟨-, -, h⟩ | ⟨-, -, ⟨h, -⟩ | ⟨h, -⟩⟩ <;> rw [h] <;>
    exact ⟨rfl, rfl, rfl, rfl⟩

/-- Only OTCloseProvider closes an endpoint. -/
theorem act_isOpen (e : WireEnd) (hclose : ∀ ep, c ≠ .OTCloseProvider ep) :
    (e.act c).2.isOpen = e.isOpen := by
  cases c with
  | OTCloseProvider ep => exact absurd rfl (hclose ep)
  | OTRcv _ n => exact (rcv_endpoint e n).1
  | OTRcvUData _ n => exact (rcv_endpoint e n).1
  | OTBind => rw [act]; split <;> rfl
  | OTUnbind => rw [act]; split <;> rfl
  | OTListen => rw [act]; split <;> rfl
  | _ => rfl

/-- The receiving side changes with the reads and the close only. -/
theorem act_stream (e : WireEnd) {ep : EndpointRef} (hep : ep ∈ c.names.head?) (hkeeps : c.keeps ep = true) :
    (e.act c).2.toStream = e.toStream := by
  cases c with
  | OTRcv ep' n => simp_all [OTCall.keeps, OTCall.names]
  | OTRcvUData ep' n => simp_all [OTCall.keeps, OTCall.names]
  | OTBind => rw [act]; split <;> rfl
  | OTUnbind => rw [act]; split <;> rfl
  | OTListen => rw [act]; split <;> rfl
  | _ => rfl

/-- Only OTBind and OTUnbind change whether connections are told of. -/
theorem act_listens (e : WireEnd) (hc : c.binds = false) : (e.act c).2.listens = e.listens := by
  cases c with
  | OTBind => cases hc
  | OTUnbind => cases hc
  | OTRcv _ n => exact (rcv_endpoint e n).2.1
  | OTRcvUData _ n => exact (rcv_endpoint e n).2.1
  | OTListen => rw [act]; split <;> rfl
  | _ => rfl

/-- Nothing that arrives opens or closes an endpoint, or makes it listen. -/
theorem take_endpoint (e : WireEnd) (a : Arrival) :
    (e.take a).2.isOpen = e.isOpen ∧ (e.take a).2.listens = e.listens := by
  cases a with
  | indication call => rw [take]; split <;> exact ⟨rfl, rfl⟩
  | _ => exact ⟨rfl, rfl⟩

end WireEnd

/-- The endpoints by reference, and the reference the next one gets. -/
structure Wire where
  ends : EndpointRef → WireEnd
  next : EndpointRef

namespace Wire

/-- No endpoint is open. -/
def idle : Wire := ⟨fun _ => { WireEnd.fresh with isOpen := false }, 1⟩

/-- An endpoint is replaced. -/
def set (w : Wire) (ep : EndpointRef) (e : WireEnd) : Wire := { w with ends := Function.update w.ends ep e }

/-- OTOpenEndpoint uses each reference once; any other call is one on the first endpoint it names, and fails
    where that is not open. -/
def call (c : OTCall) (w : Wire) : OTReply × Wire :=
  match c with
  | .OTCreateConfiguration _ => ({ WireEnd.reply noErr with ref := 1 }, w)
  | .OTOpenEndpoint _ =>
    if w.next = kOTInvalidEndpointRef ∨ (w.ends w.next).isOpen then (WireEnd.reply kENOMEMErr, w)
    else ({ WireEnd.reply noErr with ref := w.next }, { w.set w.next WireEnd.fresh with next := w.next + 1 })
  | c =>
    match c.names.head? with
    | none => (WireEnd.reply noErr, w)
    | some ep =>
      if (w.ends ep).isOpen then (((w.ends ep).act c).1, w.set ep ((w.ends ep).act c).2)
      else (WireEnd.reply kOTBadReferenceErr, w)

/-- In blocking mode OTListen waits for an indication and OTRcv for data or a release. No other call waits.
    -/
def waits (c : OTCall) (w : Wire) : Bool :=
  match c with
  | .OTListen ep => (w.ends ep).blocking && (w.ends ep).queued.isEmpty
  | .OTRcv ep _ => (w.ends ep).blocking && (w.ends ep).expedited.isEmpty && (w.ends ep).unread.isEmpty &&
      !(w.ends ep).released
  | _ => false

/-- What arrives for an endpoint that is not open is dropped. -/
def arrive (ep : EndpointRef) (a : Arrival) (w : Wire) : Bool × Wire :=
  if (w.ends ep).isOpen then (((w.ends ep).take a).1, w.set ep ((w.ends ep).take a).2) else (false, w)

variable {w : Wire} {ep e : EndpointRef} {c : OTCall} {a : Arrival}

@[simp] theorem set_self (w : Wire) (ep : EndpointRef) (x : WireEnd) : (w.set ep x).ends ep = x :=
  Function.update_self ..

theorem set_of_ne (w : Wire) (x : WireEnd) (h : e ≠ ep) : (w.set ep x).ends e = w.ends e :=
  Function.update_of_ne h ..

/-- A call other than OTOpenEndpoint is one on an open endpoint, or it leaves the table alone. -/
theorem call_cases (w : Wire) (hopen : ∀ config, c ≠ .OTOpenEndpoint config) :
    (∃ ep, ep ∈ c.names.head? ∧ (w.ends ep).isOpen = true ∧
      call c w = (((w.ends ep).act c).1, w.set ep ((w.ends ep).act c).2)) ∨
      (call c w).2 = w ∧ ∀ ep, ep ∈ c.names.head? → (w.ends ep).isOpen = false ∧
        (call c w).1.result = kOTBadReferenceErr := by
  cases c with
  | OTOpenEndpoint config => exact absurd rfl (hopen config)
  | InitOpenTransport => exact .inr ⟨rfl, by simp [OTCall.names]⟩
  | OTCreateConfiguration name => exact .inr ⟨rfl, by simp [OTCall.names]⟩
  | _ =>
    simp only [call, OTCall.names, List.head?_cons]
    split
    · exact .inl ⟨_, rfl, ‹_›, rfl⟩
    · refine .inr ⟨rfl, ?_⟩
      rintro _ ⟨⟩
      exact ⟨Bool.not_eq_true _ ▸ ‹¬ _›, rfl⟩

/-- OTOpenEndpoint fails and leaves the table alone, or opens the endpoint that is next, which was not open.
    -/
theorem call_open (w : Wire) (config : OTConfigurationRef) :
    ((call (.OTOpenEndpoint config) w).1.result ≠ noErr ∧ (call (.OTOpenEndpoint config) w).2 = w) ∨
      w.next ≠ kOTInvalidEndpointRef ∧ (w.ends w.next).isOpen = false ∧
        call (.OTOpenEndpoint config) w = ({ WireEnd.reply noErr with ref := w.next },
          { w.set w.next WireEnd.fresh with next := w.next + 1 }) := by
  rw [call]
  split
  · exact .inl ⟨(by decide : kENOMEMErr ≠ noErr), rfl⟩
  -- the reference has not wrapped around to one in use
  · rename_i hfree
    obtain ⟨hnext, hshut⟩ := not_or.mp hfree
    exact .inr ⟨hnext, by simpa using hshut, rfl⟩

/-- A call leaves the endpoints alone that it does not name. -/
theorem call_frame (hopen : ∀ config, c ≠ .OTOpenEndpoint config) (he : e ∉ c.names) :
    (call c w).2.ends e = w.ends e := by
  rcases call_cases w hopen with ⟨ep, hep, -, hcall⟩ | ⟨hcall, -⟩
  · have hne : e ≠ ep := by
      rintro rfl
      exact he (List.mem_of_mem_head? hep)
    rw [hcall]
    exact set_of_ne w _ hne
  · rw [hcall]

/-- An endpoint stays open until OTCloseProvider is called on it, and none but OTOpenEndpoint opens one. -/
theorem call_isOpen (hopen : ∀ config, c ≠ .OTOpenEndpoint config) (hclose : c ≠ .OTCloseProvider e) :
    ((call c w).2.ends e).isOpen = (w.ends e).isOpen := by
  rcases call_cases w hopen with ⟨ep, hep, -, hcall⟩ | ⟨hcall, -⟩
  · rw [hcall]
    rcases eq_or_ne e ep with rfl | hne
    · rw [set_self]
      refine WireEnd.act_isOpen _ fun ep' h => hclose ?_
      obtain rfl : ep' = e := by simpa [h, OTCall.names] using hep
      exact h
    · rw [set_of_ne w _ hne]
  · rw [hcall]

/-- What has arrived for an endpoint changes with a receipt on it only, and with its close. -/
theorem call_stream (hkeeps : c.keeps e = true) : ((call c w).2.ends e).toStream = (w.ends e).toStream := by
  have hopen : ∀ config, c ≠ .OTOpenEndpoint config := by
    rintro config rfl
    cases hkeeps
  rcases call_cases w hopen with ⟨ep, hep, -, hcall⟩ | ⟨hcall, -⟩
  · rw [hcall]
    rcases eq_or_ne e ep with rfl | hne
    · rw [set_self, WireEnd.act_stream _ hep hkeeps]
    · rw [set_of_ne w _ hne]
  · rw [hcall]

theorem call_listens (w : Wire) (e : EndpointRef) (hc : c.binds = false) :
    ((call c w).2.ends e).listens = (w.ends e).listens := by
  have hopen : ∀ config, c ≠ .OTOpenEndpoint config := by
    rintro config rfl
    cases hc
  rcases call_cases w hopen with ⟨ep, hep, -, hcall⟩ | ⟨hcall, -⟩
  · rw [hcall]
    rcases eq_or_ne e ep with rfl | hne
    · rw [set_self, WireEnd.act_listens _ hc]
    · rw [set_of_ne w _ hne]
  · rw [hcall]

/-- OTUnbind makes no endpoint listen. -/
theorem unbind_listens (h : ((call (.OTUnbind ep) w).2.ends e).listens = true) :
    (w.ends e).listens = true := by
  rcases call_cases (c := .OTUnbind ep) w (by simp) with ⟨ep', -, -, hcall⟩ | ⟨hcall, -⟩
  · rw [hcall] at h
    rcases eq_or_ne e ep' with rfl | hne
    · rw [set_self, WireEnd.act] at h
      split at h
      · cases h
      · exact h
    · rwa [set_of_ne w _ hne] at h
  · rwa [hcall] at h

/-- OTBind does where it succeeds and is asked for a queue. -/
theorem bind_listens {addr : InetAddress} {qlen : ℕ}
    (h : ((call (.OTBind ep addr qlen) w).2.ends e).listens = true) :
    (w.ends e).listens = true ∨ 0 < qlen ∧ (call (.OTBind ep addr qlen) w).1.result = noErr := by
  rcases call_cases (c := .OTBind ep addr qlen) w (by simp) with ⟨ep', -, -, hcall⟩ | ⟨hcall, -⟩
  · rw [hcall] at h ⊢
    rcases eq_or_ne e ep' with rfl | hne
    · rw [set_self, WireEnd.act] at h
      rw [WireEnd.act]
      split at h
      -- bound already: kOTOutStateErr, and nothing changes
      · exact .inl h
      · rename_i hbound
        rw [if_neg hbound]
        exact .inr ⟨by simpa using h, rfl⟩
    · exact .inl (by rwa [set_of_ne w _ hne] at h)
  · exact .inl (by rwa [hcall] at h)

/-- OTRcv, on an endpoint that is open or not. -/
theorem call_rcv (w : Wire) (e : EndpointRef) (n : ℕ) :
    (call (.OTRcv e n) w).1.result = kOTBadReferenceErr ∧ (call (.OTRcv e n) w).2 = w ∨
      call (.OTRcv e n) w = (((w.ends e).rcv n).1, w.set e ((w.ends e).rcv n).2) := by
  rcases call_cases (c := .OTRcv e n) w (by simp) with ⟨ep, hep, -, hcall⟩ | ⟨hcall, hbad⟩
  · obtain rfl : e = ep := by simpa [OTCall.names] using hep
    exact .inr hcall
  · exact .inl ⟨(hbad e rfl).2, hcall⟩

/-- OTCloseProvider leaves its endpoint shut, whether it was open or not. -/
theorem closed (e : EndpointRef) (w : Wire) : ((call (.OTCloseProvider e) w).2.ends e).isOpen = false := by
  rcases call_cases (c := .OTCloseProvider e) w (by simp) with ⟨ep, hep, -, hcall⟩ | ⟨hcall, hbad⟩
  · obtain rfl : e = ep := by simpa [OTCall.names] using hep
    simp [hcall, WireEnd.act]
  -- it was not open before
  · rw [hcall]
    exact (hbad e rfl).1

/-- A result that is not negative is that of a receipt of bytes, expedited ones if there are any. -/
theorem rcv_nonneg (w : Wire) (e : EndpointRef) (n : ℕ) (hgot : 0 ≤ (call (.OTRcv e n) w).1.result) :
    ((w.ends e).expedited ≠ [] ∧ call (.OTRcv e n) w = (WireEnd.got ((w.ends e).expedited.take n),
        w.set e { w.ends e with expedited := (w.ends e).expedited.drop n })) ∨
      ((w.ends e).expedited = [] ∧ call (.OTRcv e n) w = (WireEnd.got ((w.ends e).unread.take n),
        w.set e { w.ends e with unread := (w.ends e).unread.drop n })) := by
  rcases call_rcv w e n with ⟨hbad, -⟩ | hcall
  · exact absurd (hbad ▸ hgot) (by decide)
  rw [hcall] at hgot ⊢
  rcases WireEnd.rcv_cases (w.ends e) n with ⟨hexpedited, h⟩ | ⟨hnone, -, h⟩ | ⟨-, -, ⟨h, -⟩ | ⟨h, -⟩⟩
  · exact .inl ⟨hexpedited, by rw [h]⟩
  · exact .inr ⟨hnone, by rw [h]⟩
  · rw [h] at hgot
    exact absurd hgot (by decide : ¬ 0 ≤ kOTLookErr)
  · rw [h] at hgot
    exact absurd hgot (by decide : ¬ 0 ≤ kOTNoDataErr)

theorem rcv_length (w : Wire) (e : EndpointRef) (n : ℕ) (hgot : 0 ≤ (call (.OTRcv e n) w).1.result) :
    (call (.OTRcv e n) w).1.result = (call (.OTRcv e n) w).1.bytes.length := by
  rcases rcv_nonneg w e n hgot with ⟨-, hcall⟩ | ⟨-, hcall⟩ <;> rw [hcall] <;> rfl

/-- What OTRcv returns is taken off the front of the normal data, as long as no expedited data is ahead of
    it. -/
theorem rcv_got (w : Wire) (e : EndpointRef) (n : ℕ) (hnone : (w.ends e).expedited = [])
    (hgot : 0 ≤ (call (.OTRcv e n) w).1.result) :
    (w.ends e).unread = (call (.OTRcv e n) w).1.bytes ++ ((call (.OTRcv e n) w).2.ends e).unread ∧
      ((call (.OTRcv e n) w).2.ends e).expedited = [] := by
  rcases rcv_nonneg w e n hgot with ⟨hsome, -⟩ | ⟨-, hcall⟩
  · exact absurd hnone hsome
  rw [hcall, set_self]
  exact ⟨(List.take_append_drop n _).symm, hnone⟩

/-- With expedited data ahead it is taken off the front of that, and the normal data stays. -/
theorem rcv_expedited (w : Wire) (e : EndpointRef) (n : ℕ) (hsome : (w.ends e).expedited ≠ [])
    (hgot : 0 ≤ (call (.OTRcv e n) w).1.result) :
    (w.ends e).expedited = (call (.OTRcv e n) w).1.bytes ++ ((call (.OTRcv e n) w).2.ends e).expedited ∧
      ((call (.OTRcv e n) w).2.ends e).unread = (w.ends e).unread := by
  rcases rcv_nonneg w e n hgot with ⟨-, hcall⟩ | ⟨hnone, -⟩
  · rw [hcall, set_self]
    exact ⟨(List.take_append_drop n _).symm, rfl⟩
  · exact absurd hnone hsome

/-- A failed receipt takes nothing, and arms the endpoint where there was nothing to take. -/
theorem rcv_none (w : Wire) (e : EndpointRef) (n : ℕ) (hnone : (call (.OTRcv e n) w).1.result < 0) :
    ((call (.OTRcv e n) w).2.ends e).unread = (w.ends e).unread ∧
      ((call (.OTRcv e n) w).2.ends e).expedited = (w.ends e).expedited ∧
      ((call (.OTRcv e n) w).1.result = kOTNoDataErr → ((call (.OTRcv e n) w).2.ends e).armed = true) := by
  rcases call_rcv w e n with ⟨hbad, hw⟩ | hcall
  · rw [hw]
    exact ⟨rfl, rfl, fun hdata => absurd (hbad.symm.trans hdata) (by decide)⟩
  rw [hcall] at hnone ⊢
  rcases WireEnd.rcv_cases (w.ends e) n with ⟨-, h⟩ | ⟨-, -, h⟩ | ⟨-, -, ⟨h, -⟩ | ⟨h, -⟩⟩ <;>
    rw [h] at hnone ⊢
  -- a receipt of bytes returns how many they are
  · exact absurd hnone (Int.not_lt.mpr (Int.natCast_nonneg _))
  · exact absurd hnone (Int.not_lt.mpr (Int.natCast_nonneg _))
  · rw [set_self]
    exact ⟨rfl, rfl, fun hdata => absurd hdata (by decide : kOTLookErr ≠ kOTNoDataErr)⟩
  · rw [set_self]
    exact ⟨rfl, rfl, fun _ => rfl⟩

theorem rcv_events (w : Wire) (e : EndpointRef) (n : ℕ) :
    ((call (.OTRcv e n) w).2.ends e).released = (w.ends e).released ∧
      ((call (.OTRcv e n) w).2.ends e).failed = (w.ends e).failed := by
  rcases call_rcv w e n with ⟨-, hw⟩ | hcall
  · rw [hw]
    exact ⟨rfl, rfl⟩
  · rw [hcall, set_self]
    exact (WireEnd.rcv_endpoint _ n).2.2

/-- Behind the last byte a release shows as kOTLookErr, in either mode. -/
theorem rcv_released (w : Wire) (e : EndpointRef) (n : ℕ) (hopen : (w.ends e).isOpen = true)
    (hreleased : (w.ends e).released = true) (hunread : (w.ends e).unread = [])
    (hexpedited : (w.ends e).expedited = []) :
    waits (.OTRcv e n) w = false ∧ (call (.OTRcv e n) w).1.result = kOTLookErr := by
  rcases call_rcv w e n with ⟨-, -⟩ | hcall
  · simp [call, OTCall.names, hopen, waits, hreleased, WireEnd.act, WireEnd.rcv, hunread, hexpedited,
      WireEnd.reply]
  · simp [hcall, waits, hreleased, WireEnd.rcv, hunread, hexpedited, WireEnd.reply]

/-- What arrives changes the endpoint it arrives for, as `take` does, if that is open. -/
theorem arrive_open (a : Arrival) (h : (w.ends ep).isOpen = true) :
    (arrive ep a w).1 = ((w.ends ep).take a).1 ∧ (arrive ep a w).2.ends ep = ((w.ends ep).take a).2 := by
  rw [arrive, if_pos h]
  exact ⟨rfl, set_self w ep _⟩

/-- For an endpoint that is not open, nothing. -/
theorem arrive_shut (a : Arrival) (h : ¬ (w.ends ep).isOpen = true) : arrive ep a w = (false, w) := if_neg h

theorem arrive_of_ne (a : Arrival) (w : Wire) (h : e ≠ ep) : (arrive ep a w).2.ends e = w.ends e := by
  rw [arrive]
  split
  · exact set_of_ne w _ h
  · rfl

/-- What `take_endpoint` says, of the table. -/
theorem arrive_endpoint (ep : EndpointRef) (a : Arrival) (w : Wire) :
    ((arrive ep a w).2.ends ep).isOpen = (w.ends ep).isOpen ∧
      ((arrive ep a w).2.ends ep).listens = (w.ends ep).listens := by
  by_cases hopen : (w.ends ep).isOpen = true
  · rw [(arrive_open a hopen).2]
    exact WireEnd.take_endpoint _ a
  · rw [arrive_shut a hopen]
    exact ⟨rfl, rfl⟩

/-- Arrivals that are neither data nor an end leave the data alone. -/
theorem arrive_other (ep : EndpointRef) (w : Wire) (hplain : a.plain = true) :
    ((arrive ep a w).2.ends ep).toStream = (w.ends ep).toStream := by
  by_cases hopen : (w.ends ep).isOpen = true
  · rw [(arrive_open a hopen).2]
    cases a with
    | data | expedited | orderlyRelease | disconnect => cases hplain
    | indication call => rw [WireEnd.take]; split <;> rfl
    | _ => rfl
  · rw [arrive_shut a hopen]

/-- A notifier is told of a connection only where its endpoint listens. -/
theorem told_listens {indication : TCall} (h : (arrive ep (.indication indication) w).1 = true) :
    (w.ends ep).listens = true := by
  by_cases hopen : (w.ends ep).isOpen = true
  · rw [(arrive_open _ hopen).1, WireEnd.take] at h
    split at h
    · assumption
    · cases h
  · rw [arrive_shut _ hopen] at h
    cases h

end Wire

/-- The parameter of the model, for the runs on fixed inputs. -/
def wire : OpenTransport where
  State := Wire
  call := Wire.call
  waits := Wire.waits
  arrive := Wire.arrive
  endpoint w ep := (w.ends ep).toEndpoint

/-- The assumptions on Open Transport can be met: this one meets them. -/
theorem wire_lawful : wire.Lawful where
  opened config w hopen := by
    rcases Wire.call_open w config with ⟨hfail, -⟩ | ⟨hnext, hshut, hcall⟩
    · exact absurd hopen hfail
    simp only [wire, hcall]
    refine ⟨hnext, hshut, ?_, fun e he => ?_⟩
    · exact congrArg WireEnd.toEndpoint (Wire.set_self w w.next _)
    · exact congrArg WireEnd.toEndpoint (Wire.set_of_ne w _ he)
  open_failed config w hfail := by
    rcases Wire.call_open w config with ⟨-, hcall⟩ | ⟨-, -, hcall⟩
    · simp only [wire, hcall]
    · exact absurd (congrArg (fun x => x.1.result) hcall) hfail
  frame c w e he hopen := congrArg WireEnd.toEndpoint (Wire.call_frame hopen he)
  stays c w e he hclose := by
    refine Wire.call_isOpen ?_ hclose
    rintro config rfl
    simp [OTCall.names] at he
  closed := Wire.closed
  arrive_frame e a w e' hne := congrArg WireEnd.toEndpoint (Wire.arrive_of_ne a w hne)
  arrive_stays e a w := (Wire.arrive_endpoint e a w).1

/-- Those on data as well. -/
theorem wire_streams : wire.Streams where
  keeps c w e hkeeps := Wire.call_stream hkeeps
  rcv_length e n w := Wire.rcv_length w e n
  rcv_got e n w := Wire.rcv_got w e n
  rcv_expedited e n w := Wire.rcv_expedited w e n
  rcv_none e n w := Wire.rcv_none w e n
  rcv_events e n w := Wire.rcv_events w e n
  rcv_released e n w := Wire.rcv_released w e n
  arrive_data e byte bytes w hopen := by
    obtain ⟨htold, hends⟩ := Wire.arrive_open (.data byte bytes) hopen
    exact ⟨htold, congrArg (fun x : WireEnd => x.toStream) hends⟩
  arrive_expedited e byte bytes w hopen :=
    congrArg (fun x : WireEnd => x.toStream) (Wire.arrive_open (.expedited byte bytes) hopen).2
  arrive_release e w hopen :=
    congrArg (fun x : WireEnd => x.toStream) (Wire.arrive_open .orderlyRelease hopen).2
  arrive_disconnect e w hopen := by
    have hends := (Wire.arrive_open .disconnect hopen).2
    refine ⟨congrArg (fun x : WireEnd => x.failed) hends, ?_, ?_⟩
    · have hunread := congrArg (fun x : WireEnd => x.unread) hends
      exact ⟨_, (congrArg (_ ++ ·) hunread).trans (List.append_nil _)⟩
    · have hexpedited := congrArg (fun x : WireEnd => x.expedited) hends
      exact ⟨_, (congrArg (_ ++ ·) hexpedited).trans (List.append_nil _)⟩
  arrive_other e a w := Wire.arrive_other e w
  listens_same c w e := Wire.call_listens w e
  listens_unbind ep w e := Wire.unbind_listens
  listens_bind ep addr qlen w e := Wire.bind_listens
  arrive_listens e a w := (Wire.arrive_endpoint e a w).2
  told_listens e call w := Wire.told_listens

end Posix9
