import Posix9.Lib.Runs
import Posix9.SocketCalls
import Posix9.Wire

/-! Who owns the endpoints. socket and accept take a slot and then open an endpoint for it, and every exit
    between the two gives back what has been taken by then; close gives back both. -/

namespace Posix9.SocketState

open Runs

variable {ot : OpenTransport} {s t u : SocketState ot} {i j : SockIdx} {a : SocketInput} {c : OTCall}
  {ep : EndpointRef} {P : OTCall → OTReply → Prop}

/-! ### The law -/

/-- Whether the library has an endpoint open: none from when it has opened one that it had open, or closed
    one that it had not. -/
def ledgerOf (ep : EndpointRef) : List OTRecord → Option Bool
  | [] => some false
  | .call (.OTOpenEndpoint _) r :: log =>
    if r.result = noErr ∧ r.ref = ep then if ledgerOf ep log = some false then some true else none
    else ledgerOf ep log
  | .call (.OTCloseProvider e) _ :: log =>
    if e = ep then if ledgerOf ep log = some true then some false else none
    else ledgerOf ep log
  | .call _ _ :: log => ledgerOf ep log
  | .event _ _ _ :: log => ledgerOf ep log

/-- Some slot in use has the endpoint. -/
def held (s : SocketState ot) (ep : EndpointRef) : Bool :=
  decide (∃ i, (s.socket_table i).inUse = true ∧ (s.socket_table i).ep = ep)

/-- The endpoints the library has open are those of the slots in use, one each, and no endpoint has been closed
    but once for each time it has been opened. -/
structure Corresponds (s : SocketState ot) : Prop where
  ledger : ∀ ep, ledgerOf ep s.log = some (s.held ep)
  distinct : ∀ i j, (s.socket_table i).inUse = true → (s.socket_table j).inUse = true →
    (s.socket_table i).ep = (s.socket_table j).ep → i = j
  isOpen : ∀ i, (s.socket_table i).inUse = true → (ot.endpoint s.net (s.socket_table i).ep).isOpen = true

/-- What a call returns, if it returns. -/
def result (s : SocketState ot) : SocketCall → Option ℤ
  | .socket domain type protocol => some (s.socket domain type protocol).1
  | .bind sockfd addr => some (s.bind sockfd addr).1
  | .listen sockfd backlog => some (s.listen sockfd backlog).1
  | .accept sockfd => (s.accept sockfd).bind fun res => res.1
  | .connect sockfd addr => (s.connect sockfd addr).map fun res => res.1
  | .send sockfd buf flags => (s.send sockfd buf flags).map fun res => res.1
  | .recv sockfd len => (s.recv sockfd len).map fun res => res.1.1
  | .sendto sockfd buf flags addr => (s.sendto sockfd buf flags addr).map fun res => res.1
  | .recvfrom sockfd len => (s.recvfrom sockfd len).map fun res => res.1.1
  | .shutdown sockfd how => some (s.shutdown sockfd how).1
  | .getsockopt sockfd level optname => some (s.getsockopt sockfd level optname).1.1
  | .select args now => (s.select args now).1.map fun res => (res.count : ℤ)
  | .close fd => some (s.posix9_close_socket fd).1
  | .fcntl fd cmd flags => some (s.fcntl fd cmd flags).1
  | .ioctl fd request val => some (s.ioctl fd request val).1.1

/-- Slot `i` and the endpoint `ep` go together into use (`has`) or out of it: the endpoint is opened or closed
    once, and every other slot and endpoint is as it was. -/
structure Moves (has : Bool) (i : SockIdx) (ep : EndpointRef) (s t : SocketState ot) : Prop where
  before : (s.socket_table i).inUse = !has
  after : (t.socket_table i).inUse = has
  inUse : ∀ j, j ≠ i → (t.socket_table j).inUse = (s.socket_table j).inUse
  others : ∀ j, j ≠ i → (s.socket_table j).inUse = true → (t.socket_table j).ep = (s.socket_table j).ep
  ledger : ∀ e, ledgerOf e t.log = if e = ep then some has else ledgerOf e s.log

/-- A socket, or an accept up to OTAccept, that succeeds has taken a slot with an endpoint newly opened for it; a
    close that returns 0 has closed the endpoint of its slot and freed the slot. -/
structure SucceedsOnce (s : SocketState ot) : Prop where
  socket : ∀ domain type protocol i, s.result (.socket domain type protocol) = some (sockFd i) →
    Moves true i ((s.stepCall (.socket domain type protocol)).socket_table i).ep s
      (s.stepCall (.socket domain type protocol))
  accept : ∀ fd t, s.accept fd = some (none, t) → ∃ i, Moves true i (t.socket_table i).ep s t
  close : ∀ fd, s.result (.close fd) = some 0 → ∃ i, s.get_socket fd = some i ∧
    Moves false i (s.socket_table i).ep s (s.stepCall (.close fd))

/-- A call that fails leaves the slots and the endpoints the library has open as they were. -/
def FailsClean (s : SocketState ot) : Prop :=
  s.underWay = none → ∀ c, s.result c = some (-1) →
    SameSlots s (s.stepCall c) ∧ ∀ ep, ledgerOf ep (s.stepCall c).log = ledgerOf ep s.log

/-! ### The ledger -/

theorem ledgerOf_plain (hc : plain c = true) (ep : EndpointRef) (r : OTReply) (log : List OTRecord) :
    ledgerOf ep (.call c r :: log) = ledgerOf ep log := by
  cases c <;> first
    | rfl
    | cases hc

theorem ledgerOf_made (h : Made (fun c _ => plain c = true) s t) (ep : EndpointRef) :
    ledgerOf ep t.log = ledgerOf ep s.log := by
  obtain ⟨l, hl, hplain⟩ := h
  rw [hl]
  clear hl
  induction l with
  | nil => rfl
  | cons record l ih =>
    have ih := ih fun c r h => hplain c r (List.mem_cons_of_mem _ h)
    cases record with
    | call c r => exact (ledgerOf_plain (hplain c r List.mem_cons_self) ep r _).trans ih
    | event => exact ih

theorem ledgerOf_open_failed {config : OTConfigurationRef} {r : OTReply} (h : r.result ≠ noErr)
    (ep : EndpointRef) (log : List OTRecord) :
    ledgerOf ep (.call (.OTOpenEndpoint config) r :: log) = ledgerOf ep log :=
  if_neg fun hopen => h hopen.1

theorem ledgerOf_open {config : OTConfigurationRef} {r : OTReply} (h : r.result = noErr) {log : List OTRecord}
    (hshut : ledgerOf r.ref log = some false) (ep : EndpointRef) :
    ledgerOf ep (.call (.OTOpenEndpoint config) r :: log) = if ep = r.ref then some true else ledgerOf ep log := by
  rw [ledgerOf]
  rcases eq_or_ne ep r.ref with rfl | hne
  · rw [if_pos ⟨h, rfl⟩, if_pos hshut, if_pos rfl]
  · rw [if_neg fun hopen => hne hopen.2.symm, if_neg hne]

theorem ledgerOf_close {e : EndpointRef} {log : List OTRecord} (hopen : ledgerOf e log = some true) (r : OTReply)
    (ep : EndpointRef) :
    ledgerOf ep (.call (.OTCloseProvider e) r :: log) = if ep = e then some false else ledgerOf ep log := by
  rw [ledgerOf]
  rcases eq_or_ne ep e with rfl | hne
  · rw [if_pos rfl, if_pos hopen, if_pos rfl]
  · rw [if_neg hne.symm, if_neg hne]

/-! ### What carries the law -/

/-- Besides, no slot is in use in a table that has not been initialised, or without an endpoint. -/
structure Owned (s : SocketState ot) : Prop extends Corresponds s where
  initialized : ∀ i, (s.socket_table i).inUse = true → s.socket_table_initialized = true
  valid : ∀ i, (s.socket_table i).inUse = true → (s.socket_table i).ep ≠ kOTInvalidEndpointRef

theorem Owned.start (net : ot.State) : (start net).Owned where
  ledger ep := by
    refine congrArg some (decide_eq_false ?_).symm
    rintro ⟨i, hi, -⟩
    cases hi
  distinct _ _ h := by cases h
  isOpen _ h := by cases h
  initialized _ h := by cases h
  valid _ h := by cases h

/-! ### What a call can do -/

/-- No slot in use has the endpoint a call opens. -/
def Apart (s : SocketState ot) : OTCall → OTReply → Prop
  | .OTOpenEndpoint _, r =>
    r.result = noErr → ∀ j, (s.socket_table j).inUse = true → (s.socket_table j).ep ≠ r.ref
  | _, _ => True

/-- A call of Open Transport made for an input. -/
structure Issued (s : SocketState ot) (a : SocketInput) (c : OTCall) (r : OTReply) : Prop where
  makes : a.makes c = true
  apart : s.Apart c r

/-- A call of the line of the table that neither opens nor closes. -/
abbrev Plainly (a : SocketInput) (c : OTCall) (_ : OTReply) : Prop := a.makes c = true ∧ plain c = true

theorem issued_plain (hc : plain c = true) (ha : a.makes c = true) (r : OTReply) : Issued s a c r := by
  refine ⟨ha, ?_⟩
  cases c <;> trivial

/-- The slots and the endpoints held are as before. -/
structure Balanced (a : SocketInput) (s t : SocketState ot) : Prop extends Keeps (Issued s a) s t where
  ledger : ∀ ep, ledgerOf ep t.log = ledgerOf ep s.log

/-- Slot `i` and an endpoint for it have been taken. -/
structure Takes (a : SocketInput) (i : SockIdx) (s t : SocketState ot) : Prop where
  made : Made (Issued s a) s t
  free : (s.socket_table i).inUse = false
  taken : (t.socket_table i).inUse = true
  initialized : t.socket_table_initialized = true
  valid : (t.socket_table i).ep ≠ kOTInvalidEndpointRef
  isOpen : (ot.endpoint t.net (t.socket_table i).ep).isOpen = true
  shut : (ot.endpoint s.net (t.socket_table i).ep).isOpen = false
  inUse : ∀ j, j ≠ i → (t.socket_table j).inUse = (s.socket_table j).inUse
  ep : ∀ j, j ≠ i → (s.socket_table j).inUse = true → (t.socket_table j).ep = (s.socket_table j).ep
  stays : ∀ e, (ot.endpoint s.net e).isOpen = true → (ot.endpoint t.net e).isOpen = true
  ledger : ∀ ep, ledgerOf ep t.log = if ep = (t.socket_table i).ep then some true else ledgerOf ep s.log

/-- Slot `i` and its endpoint have been given back. -/
structure Returns (a : SocketInput) (i : SockIdx) (s t : SocketState ot) : Prop where
  made : Made (Issued s a) s t
  used : (s.socket_table i).inUse = true
  free : (t.socket_table i).inUse = false
  initialized : s.socket_table_initialized = true → t.socket_table_initialized = true
  inUse : ∀ j, j ≠ i → (t.socket_table j).inUse = (s.socket_table j).inUse
  ep : ∀ j, j ≠ i → (s.socket_table j).inUse = true → (t.socket_table j).ep = (s.socket_table j).ep
  stays : ∀ e, e ≠ (s.socket_table i).ep → (ot.endpoint s.net e).isOpen = true →
    (ot.endpoint t.net e).isOpen = true
  ledger : ∀ ep, ledgerOf ep t.log = if ep = (s.socket_table i).ep then some false else ledgerOf ep s.log

theorem Takes.moves (h : Takes a i s t) : Moves true i (t.socket_table i).ep s t :=
  ⟨h.free, h.taken, h.inUse, h.ep, h.ledger⟩

theorem Returns.moves (h : Returns a i s t) : Moves false i (s.socket_table i).ep s t :=
  ⟨h.used, h.free, h.inUse, h.ep, h.ledger⟩

/-! ### One call keeps the law -/

theorem SameSlots.held (h : SameSlots s t) (ep : EndpointRef) : t.held ep = s.held ep := by
  rw [SocketState.held, SocketState.held, decide_eq_decide]
  refine exists_congr fun j => ?_
  rw [h.inUse j]
  exact and_congr_right fun hj => by rw [h.ep j hj]

theorem Balanced.owned (h : Balanced a s t) (hs : s.Owned) : t.Owned where
  ledger ep := by rw [h.ledger, hs.ledger, h.toSameSlots.held]
  distinct i j hi hj hep := by
    rw [h.inUse] at hi hj
    rw [h.ep i hi, h.ep j hj] at hep
    exact hs.distinct i j hi hj hep
  isOpen i hi := by
    rw [h.inUse] at hi
    rw [h.ep i hi]
    exact h.stays _ (hs.isOpen i hi)
  initialized i hi := by
    rw [h.inUse] at hi
    exact h.initialized (hs.initialized i hi)
  valid i hi := by
    rw [h.inUse] at hi
    rw [h.ep i hi]
    exact hs.valid i hi

/-- No slot in use has an endpoint that is not open. -/
theorem Owned.ne_of_shut (hs : s.Owned) {e : EndpointRef} (hshut : (ot.endpoint s.net e).isOpen = false)
    (hj : (s.socket_table j).inUse = true) : (s.socket_table j).ep ≠ e := by
  rintro rfl
  rw [hs.isOpen j hj] at hshut
  cases hshut

theorem Takes.owned (h : Takes a i s t) (hs : s.Owned) : t.Owned := by
  have hold : ∀ j, j ≠ i → (t.socket_table j).inUse = true →
      (s.socket_table j).inUse = true ∧ (t.socket_table j).ep = (s.socket_table j).ep := by
    intro j hne hj
    rw [h.inUse j hne] at hj
    exact ⟨hj, h.ep j hne hj⟩
  refine ⟨⟨fun ep => ?_, fun j k hj hk hep => ?_, fun j hj => ?_⟩, fun _ _ => h.initialized, fun j hj => ?_⟩
  · rw [h.ledger]
    split
    case isTrue hep =>
      subst hep
      exact congrArg some (decide_eq_true ⟨i, h.taken, rfl⟩).symm
    case isFalse hep =>
      rw [hs.ledger, SocketState.held, SocketState.held]
      refine congrArg some (decide_eq_decide.mpr ⟨?_, ?_⟩)
      · rintro ⟨j, hj, rfl⟩
        have hne := ne_of_inUse h.free hj
        exact ⟨j, (h.inUse j hne).trans hj, h.ep j hne hj⟩
      · rintro ⟨j, hj, rfl⟩
        have hne : j ≠ i := by
          rintro rfl
          exact hep rfl
        obtain ⟨hj, hjep⟩ := hold j hne hj
        exact ⟨j, hj, hjep.symm⟩
  · rcases eq_or_ne j i with hji | hji <;> rcases eq_or_ne k i with hki | hki
    · exact hji.trans hki.symm
    · subst hji
      obtain ⟨hk, hkep⟩ := hold k hki hk
      exact absurd (hkep.symm.trans hep.symm) (hs.ne_of_shut h.shut hk)
    · subst hki
      obtain ⟨hj, hjep⟩ := hold j hji hj
      exact absurd (hjep.symm.trans hep) (hs.ne_of_shut h.shut hj)
    · obtain ⟨hj, hjep⟩ := hold j hji hj
      obtain ⟨hk, hkep⟩ := hold k hki hk
      exact hs.distinct j k hj hk ((hjep.symm.trans hep).trans hkep)
  · rcases eq_or_ne j i with rfl | hji
    · exact h.isOpen
    · obtain ⟨hj, hjep⟩ := hold j hji hj
      exact hjep ▸ h.stays _ (hs.isOpen j hj)
  · rcases eq_or_ne j i with rfl | hji
    · exact h.valid
    · obtain ⟨hj, hjep⟩ := hold j hji hj
      exact hjep ▸ hs.valid j hj

theorem Returns.owned (h : Returns a i s t) (hs : s.Owned) : t.Owned := by
  have hold : ∀ j, (t.socket_table j).inUse = true → j ≠ i ∧ (s.socket_table j).inUse = true ∧
      (t.socket_table j).ep = (s.socket_table j).ep := by
    intro j hj
    have hne := ne_of_inUse h.free hj
    rw [h.inUse j hne] at hj
    exact ⟨hne, hj, h.ep j hne hj⟩
  refine ⟨⟨fun ep => ?_, fun j k hj hk hep => ?_, fun j hj => ?_⟩, fun j hj => ?_, fun j hj => ?_⟩
  · rw [h.ledger]
    split
    case isTrue hep =>
      subst hep
      refine congrArg some (decide_eq_false ?_).symm
      rintro ⟨j, hj, hep⟩
      obtain ⟨hne, hj, hjep⟩ := hold j hj
      exact hne (hs.distinct j i hj h.used (hjep.symm.trans hep))
    case isFalse hep =>
      rw [hs.ledger, SocketState.held, SocketState.held]
      refine congrArg some (decide_eq_decide.mpr ⟨?_, ?_⟩)
      · rintro ⟨j, hj, rfl⟩
        have hne : j ≠ i := by
          rintro rfl
          exact hep rfl
        exact ⟨j, (h.inUse j hne).trans hj, h.ep j hne hj⟩
      · rintro ⟨j, hj, rfl⟩
        obtain ⟨-, hj, hjep⟩ := hold j hj
        exact ⟨j, hj, hjep.symm⟩
  · obtain ⟨-, hj, hjep⟩ := hold j hj
    obtain ⟨-, hk, hkep⟩ := hold k hk
    exact hs.distinct j k hj hk ((hjep.symm.trans hep).trans hkep)
  · obtain ⟨hne, hj, hjep⟩ := hold j hj
    rw [hjep]
    exact h.stays _ (fun hep => hne (hs.distinct j i hj h.used hep)) (hs.isOpen j hj)
  · exact h.initialized (hs.initialized j (hold j hj).2.1)
  · obtain ⟨-, hj, hjep⟩ := hold j hj
    exact hjep ▸ hs.valid j hj

/-! ### Stretches -/

/-- Inputs that open and close nothing. -/
theorem Keeps.balanced (hplain : ∀ c, a.makes c = true → plain c = true) (h : Keeps (Allowed a) s t) :
    Balanced a s t where
  toKeeps := h.mono fun c r hc => issued_plain (hplain c hc) hc r
  ledger ep := ledgerOf_made (h.made.mono fun c _ hc => hplain c hc) ep

theorem Balanced.refl (s : SocketState ot) : Balanced a s s := ⟨.refl s, fun _ => rfl⟩

theorem Balanced.setErrno (hst : Balanced a s t) (e : ℤ) : Balanced a s (t.setErrno e) :=
  ⟨hst.toKeeps.setErrno e, hst.ledger⟩

/-- A stretch of plain calls behind it. -/
theorem Balanced.trans (hst : Balanced a s t) (htu : Keeps (Plainly a) t u) : Balanced a s u where
  toKeeps := hst.toKeeps.trans (htu.mono fun _ r hc => issued_plain hc.2 hc.1 r)
  ledger ep := (ledgerOf_made (htu.made.mono fun _ _ hc => hc.2) ep).trans (hst.ledger ep)

/-- A free slot taken and given back before an endpoint has been opened. -/
theorem Balanced.free (hst : Balanced a s t) (hfree : (t.socket_table i).inUse = false) :
    Balanced a s ((t.updateEntry i fun _ => { SocketEntry.zero with inUse := true }).free_socket i) := by
  rw [free_socket, updateEntry_updateEntry]
  exact ⟨⟨hst.toSameSlots.trans (.update_free hfree rfl), hst.made, hst.stays, hst.initialized⟩, hst.ledger⟩

theorem Takes.trans (hst : Takes a i s t) (htu : Keeps (Plainly a) t u) : Takes a i s u := by
  have hep := htu.ep i hst.taken
  refine ⟨hst.made.trans (htu.made.mono fun _ r hc => issued_plain hc.2 hc.1 r), hst.free,
    (htu.inUse i).trans hst.taken, htu.initialized hst.initialized, ?_, ?_, ?_,
    fun j hne => (htu.inUse j).trans (hst.inUse j hne),
    fun j hne hj => (htu.ep j ((hst.inUse j hne).trans hj)).trans (hst.ep j hne hj),
    fun e he => htu.stays e (hst.stays e he), fun ep => ?_⟩ <;> rw [hep]
  · exact hst.valid
  · exact htu.stays _ hst.isOpen
  · exact hst.shut
  · exact (ledgerOf_made (htu.made.mono fun _ _ hc => hc.2) ep).trans (hst.ledger ep)

/-- What has been taken is given back. -/
theorem Takes.giveBack (hot : ot.Lawful) (hs : s.Owned) (hst : Takes a i s t)
    (hclose : a.makes (.OTCloseProvider (t.socket_table i).ep) = true) :
    Balanced a s ((t.callOT (.OTCloseProvider (t.socket_table i).ep)).2.free_socket i) where
  inUse j := by
    rcases eq_or_ne j i with rfl | hne
    · rw [free_socket_inUse, hst.free]
    · rw [free_socket_of_ne hne, callOT_table, hst.inUse j hne]
  ep j hj := by
    have hne : j ≠ i := ne_of_inUse hst.free hj
    rw [free_socket_of_ne hne, callOT_table, hst.ep j hne hj]
  made := by
    have hissued : Issued s a (.OTCloseProvider (t.socket_table i).ep)
        (t.callOT (.OTCloseProvider (t.socket_table i).ep)).1 := ⟨hclose, trivial⟩
    exact (hst.made.trans (.call hissued)).trans (.of_log rfl)
  stays e he := by
    have hne : e ∉ OTCall.names (.OTCloseProvider (t.socket_table i).ep) := by
      intro hmem
      rw [List.mem_singleton.mp hmem, hst.shut] at he
      cases he
    exact (congrArg Endpoint.isOpen (hot.frame _ t.net e hne (by simp))).trans (hst.stays e he)
  initialized _ := hst.initialized
  ledger ep := by
    have hopen := hst.ledger (t.socket_table i).ep
    rw [if_pos rfl] at hopen
    have hshut : ledgerOf (t.socket_table i).ep s.log = some false := by
      rw [hs.ledger]
      refine congrArg some (decide_eq_false ?_)
      rintro ⟨j, hj, hep⟩
      exact hs.ne_of_shut hst.shut hj hep
    refine (ledgerOf_close hopen _ ep).trans ?_
    rcases eq_or_ne ep (t.socket_table i).ep with rfl | hne
    · rw [if_pos rfl, hshut]
    · rw [if_neg hne, hst.ledger, if_neg hne]

/-! ### socket -/

/-- A free slot marked as in use and given back where no endpoint can be opened for it. -/
theorem opened_balanced (hot : ot.Lawful) (hst : Balanced a s t) (hfree : (t.socket_table i).inUse = false)
    {config : OTConfigurationRef} (hopen : a.makes (.OTOpenEndpoint config) = true)
    (hres : (ot.call (.OTOpenEndpoint config) t.net).1.result ≠ noErr) :
    Balanced a s ((t.opened i config).free_socket i) := by
  rw [opened, callOT_updateEntry, free_socket, updateEntry_updateEntry, updateEntry_updateEntry]
  have hissued : Issued s a (.OTOpenEndpoint config) (t.callOT (.OTOpenEndpoint config)).1 :=
    ⟨hopen, fun hok => absurd hok hres⟩
  have hcall : SameSlots s (t.callOT (.OTOpenEndpoint config)).2 := hst.toSameSlots.trans (.of_table rfl)
  refine ⟨⟨hcall.trans (.update_free hfree ?_), hst.made.trans (.trans (.call hissued) (.of_log rfl)),
    fun e he => ?_, hst.initialized⟩, fun ep => (ledgerOf_open_failed hres ep _).trans (hst.ledger ep)⟩
  · rfl
  change (ot.endpoint (ot.call _ t.net).2 e).isOpen = true
  rw [hot.open_failed config t.net hres]
  exact hst.stays e he

/-- It is taken where one can. -/
theorem opened_takes (hot : ot.Lawful) (hs : s.Owned) (hst : Balanced a s t)
    (hfree : (t.socket_table i).inUse = false) (hinit : t.socket_table_initialized = true)
    {config : OTConfigurationRef} (hopen : a.makes (.OTOpenEndpoint config) = true)
    (hres : (ot.call (.OTOpenEndpoint config) t.net).1.result = noErr) : Takes a i s (t.opened i config) := by
  obtain ⟨hvalid, hshutt, hnew, -⟩ := hot.opened config t.net hres
  have hshut : (ot.endpoint s.net (ot.call (.OTOpenEndpoint config) t.net).1.ref).isOpen = false := by
    refine Bool.eq_false_iff.mpr fun hisOpen => ?_
    rw [hst.stays _ hisOpen] at hshutt
    cases hshutt
  have hledger : ledgerOf (ot.call (.OTOpenEndpoint config) t.net).1.ref t.log = some false := by
    rw [hst.ledger, hs.ledger]
    refine congrArg some (decide_eq_false ?_)
    rintro ⟨j, hj, hep⟩
    exact hs.ne_of_shut hshut hj hep
  have hissued : Issued s a (.OTOpenEndpoint config) (t.callOT (.OTOpenEndpoint config)).1 :=
    ⟨hopen, fun _ j hj => hs.ne_of_shut hshut hj⟩
  have hep : ((t.opened i config).socket_table i).ep = (ot.call (.OTOpenEndpoint config) t.net).1.ref := by
    rw [opened_self]
  refine ⟨?_, (hst.inUse i).symm.trans hfree, by rw [opened_self], hinit, ?_, ?_, ?_, fun j hne => ?_,
    fun j hne hj => ?_, fun e he => ?_, fun ep => ?_⟩
  · exact hst.made.trans (.trans (.of_log rfl) (.trans (.call hissued) (.of_log rfl)))
  · exact hep ▸ hvalid
  · rw [hep]
    change (ot.endpoint (ot.call _ t.net).2 _).isOpen = true
    rw [hnew]
    rfl
  · exact hep ▸ hshut
  · rw [opened_of_ne config hne, hst.inUse j]
  · rw [opened_of_ne config hne, hst.ep j hj]
  · exact isOpen_opened hot config (hst.stays e he)
  · rw [hep]
    refine (ledgerOf_open hres hledger ep).trans ?_
    rw [hst.ledger]

theorem init_open_transport_keeps (hot : ot.Lawful) (s : SocketState ot)
    (hP : ∀ r, P .InitOpenTransport r) : Keeps P s s.init_open_transport.2 := by
  rw [init_open_transport]
  split
  · exact .refl s
  · have hcall : Keeps P s (s.callOT .InitOpenTransport).2 := .call hot rfl (hP _)
    dsimp only
    split
    · exact ⟨⟨hcall.inUse, hcall.ep⟩, hcall.made, hcall.stays, hcall.initialized⟩
    · exact hcall

/-- In a table that has not been initialised no slot is in use. -/
theorem init_socket_table_keeps (hs : s.Owned) (hst : SameSlots s t)
    (hinit : s.socket_table_initialized = true → t.socket_table_initialized = true) :
    Keeps P t t.init_socket_table := by
  by_cases ht : t.socket_table_initialized = true
  · rw [init_socket_table, if_pos ht]
    exact .refl t
  have hunused : ∀ j, (t.socket_table j).inUse = false := by
    intro j
    rw [hst.inUse j]
    exact Bool.eq_false_iff.mpr fun hj => ht (hinit (hs.initialized j hj))
  rw [init_socket_table, if_neg ht]
  refine ⟨⟨fun j => (hunused j).symm, fun j hj => ?_⟩, .of_log rfl, fun _ => id, fun _ => rfl⟩
  rw [hunused j] at hj
  cases hj

theorem openSocket_ends (hot : ot.Lawful) (hs : s.Owned) {domain type protocol : ℤ}
    (hst : Balanced (.call (.socket domain type protocol)) s t) (hfree : (t.socket_table i).inUse = false)
    (hinit : t.socket_table_initialized = true) (config : OTConfigurationRef) (protocol' : ℤ)
    (u : ℤ × SocketState ot) (hu : (t.updateEntry i fun _ => { SocketEntry.zero with inUse := true }).openSocket i
      config domain type protocol' = u) :
    u.1 = -1 ∧ Balanced (.call (.socket domain type protocol)) s u.2 ∨
      u.1 = sockFd i ∧ Takes (.call (.socket domain type protocol)) i s u.2 := by
  subst hu
  rw [openSocket]
  dsimp only
  by_cases hres : (ot.call (.OTOpenEndpoint config) t.net).1.result = noErr
  case neg =>
    rw [if_pos (.inl hres)]
    exact .inl ⟨rfl, (opened_balanced hot hst hfree rfl hres).setErrno _⟩
  case pos =>
    have htakes := opened_takes hot hs hst hfree hinit rfl hres
    have hinstall := htakes.trans (.call hot (c := .OTInstallNotifier ((t.opened i config).socket_table i).ep i)
      rfl ⟨rfl, rfl⟩)
    have hback := hinstall.giveBack hot hs rfl
    have hset := hinstall.trans (.call hot (c := .OTSetSynchronous ((t.opened i config).socket_table i).ep)
      rfl ⟨rfl, rfl⟩)
    have hblock := hset.trans (.call hot (c := .OTSetBlocking ((t.opened i config).socket_table i).ep)
      rfl ⟨rfl, rfl⟩)
    have hdone := hblock.trans ((Keeps.refl _).update (i := i)
      (f := fun e => { e with domain, type, protocol := protocol', writable := true }) ⟨rfl, rfl⟩)
    simp only [opened_self, callOT_table] at hback hdone
    rw [if_neg (by exact not_or.mpr ⟨not_not.mpr hres, (hot.opened config t.net hres).1⟩)]
    split
    case isTrue => exact .inl ⟨rfl, hback.setErrno EIO⟩
    case isFalse => exact .inr ⟨rfl, hdone⟩

theorem socket_ends (hot : ot.Lawful) (hs : s.Owned) (domain type protocol : ℤ) :
    (s.socket domain type protocol).1 = -1 ∧
        Balanced (.call (.socket domain type protocol)) s (s.socket domain type protocol).2 ∨
      ∃ i, (s.socket domain type protocol).1 = sockFd i ∧
        Takes (.call (.socket domain type protocol)) i s (s.socket domain type protocol).2 := by
  have hopenOT : Balanced (.call (.socket domain type protocol)) s s.init_open_transport.2 :=
    (Balanced.refl s).trans (init_open_transport_keeps hot s fun _ => ⟨rfl, rfl⟩)
  have hinit := hopenOT.trans (init_socket_table_keeps hs hopenOT.toSameSlots hopenOT.initialized)
  obtain ⟨e, hsocket⟩ | ⟨e, hsocket⟩ | ⟨i, configStr, hfree, config, rfl, hend⟩ :=
    s.socket_cases domain type protocol
  · rw [hsocket]
    exact .inl ⟨rfl, hopenOT.setErrno e⟩
  · rw [hsocket]
    exact .inl ⟨rfl, hinit.setErrno e⟩
  have hconfig := hinit.trans (.call hot (c := .OTCreateConfiguration configStr) rfl ⟨rfl, rfl⟩)
  rcases hend with hsocket | ⟨protocol', hsocket⟩ <;> rw [hsocket]
  · exact .inl ⟨rfl, (hconfig.free hfree).setErrno _⟩
  rcases openSocket_ends hot hs hconfig hfree initialized_init _ protocol' _ rfl with hback | hdone
  · exact .inl hback
  · exact .inr ⟨i, hdone⟩

/-! ### accept -/

theorem openAccepted_ends (hot : ot.Lawful) (hs : s.Owned) {fd : ℤ} (hst : Balanced (.call (.accept fd)) s t)
    (hfree : (t.socket_table j).inUse = false) (hinit : t.socket_table_initialized = true)
    (hi : (t.socket_table i).inUse = true) (call : TCall) (u : Option ℤ × SocketState ot)
    (hu : (t.updateEntry j fun _ => { SocketEntry.zero with inUse := true }).openAccepted i j call = u) :
    u.1 = some (-1) ∧ Balanced (.call (.accept fd)) s u.2 ∨ u.1 = none ∧ Takes (.call (.accept fd)) j s u.2 := by
  subst hu
  have hne : i ≠ j := ne_of_inUse hfree hi
  have hconfig := hst.trans (.call hot (c := .OTCreateConfiguration .kTCPName) rfl ⟨rfl, rfl⟩)
  rw [openAccepted, updateEntry_of_ne t _ hne]
  dsimp only
  by_cases hres : (ot.call (.OTOpenEndpoint (t.callOT (.OTCreateConfiguration .kTCPName)).1.ref)
      (t.callOT (.OTCreateConfiguration .kTCPName)).2.net).1.result = noErr
  case neg =>
    have hback := opened_balanced hot hconfig hfree rfl hres
    have hrefuse := hback.trans (.call hot (c := .OTSndDisconnect (t.socket_table i).ep (some call))
      rfl ⟨rfl, rfl⟩)
    rw [if_pos (by exact hres)]
    exact .inl ⟨rfl, hrefuse.setErrno _⟩
  case pos =>
    have htakes := opened_takes hot hs hconfig hfree hinit rfl hres
    have haccept := htakes.trans (.call hot (c := .OTAccept (t.socket_table i).ep
      (ot.call (.OTOpenEndpoint (t.callOT (.OTCreateConfiguration .kTCPName)).1.ref)
        (t.callOT (.OTCreateConfiguration .kTCPName)).2.net).1.ref call) rfl ⟨rfl, rfl⟩)
    have hback := haccept.giveBack hot hs rfl
    simp only [opened_self, callOT_table] at hback
    rw [if_neg (by exact not_not.mpr hres)]
    split
    case isTrue => exact .inl ⟨rfl, hback.setErrno _⟩
    case isFalse =>
      exact .inr ⟨rfl, haccept.trans ⟨.of_table rfl, .of_log rfl, fun _ => id, id⟩⟩

theorem accept_ends (hot : ot.Lawful) (hs : s.Owned) {fd : ℤ} {res : Option ℤ × SocketState ot}
    (haccept : s.accept fd = some res) :
    res.1 = some (-1) ∧ Balanced (.call (.accept fd)) s res.2 ∨
      ∃ j, res.1 = none ∧ Takes (.call (.accept fd)) j s res.2 := by
  obtain ⟨e, rfl⟩ | ⟨i, listened, hget, rfl, hend⟩ := accept_cases haccept
  · exact .inl ⟨rfl, (Balanced.refl s).setErrno e⟩
  have hi := get_socket_inUse hget
  have hlisten : Balanced (.call (.accept fd)) s (s.callOT (.OTListen (s.socket_table i).ep)).2 :=
    (Balanced.refl s).trans (.call hot rfl ⟨rfl, rfl⟩)
  have hbefore := hlisten.trans (init_socket_table_keeps hs hlisten.toSameSlots hlisten.initialized)
  obtain ⟨-, e, rfl⟩ | ⟨-, rfl | ⟨j, hfree, rfl⟩⟩ := hend
  · exact .inl ⟨rfl, hlisten.setErrno e⟩
  · have hrefuse := (hbefore.setErrno EMFILE).trans (.call hot (c := .OTSndDisconnect (s.socket_table i).ep
      (some (s.callOT (.OTListen (s.socket_table i).ep)).1.call)) rfl ⟨rfl, rfl⟩)
    exact .inl ⟨rfl, hrefuse⟩
  · rcases openAccepted_ends hot hs hbefore hfree initialized_init ((hbefore.inUse i).trans hi) _ _ rfl with
      hback | hdone
    · exact .inl hback
    · exact .inr ⟨j, hdone⟩

/-! ### close -/

theorem close_ends (hot : ot.Lawful) (hs : s.Owned) (fd : ℤ) :
    (s.posix9_close_socket fd).1 = -1 ∧ Balanced (.call (.close fd)) s (s.posix9_close_socket fd).2 ∨
      ∃ i, s.get_socket fd = some i ∧ (s.posix9_close_socket fd).1 = 0 ∧
        Returns (.call (.close fd)) i s (s.posix9_close_socket fd).2 := by
  rcases hget : s.get_socket fd with _ | i
  · rw [posix9_close_socket, hget]
    exact .inl ⟨rfl, (Balanced.refl s).setErrno EBADF⟩
  have hi := get_socket_inUse hget
  refine .inr ⟨i, rfl, ?_⟩
  rw [posix9_close_socket, hget]
  dsimp only
  rw [if_pos (hs.valid i hi)]
  -- The endpoint is disconnected first where the flag says it is connected.
  have hbefore : Balanced (.call (.close fd)) s (if (s.socket_table i).connected = true then
      (s.callOT (.OTSndDisconnect (s.socket_table i).ep none)).2 else s) := by
    split
    · exact (Balanced.refl s).trans (.call hot rfl ⟨rfl, rfl⟩)
    · exact .refl s
  generalize (if (s.socket_table i).connected = true then
    (s.callOT (.OTSndDisconnect (s.socket_table i).ep none)).2 else s) = t at hbefore
  have htable : ∀ k, k ≠ i →
      ((t.callOT (.OTCloseProvider (s.socket_table i).ep)).2.free_socket i).socket_table k = t.socket_table k :=
    fun k hne => free_socket_of_ne hne
  have hissued : Issued s (.call (.close fd)) (.OTCloseProvider (s.socket_table i).ep)
      (t.callOT (.OTCloseProvider (s.socket_table i).ep)).1 := ⟨rfl, trivial⟩
  have hopen : ledgerOf (s.socket_table i).ep t.log = some true := by
    rw [hbefore.ledger, hs.ledger]
    exact congrArg some (decide_eq_true ⟨i, hi, rfl⟩)
  refine ⟨rfl, (hbefore.made.trans (.call hissued)).trans (.of_log rfl), hi, free_socket_inUse, hbefore.initialized,
    fun k hne => by rw [htable k hne, hbefore.inUse k], fun k hne hk => by rw [htable k hne, hbefore.ep k hk],
    fun e hne he => ?_, fun ep => ?_⟩
  · have hmem : e ∉ OTCall.names (.OTCloseProvider (s.socket_table i).ep) := fun h => hne (List.mem_singleton.mp h)
    exact (congrArg Endpoint.isOpen (hot.frame _ t.net e hmem (by simp))).trans (hbefore.stays e he)
  · refine (ledgerOf_close hopen _ ep).trans ?_
    rw [hbefore.ledger]

/-! ### Runs -/

/-- The inputs that can open or close an endpoint. -/
def owns : SocketInput → Bool
  | .call (.socket ..) | .call (.accept _) | .call (.close _) => true
  | _ => false

theorem plain_of_makes (ha : owns a = false) (c : OTCall) (hc : a.makes c = true) : plain c = true := by
  rcases a with d | _ | _ | _
  · cases d <;> cases c <;> first
      | rfl
      | cases ha; done
      | cases hc
  all_goals cases c <;> first
    | rfl
    | cases hc

/-- A call leaves the slots and the endpoints as they were, or succeeds and takes or gives back one of each. -/
theorem call_ends (hot : ot.Lawful) (hs : s.Owned) (c : SocketCall) :
    Balanced (.call c) s (s.stepCall c) ∨ ∃ i, s.result c ≠ some (-1) ∧
      (Takes (.call c) i s (s.stepCall c) ∨ Returns (.call c) i s (s.stepCall c)) := by
  cases c with
  | socket domain type protocol =>
    rcases socket_ends hot hs domain type protocol with ⟨-, hback⟩ | ⟨i, hres, htakes⟩
    · exact .inl hback
    · refine .inr ⟨i, fun hfail => ?_, .inl htakes⟩
      have hfd := hres.symm.trans (Option.some.inj hfail)
      simp only [sockFd, SOCKET_FD_BASE] at hfd
      omega
  | accept sockfd =>
    rcases haccept : s.accept sockfd with _ | res
    · rw [stepCall, haccept]
      exact .inl (.refl s)
    · rw [stepCall, result, haccept]
      rcases accept_ends hot hs haccept with ⟨-, hback⟩ | ⟨j, hres, htakes⟩
      · exact .inl hback
      · refine .inr ⟨j, fun hfail => ?_, .inl htakes⟩
        rw [Option.bind_some, hres] at hfail
        cases hfail
  | close fd =>
    rcases close_ends hot hs fd with ⟨-, hback⟩ | ⟨i, -, hres, hreturns⟩
    · exact .inl hback
    · refine .inr ⟨i, fun hfail => ?_, .inr hreturns⟩
      cases hres.symm.trans (Option.some.inj hfail)
  | bind sockfd addr => exact .inl ((bind_keeps hot s sockfd addr).balanced (plain_of_makes rfl))
  | listen sockfd backlog => exact .inl ((listen_keeps hot s sockfd backlog).balanced (plain_of_makes rfl))
  | connect sockfd addr => exact .inl ((connect_keeps hot s sockfd addr).balanced (plain_of_makes rfl))
  | send sockfd buf flags => exact .inl ((send_keeps hot s sockfd buf flags).balanced (plain_of_makes rfl))
  | recv sockfd len => exact .inl ((recv_keeps hot s sockfd len).balanced (plain_of_makes rfl))
  | sendto sockfd buf flags addr =>
    exact .inl ((sendto_keeps hot s sockfd buf flags addr).balanced (plain_of_makes rfl))
  | recvfrom sockfd len => exact .inl ((recvfrom_keeps hot s sockfd len).balanced (plain_of_makes rfl))
  | shutdown sockfd how => exact .inl ((shutdown_keeps hot s sockfd how).balanced (plain_of_makes rfl))
  | getsockopt sockfd level optname =>
    exact .inl ((getsockopt_keeps s sockfd level optname).balanced (plain_of_makes rfl))
  | select args now => exact .inl ((select_keeps hot s args now).balanced (plain_of_makes rfl))
  | fcntl fd cmd flags => exact .inl ((fcntl_keeps hot s fd cmd flags).balanced (plain_of_makes rfl))
  | ioctl fd request val => exact .inl ((ioctl_keeps hot s fd request val).balanced (plain_of_makes rfl))

/-- Every input leaves each open endpoint with its slot. -/
theorem step_ends (hot : ot.Lawful) (hs : s.Owned) (a : SocketInput) :
    Balanced a s (s.step a) ∨ ∃ i, Takes a i s (s.step a) ∨ Returns a i s (s.step a) := by
  cases a with
  | call c =>
    rw [step]
    split
    · exact .inl (.refl s)
    · rcases call_ends hot hs c with h | ⟨i, -, h⟩
      · exact .inl h
      · exact .inr ⟨i, h⟩
  | installs =>
    rw [step]
    split
    · exact .inl ((acceptInstalls_keeps hot s _).balanced (plain_of_makes rfl))
    · exact .inl (.refl s)
  | stores => exact .inl ((stores_keeps s).balanced (plain_of_makes rfl))
  | arrival ep a => exact .inl ((arrive_keeps_slots hot s ep a).balanced (plain_of_makes rfl))

theorem Owned.step (hot : ot.Lawful) (hs : s.Owned) (a : SocketInput) : (s.step a).Owned := by
  rcases step_ends hot hs a with h | ⟨i, h | h⟩
  · exact h.owned hs
  · exact h.owned hs
  · exact h.owned hs

/-- What a step adds to the log. -/
theorem made_step (hot : ot.Lawful) (hs : s.Owned) (a : SocketInput) : Made (Issued s a) s (s.step a) := by
  rcases step_ends hot hs a with h | ⟨i, h | h⟩
  · exact h.made
  · exact h.made
  · exact h.made

theorem Owned.failsClean (hot : ot.Lawful) (hs : s.Owned) : s.FailsClean := by
  intro _ c hfail
  rcases call_ends hot hs c with h | ⟨i, hres, -⟩
  · exact ⟨h.toSameSlots, h.ledger⟩
  · exact absurd hfail hres

/-- A call that succeeds opens or closes one endpoint. -/
theorem Owned.succeedsOnce (hot : ot.Lawful) (hs : s.Owned) : s.SucceedsOnce := by
  refine ⟨fun domain type protocol i hres => ?_, fun fd t haccept => ?_, fun fd hres => ?_⟩
  · have hresult : (s.socket domain type protocol).1 = sockFd i := Option.some.inj hres
    rcases socket_ends hot hs domain type protocol with ⟨hfail, -⟩ | ⟨j, hj, htakes⟩
    · have hfd := hresult.symm.trans hfail
      simp only [sockFd, SOCKET_FD_BASE] at hfd
      omega
    · obtain rfl := sockFd_injective (hresult.symm.trans hj)
      exact htakes.moves
  · rcases accept_ends hot hs haccept with ⟨hfail, -⟩ | ⟨j, -, htakes⟩
    · cases hfail
    · exact ⟨j, htakes.moves⟩
  · have hresult : (s.posix9_close_socket fd).1 = 0 := Option.some.inj hres
    rcases close_ends hot hs fd with ⟨hfail, -⟩ | ⟨i, hget, -, hreturns⟩
    · cases hresult.symm.trans hfail
    · exact ⟨i, hget, hreturns.moves⟩

/-- In every state of every run the endpoints the library has open are those of the slots in use, one each;
    a call that succeeds opens or closes one of them with its slot, and a call that fails leaves both as they
    were. -/
theorem endpoints_owned (hot : ot.Lawful) (net : ot.State) (inputs : List SocketInput) :
    Always step (fun s => s.Corresponds ∧ s.FailsClean ∧ s.SucceedsOnce) (start net) inputs :=
  (always_of_step (fun _ a hs => hs.step hot a) (Owned.start net) inputs).mono
    fun _ hs => ⟨hs.toCorresponds, hs.failsClean hot, hs.succeedsOnce hot⟩

/-- A socket opened, and closed twice. -/
theorem endpoints_owned_wire :
    Always step (fun s => s.Corresponds ∧ s.FailsClean ∧ s.SucceedsOnce) (@start wire Wire.idle)
      [.call (.socket AF_INET SOCK_STREAM 0), .call (.close 1000), .call (.close 1000)] :=
  endpoints_owned wire_lawful _ _

end Posix9.SocketState
