import Posix9.SocketFrames

/-! The indications that accept takes from a listener. Where there is no slot, or no endpoint for one, it rejects
    the connection with OTSndDisconnect; where OTAccept fails it gives back the endpoint and the slot, and leaves the
    indication with the listener. -/

namespace Posix9

/-- The indications that OTListen has returned and that neither OTAccept nor OTSndDisconnect has answered. -/
def unanswered : List OTRecord → List (EndpointRef × TCall)
  | [] => []
  | .call (.OTListen ep) r :: log => if r.result = noErr then (ep, r.call) :: unanswered log else unanswered log
  | .call (.OTAccept ep _ call) r :: log =>
    if r.result = noErr then (unanswered log).erase (ep, call) else unanswered log
  | .call (.OTSndDisconnect ep (some call)) _ :: log => (unanswered log).erase (ep, call)
  | .call _ _ :: log => unanswered log
  | .event _ _ _ :: log => unanswered log

namespace SocketState

open Runs

variable {ot : OpenTransport} {s t : SocketState ot} {i : SockIdx} {a : SocketInput} {c : OTCall} {r : OTReply}

/-! ### The law -/

/-- An OTAccept that succeeds is that of an accept which goes on, with the endpoint in a slot. -/
def Connects (t : SocketState ot) : OTCall → OTReply → Prop
  | .OTAccept _ e _, r => r.result = noErr → ∃ acc ∈ t.accepting, (t.socket_table acc.newsock).ep = e
  | _, _ => True

/-- The step leaves no indication unanswered; one that it accepts is on its way to a descriptor, which stays its own
    when the notifier is installed, and the descriptor that accept returns is connected. -/
structure Answers (s : SocketState ot) (a : SocketInput) : Prop where
  left : unanswered (s.step a).log = []
  connects : Made (s.step a).Connects s (s.step a)
  goesOn : a = .installs → ∀ acc ∈ s.accepting, acc ∈ (s.step a).accepted
  returned : a = .stores → ∀ acc ∈ s.accepted, (s.acceptReturns acc).1.1 = sockFd acc.newsock ∧
    ((s.step a).socket_table acc.newsock).inUse = true ∧ ((s.step a).socket_table acc.newsock).connected = true

/-- OTAccept succeeds. -/
def Grants : OTCall → OTReply → Prop
  | .OTAccept .., r => r.result = noErr
  | _, _ => True

/-- Open Transport grants the OTAccept that the step makes, if it makes one. -/
def Granted (s : SocketState ot) (a : SocketInput) : Prop := Made Grants s (s.step a)

/-! ### Calls that answer nothing -/

/-- The calls that neither take an indication nor answer one. -/
def silent : OTCall → Bool
  | .OTListen _ | .OTAccept .. | .OTSndDisconnect _ (some _) => false
  | _ => true

theorem unanswered_silent (hc : silent c = true) (r : OTReply) (log : List OTRecord) :
    unanswered (.call c r :: log) = unanswered log := by
  cases c with
  | OTListen | OTAccept => cases hc
  | OTSndDisconnect ep call =>
    cases call with
    | none => rfl
    | some call => cases hc
  | _ => rfl

theorem unanswered_made (h : Made (fun c _ => silent c = true) s t) : unanswered t.log = unanswered s.log := by
  obtain ⟨l, hl, hsilent⟩ := h
  rw [hl]
  clear hl
  induction l with
  | nil => rfl
  | cons record l ih =>
    have ih := ih fun c r h => hsilent c r (List.mem_cons_of_mem _ h)
    cases record with
    | call c r => exact (unanswered_silent (hsilent c r List.mem_cons_self) r _).trans ih
    | event => exact ih

/-- OTAccept is the one call that can be refused, and the one that connects. -/
def isAccept : OTCall → Bool
  | .OTAccept .. => true
  | _ => false

theorem grants_other (hc : isAccept c = false) (r : OTReply) : Grants c r := by
  cases c with
  | OTAccept => cases hc
  | _ => trivial

theorem connects_other (hc : isAccept c = false) (r : OTReply) : t.Connects c r := by
  cases c with
  | OTAccept => cases hc
  | _ => trivial

theorem isAccept_of_silent (hc : silent c = true) : isAccept c = false := by
  cases c with
  | OTAccept => cases hc
  | _ => rfl

/-- All inputs but accept are silent. -/
theorem silent_of_makes (ha : ∀ fd, a ≠ .call (.accept fd)) (hc : a.makes c = true) : silent c = true := by
  rcases a with d | _ | _ | _
  · cases d with
    | accept fd => exact absurd rfl (ha fd)
    | close fd =>
      cases c with
      | OTSndDisconnect ep call =>
        cases call with
        | none => rfl
        | some call => cases hc
      | OTCloseProvider => rfl
      | _ => cases hc
    | _ => cases c <;> first
      | rfl
      | cases hc
  all_goals cases c <;> first
    | rfl
    | cases hc

/-! ### accept -/

/-- What a call of accept does with the indication it has taken, if it has taken one. -/
inductive Outcome (s t : SocketState ot) : Prop where
  /-- None, or it has rejected it. -/
  | settles (left : unanswered t.log = []) (made : Made (fun c _ => isAccept c = false) s t)
      (accepting : t.accepting = none) (accepted : t.accepted = none)
  /-- OTAccept has accepted it for the endpoint of a slot in use. -/
  | accepts (left : unanswered t.log = []) (grants : Made Grants s t) (connects : Made t.Connects s t)
      (inUse : ∀ acc ∈ t.accepting, (t.socket_table acc.newsock).inUse = true) (accepted : t.accepted = none)
  /-- OTAccept has failed. -/
  | leaves (left : unanswered t.log ≠ []) (refused : ¬ Made Grants s t)

section Exits

variable {u t' : SocketState ot} {ep e : EndpointRef} {call : TCall}

/-- The exits where there is no slot, or no endpoint. -/
theorem rejects_outcome (hleft : unanswered t.log = [(ep, call)]) (hmade : Made (fun c _ => isAccept c = false) u t)
    (hlog : t'.log = .call (.OTSndDisconnect ep (some call)) r :: t.log) (hidle : t'.underWay = none) :
    Outcome u t' := by
  refine .settles ?_ (hmade.trans ⟨[.call (.OTSndDisconnect ep (some call)) r], hlog, ?_⟩)
    (accepting_of_idle hidle) (accepted_of_idle hidle)
  · rw [hlog, unanswered, hleft]
    exact List.erase_cons_head _ _
  · intro c r hmem
    obtain ⟨rfl, -⟩ := OTRecord.call.inj (List.mem_singleton.mp hmem)
    rfl

/-- The exit where OTAccept fails. -/
theorem leaves_outcome {r' : OTReply} (hleft : unanswered t.log = [(ep, call)]) (hmade : Made (fun c _ => isAccept c = false) u t)
    (hlog : t'.log = .call (.OTCloseProvider e) r' :: .call (.OTAccept ep e call) r :: t.log)
    (hres : r.result ≠ noErr) : Outcome u t' := by
  refine .leaves ?_ fun hgrants => ?_
  · rw [hlog, unanswered_silent rfl, unanswered, if_neg hres, hleft]
    simp
  · obtain ⟨l, hl, -⟩ := hmade
    rw [hl] at hlog
    exact hres (hgrants.of_mem (l := .call (.OTCloseProvider e) r' :: .call (.OTAccept ep e call) r :: l) hlog
      (List.mem_cons_of_mem _ List.mem_cons_self))

/-- The one where accept goes on. -/
theorem accepts_outcome {acc : Accepting} (hleft : unanswered t.log = [(ep, call)])
    (hmade : Made (fun c _ => isAccept c = false) u t) (hlog : t'.log = .call (.OTAccept ep e call) r :: t.log)
    (hres : r.result = noErr) (hw : t'.underWay = some (.accepting acc)) (hep : (t'.socket_table acc.newsock).ep = e)
    (hused : (t'.socket_table acc.newsock).inUse = true) : Outcome u t' := by
  have hacc : t'.accepting = some acc := accepting_eq_some.mpr hw
  have hstep {P : OTCall → OTReply → Prop} (h : P (.OTAccept ep e call) r) : Made P t t' := by
    refine ⟨[.call (.OTAccept ep e call) r], hlog, fun c r hmem => ?_⟩
    obtain ⟨rfl, rfl⟩ := OTRecord.call.inj (List.mem_singleton.mp hmem)
    exact h
  refine .accepts ?_ ((hmade.mono fun c r hc => grants_other hc r).trans (hstep hres))
    ((hmade.mono fun c r hc => connects_other hc r).trans (hstep fun _ => ⟨acc, hacc, hep⟩))
    (fun acc' hacc' => ?_) (by rw [accepted, hw])
  · rw [hlog, unanswered, if_pos hres, hleft]
    exact List.erase_cons_head _ _
  · obtain rfl := Option.some.inj (hacc.symm.trans hacc')
    exact hused

end Exits

theorem openAccepted_answer {u : SocketState ot} {ep : EndpointRef} {newsock : SockIdx} {call : TCall}
    (hep : (s.socket_table i).ep = ep) (hused : (s.socket_table newsock).inUse = true)
    (hleft : unanswered s.log = [(ep, call)]) (hidle : s.underWay = none)
    (hmade : Made (fun c _ => isAccept c = false) u s) : Outcome u (s.openAccepted i newsock call).2 := by
  have hconfig : Made (fun c _ => silent c = true) s (s.callOT (.OTCreateConfiguration .kTCPName)).2 := .call rfl
  rw [openAccepted, hep]
  dsimp only
  generalize (s.callOT (.OTCreateConfiguration .kTCPName)).1.ref = config
  have hopen := hconfig.trans
    (.call (c := .OTOpenEndpoint config) (s := (s.callOT (.OTCreateConfiguration .kTCPName)).2) rfl)
  have hbefore := hmade.trans (hopen.mono fun c _ hc => isAccept_of_silent hc)
  have hleft := (unanswered_made hopen).trans hleft
  split
  · exact rejects_outcome hleft hbefore rfl hidle
  split
  · rename_i hres
    exact leaves_outcome hleft hbefore rfl hres
  · rename_i hres
    refine accepts_outcome hleft hbefore rfl (not_not.mp hres) rfl ?_ ?_
    · dsimp only
      rw [callOT_table, updateEntry_self]
    · dsimp only
      rw [callOT_table, updateEntry_self]
      exact hused

theorem accept_answer (hs : s.Owned) (hleft : unanswered s.log = []) (hidle : s.underWay = none) (fd : ℤ) :
    Outcome s (s.after (s.accept fd)) := by
  rcases haccept : s.accept fd with _ | res
  · exact .settles hleft (.of_log rfl) (accepting_of_idle hidle) (accepted_of_idle hidle)
  change Outcome s res.2
  obtain ⟨e, rfl⟩ | ⟨i, listened, hget, rfl, hend⟩ := accept_cases haccept
  · exact .settles hleft (.of_log rfl) (accepting_of_idle hidle) (accepted_of_idle hidle)
  have hlisten : Made (fun c _ => isAccept c = false) s (s.callOT (.OTListen (s.socket_table i).ep)).2 := .call rfl
  obtain ⟨hres, e, rfl⟩ | ⟨hres, hend⟩ := hend
  · refine .settles ?_ (hlisten.trans (.of_log rfl)) (accepting_of_idle hidle) (accepted_of_idle hidle)
    exact (if_neg hres).trans hleft
  have htaken : unanswered (s.callOT (.OTListen (s.socket_table i).ep)).2.log =
      [((s.socket_table i).ep, (s.callOT (.OTListen (s.socket_table i).ep)).1.call)] := by
    refine (if_pos hres).trans ?_
    rw [hleft]
    rfl
  have hi := get_socket_inUse hget
  have hinit : (s.callOT (.OTListen (s.socket_table i).ep)).2.init_socket_table =
      (s.callOT (.OTListen (s.socket_table i).ep)).2 := if_pos (hs.initialized i hi)
  rw [hinit] at hend
  obtain rfl | ⟨j, hfree, rfl⟩ := hend
  · exact rejects_outcome htaken hlisten rfl hidle
  · have hne : i ≠ j := ne_of_inUse hfree hi
    refine openAccepted_answer ?_ ?_ htaken hidle (hlisten.trans (.of_log rfl))
    · rw [updateEntry_of_ne _ _ hne]
      rfl
    · rw [updateEntry_self]

/-! ### Runs -/

/-- What the runs keep. -/
structure Served (s : SocketState ot) : Prop where
  owned : s.Owned
  left : unanswered s.log = []
  accepting : ∀ acc ∈ s.accepting, (s.socket_table acc.newsock).inUse = true
  accepted : ∀ acc ∈ s.accepted, (s.socket_table acc.newsock).inUse = true

theorem Served.start (net : ot.State) : (start net).Served :=
  ⟨.start net, rfl, fun _ h => (by cases h), fun _ h => (by cases h)⟩

/-- The slot that accept has filled stays in use until it returns. -/
theorem filled_other (hot : ot.Lawful) (hs : s.Served) (ha : ∀ fd, a ≠ .call (.accept fd)) :
    (∀ acc ∈ (s.step a).accepting, ((s.step a).socket_table acc.newsock).inUse = true) ∧
      ∀ acc ∈ (s.step a).accepted, ((s.step a).socket_table acc.newsock).inUse = true := by
  cases a with
  | call d =>
    rw [SocketState.step]
    split
    · exact ⟨hs.accepting, hs.accepted⟩
    · rename_i hidle
      obtain ⟨hnone, hnone'⟩ := stepCall_accepting hot hs.owned (Option.not_isSome_iff_eq_none.mp hidle)
        fun fd hd => ha fd (congrArg _ hd)
      rw [hnone, hnone']
      exact ⟨fun _ h => (by cases h), fun _ h => (by cases h)⟩
  | installs =>
    rw [SocketState.step]
    split
    · rename_i acc hw
      refine ⟨fun _ h => (by cases h), fun acc' h => ?_⟩
      obtain rfl : acc = acc' := Option.some.inj h
      exact hs.accepting acc (accepting_eq_some.mpr hw)
    · exact ⟨hs.accepting, hs.accepted⟩
  | stores =>
    rw [SocketState.step]
    rcases stores_cases s with hstores | ⟨-, i, f, hstores, -⟩ <;> rw [hstores]
    · exact ⟨hs.accepting, hs.accepted⟩
    · exact ⟨fun _ h => (by cases h), fun _ h => (by cases h)⟩
  | arrival ep a =>
    have hsteady : Steady (fun _ => False) s (s.arrive ep a) := arrive_steady s ep a
    have hinUse := (arrive_keeps_slots (P := fun _ _ => True) hot s ep a).inUse
    rw [SocketState.step, hsteady.accepting, hsteady.accepted]
    exact ⟨fun acc h => (hinUse _).trans (hs.accepting acc h), fun acc h => (hinUse _).trans (hs.accepted acc h)⟩

/-- What accept returns once it has stored. -/
theorem returned_other (hs : s.Served) : ∀ acc ∈ s.accepted,
    (s.acceptReturns acc).1.1 = sockFd acc.newsock ∧ ((s.step .stores).socket_table acc.newsock).inUse = true ∧
      ((s.step .stores).socket_table acc.newsock).connected = true := by
  intro acc hacc
  have hreturns : s.step .stores = (s.acceptReturns acc).2 := by
    rw [SocketState.step, stores, accepted_eq_some.mp hacc]
  refine ⟨rfl, ((stores_keeps (P := fun _ _ => True) s).inUse acc.newsock).trans (hs.accepted acc hacc), ?_⟩
  rw [hreturns, acceptReturns]
  dsimp only
  rw [updateEntry_self]

/-- Inputs other than accept keep all that is asked. -/
theorem served_other (hot : ot.Lawful) (hs : s.Served) (ha : ∀ fd, a ≠ .call (.accept fd)) :
    s.Granted a ∧ s.Answers a ∧ (s.step a).Served := by
  have hmade : Made (fun c _ => silent c = true) s (s.step a) :=
    (made_step hot hs.owned a).mono fun c _ hc => silent_of_makes ha hc.makes
  have hleft := (unanswered_made hmade).trans hs.left
  obtain ⟨haccepting, haccepted⟩ := filled_other hot hs ha
  refine ⟨hmade.mono fun c r hc => grants_other (isAccept_of_silent hc) r,
    ⟨hleft, hmade.mono fun c r hc => connects_other (isAccept_of_silent hc) r, ?_, ?_⟩,
    ⟨hs.owned.step hot a, hleft, haccepting, haccepted⟩⟩
  · rintro rfl acc hacc
    refine accepted_eq_some.mpr ?_
    rw [SocketState.step, accepting_eq_some.mp hacc]
    rfl
  · rintro rfl
    exact returned_other hs

/-- A call of accept is neither of the parts that follow it. -/
theorem answers_accept {fd : ℤ} (hleft : unanswered (s.step (.call (.accept fd))).log = [])
    (hconnects : Made (s.step (.call (.accept fd))).Connects s (s.step (.call (.accept fd)))) :
    s.Answers (.call (.accept fd)) := ⟨hleft, hconnects, fun h => (by cases h), fun h => (by cases h)⟩

theorem served_accept (hot : ot.Lawful) (hs : s.Served) (fd : ℤ) :
    (s.Answers (.call (.accept fd)) ↔ s.Granted (.call (.accept fd))) ∧
      (s.Granted (.call (.accept fd)) → (s.step (.call (.accept fd))).Served) := by
  rw [Granted]
  rcases hbusy : s.underWay with _ | w
  · have hstep : s.step (.call (.accept fd)) = s.after (s.accept fd) := by
      rw [step, hbusy]
      rfl
    have howned := hs.owned.step hot (.call (.accept fd))
    rcases accept_answer hs.owned hs.left hbusy fd with ⟨hleft, hmade, haccepting, haccepted⟩ |
      ⟨hleft, hgrants, hconnects, hused, haccepted⟩ | ⟨hleft, hrefused⟩ <;> rw [← hstep] at *
    · refine ⟨iff_of_true (answers_accept hleft (hmade.mono fun c r hc => connects_other hc r))
        (hmade.mono fun c r hc => grants_other hc r), fun _ => ⟨howned, hleft, fun acc h => ?_, fun acc h => ?_⟩⟩
      · rw [haccepting] at h
        cases h
      · rw [haccepted] at h
        cases h
    · refine ⟨iff_of_true (answers_accept hleft hconnects) hgrants, fun _ => ⟨howned, hleft, hused, fun acc h => ?_⟩⟩
      rw [haccepted] at h
      cases h
    · exact ⟨iff_of_false (fun h => hleft h.left) hrefused, fun h => absurd h hrefused⟩
  · have hstep : s.step (.call (.accept fd)) = s := by
      rw [step, hbusy]
      rfl
    have hanswers : s.Answers (.call (.accept fd)) :=
      answers_accept (hstep.symm ▸ hs.left) (hstep.symm ▸ .refl s)
    rw [hstep]
    exact ⟨iff_of_true hanswers (.refl s), fun _ => hs⟩

/-- In every run each indication that accept takes is accepted or rejected before accept returns, exactly if Open
    Transport grants each OTAccept. -/
theorem answers_iff_granted (hot : ot.Lawful) (net : ot.State) (inputs : List SocketInput) :
    Meets step Answers (start net) inputs ↔ Meets step Granted (start net) inputs := by
  have hboth : ∀ (s : SocketState ot) a, s.Served →
      (s.Answers a ↔ s.Granted a) ∧ (s.Granted a → (s.step a).Served) := by
    intro s a hs
    by_cases ha : ∃ fd, a = .call (.accept fd)
    · obtain ⟨fd, rfl⟩ := ha
      exact served_accept hot hs fd
    · obtain ⟨hgranted, hanswers, hserved⟩ := served_other hot hs fun fd h => ha ⟨fd, h⟩
      exact ⟨iff_of_true hanswers hgranted, fun _ => hserved⟩
  exact meets_iff (fun s a hs h => (hboth s a hs).2 h) (fun s a hs => (hboth s a hs).1) (.start net)

/-- A server with one client. -/
theorem answers_iff_granted_wire :
    Meets step Answers (start Wire.idle : SocketState wire)
        [.call (.socket AF_INET SOCK_STREAM 0), .call (.bind 1000 ⟨80, 0⟩), .call (.listen 1000 5),
          .arrival 1 (.indication ⟨⟨1025, 1⟩, 7⟩), .call (.accept 1000), .installs, .stores] ↔
      Meets step Granted (start Wire.idle : SocketState wire)
        [.call (.socket AF_INET SOCK_STREAM 0), .call (.bind 1000 ⟨80, 0⟩), .call (.listen 1000 5),
          .arrival 1 (.indication ⟨⟨1025, 1⟩, 7⟩), .call (.accept 1000), .installs, .stores] :=
  answers_iff_granted wire_lawful _ _

/-- An Open Transport that refuses every OTAccept, as it does when something else has arrived. -/
def refusing : OpenTransport :=
  { wire with
    call := fun c w => (if isAccept c then WireEnd.reply kOTLookErr else (Wire.call c w).1, (Wire.call c w).2) }

theorem refusing_lawful : refusing.Lawful where
  opened := wire_lawful.opened
  open_failed := wire_lawful.open_failed
  frame := wire_lawful.frame
  stays := wire_lawful.stays
  closed := wire_lawful.closed
  arrive_frame := wire_lawful.arrive_frame
  arrive_stays := wire_lawful.arrive_stays

/-- The indication stays with the listener. -/
theorem indication_left : refusing.Lawful ∧ ¬ Meets step Answers (start Wire.idle : SocketState refusing)
    [.call (.socket AF_INET SOCK_STREAM 0), .call (.bind 1000 ⟨80, 0⟩), .call (.listen 1000 5),
      .arrival 1 (.indication ⟨⟨1025, 1⟩, 7⟩), .call (.accept 1000)] := by
  refine ⟨refusing_lawful, fun h => ?_⟩
  have hleft := h.2.2.2.2.1.left
  revert hleft
  decide +kernel

end SocketState

end Posix9
