import Posix9.Endpoints

/-! Calls on endpoints that are not bound. XTI has OTConnect and OTSndUData only on a bound endpoint; connect and
    sendto make them as they come, for a socket that bind has not been called for as well. -/

namespace Posix9

/-- The endpoint that has to be bound for a call. -/
def OTCall.needsBound : OTCall → Option EndpointRef
  | .OTConnect ep _ | .OTSndUData ep _ _ => some ep
  | _ => none

/-- Each of these calls has been made on an endpoint that was bound by then. -/
def BoundCalls : List OTRecord → Prop
  | [] => True
  | .call c _ :: log => (∀ ep ∈ c.needsBound, (queueOf ep log).isSome = true) ∧ BoundCalls log
  | .event _ _ _ :: log => BoundCalls log

/-- The last of OTBind and OTUnbind to succeed on an endpoint, since it was opened, is OTUnbind. -/
def lost (ep : EndpointRef) : List OTRecord → Bool
  | [] => false
  | .call (.OTBind e _ _) r :: log => if e = ep ∧ r.result = noErr then false else lost ep log
  | .call (.OTUnbind e) r :: log => if e = ep ∧ r.result = noErr then true else lost ep log
  | .call (.OTOpenEndpoint _) r :: log => if r.ref = ep ∧ r.result = noErr then false else lost ep log
  | .call _ _ :: log => lost ep log
  | .event _ _ _ :: log => lost ep log

namespace SocketState

open Runs

variable {ot : OpenTransport} {s t : SocketState ot} {i j : SockIdx} {a : SocketInput} {v : View}
  {ep : EndpointRef} {log : List OTRecord}

/-! ### The law -/

/-- The call that connect or sendto waits in, if it does not return. -/
def waitsIn (s : SocketState ot) : SocketCall → Option OTCall
  | .connect fd addr => (s.get_socket fd).bind fun i =>
    if ot.waits (.OTConnect (s.socket_table i).ep addr) s.net then some (.OTConnect (s.socket_table i).ep addr)
    else none
  | .sendto fd buf _ addr => (s.get_socket fd).bind fun i =>
    if (s.socket_table i).type = SOCK_DGRAM ∧ ot.waits (.OTSndUData (s.socket_table i).ep addr buf) s.net then
      some (.OTSndUData (s.socket_table i).ep addr buf)
    else none
  | _ => none

/-- Every call the input makes that needs a bound endpoint, whether it returns or not, is made on one. -/
def CallsBound (s : SocketState ot) (a : SocketInput) : Prop :=
  BoundCalls (s.step a).log ∧ ∀ d, a = .call d → s.underWay = none →
    ∀ c ∈ s.waitsIn d, ∀ ep ∈ c.needsBound, (queueOf ep s.log).isSome = true

/-- bind has bound the socket, and no listen has left it unbound since. -/
def StillBound (s : SocketState ot) (i : SockIdx) : Prop :=
  (s.socket_table i).bound = true ∧ lost (s.socket_table i).ep s.log = false

instance (s : SocketState ot) (i : SockIdx) : Decidable (s.StillBound i) := inferInstanceAs (Decidable (_ ∧ _))

/-- connect, and sendto of a datagram socket, is called on such a socket. -/
def BindsFirst (s : SocketState ot) : SocketInput → Prop
  | .call (.connect fd _) => s.underWay = none → ∀ i ∈ s.get_socket fd, s.StillBound i
  | .call (.sendto fd _ _ _) => s.underWay = none → ∀ i ∈ s.get_socket fd,
    (s.socket_table i).type = SOCK_DGRAM → s.StillBound i
  | _ => True

/-! ### Bound, lost, and never bound -/

theorem lost_of_queueOf (h : (queueOf ep log).isSome = true) : lost ep log = false := by
  induction log with
  | nil => rfl
  | cons record log ih =>
    cases record with
    | call c r => cases c <;> simp only [queueOf, lost] at h ⊢ <;> grind
    | event => exact ih h

/-- The endpoint has been bound at some time since it was opened. -/
def Settled (ep : EndpointRef) (log : List OTRecord) : Prop := (queueOf ep log).isSome = true ∨ lost ep log = true

theorem Settled.made (hmade : Made (Issued s a) s t) (hi : (s.socket_table i).inUse = true)
    (h : Settled (s.socket_table i).ep s.log) : Settled (s.socket_table i).ep t.log := by
  obtain ⟨l, hl, hissued⟩ := hmade
  rw [hl]
  clear hl
  induction l with
  | nil => exact h
  | cons record l ih =>
    have ih := ih fun c r hc => hissued c r (List.mem_cons_of_mem _ hc)
    cases record with
    | call c r =>
      have hapart := (hissued c r List.mem_cons_self).apart
      cases c <;> simp only [Settled, List.cons_append, queueOf, lost] at ih ⊢ <;> grind [Apart]
    | event => exact ih

/-- A call that needs no bound endpoint. -/
theorem boundCalls_made (hmade : Made (fun c _ => c.needsBound = none) s t) (h : BoundCalls s.log) :
    BoundCalls t.log := by
  obtain ⟨l, hl, hnone⟩ := hmade
  rw [hl]
  clear hl
  induction l with
  | nil => exact h
  | cons record l ih =>
    have ih := ih fun c r hc => hnone c r (List.mem_cons_of_mem _ hc)
    cases record with
    | call c r =>
      refine ⟨fun ep hep => ?_, ih⟩
      rw [hnone c r List.mem_cons_self] at hep
      cases hep
    | event => exact ih

/-! ### What carries it -/

/-- The flag of a socket that is bound is set, and the endpoint of one with the flag has been bound. -/
structure BoundFlags (s : SocketState ot) : Prop where
  wired : s.Wired
  owned : s.Owned
  calls : BoundCalls s.log
  settled : ∀ i, (s.socket_table i).inUse = true → (s.socket_table i).bound = true →
    Settled (s.socket_table i).ep s.log
  unbound : ∀ i, (s.socket_table i).inUse = true → (s.socket_table i).bound = false →
    queueOf (s.socket_table i).ep s.log = none

theorem BoundFlags.start (net : ot.State) : (start net).BoundFlags where
  wired := (WellFormed.start net).toWired
  owned := .start net
  calls := trivial
  settled _ h := by cases h
  unbound _ h := by cases h

theorem BoundFlags.stillBound (h : s.BoundFlags) (hi : (s.socket_table i).inUse = true) :
    (queueOf (s.socket_table i).ep s.log).isSome = true ↔ s.StillBound i := by
  constructor
  · intro hqueue
    refine ⟨?_, lost_of_queueOf hqueue⟩
    by_contra hbound
    rw [h.unbound i hi (Bool.eq_false_iff.mpr hbound)] at hqueue
    cases hqueue
  · rintro ⟨hbound, hkept⟩
    refine (h.settled i hi hbound).resolve_right ?_
    rw [hkept]
    exact Bool.false_ne_true

/-- The flag is set where OTBind succeeds, and stays. -/
theorem turn_bound (hs : s.Wired) (h : Turn s a j v) :
    (v.bound = true → v.queue.isSome = true ∨
      (s.socket_table j).inUse = true ∧ (s.socket_table j).bound = true) ∧
    (v.bound = false → v.queue = none ∨
      (s.socket_table j).inUse = true ∧ (s.socket_table j).bound = false ∧ v.queue = (s.view j).queue) := by
  have hsame : ∀ w : View, (s.socket_table j).inUse = true → w.bound = (s.view j).bound →
      w.queue = (s.view j).queue → (w.bound = true → w.queue.isSome = true ∨
        (s.socket_table j).inUse = true ∧ (s.socket_table j).bound = true) ∧
      (w.bound = false → w.queue = none ∨
        (s.socket_table j).inUse = true ∧ (s.socket_table j).bound = false ∧ w.queue = (s.view j).queue) :=
    fun w hj hbound hqueue => ⟨fun h => .inr ⟨hj, hbound.symm.trans h⟩,
      fun h => .inr ⟨hj, hbound.symm.trans h, hqueue⟩⟩
  cases h with
  | same hj => exact hsame _ hj rfl rfl
  | opened | accepted =>
    refine ⟨fun hbound => ?_, fun _ => .inl rfl⟩
    cases hbound
  | installed _ hacc => exact hsame _ (hs.accepting_inUse hacc) rfl rfl
  | acceptStored _ hj | connectStored _ hj | recvStored _ hj => exact hsame _ hj rfl rfl
  | bound =>
    refine ⟨fun _ => .inl rfl, fun hbound => ?_⟩
    cases hbound
  | rebound _ hget _ hbound => exact ⟨fun _ => .inl rfl, fun hnot => absurd (hbound.symm.trans hnot) (by simp)⟩
  | rebindFailed hget _ hbound =>
    exact ⟨fun _ => .inr ⟨get_socket_inUse hget, hbound⟩, fun hnot => absurd (hbound.symm.trans hnot) (by simp)⟩
  | bindFailed hget | listening hget | connected hget | connectFailed hget =>
    exact hsame _ (get_socket_inUse hget) rfl rfl
  | received hreceipt | receivedNone hreceipt => exact hsame _ (receipt_inUse hreceipt) rfl rfl
  | receivedUnit _ hget => exact hsame _ (get_socket_inUse hget) rfl rfl
  | arrived hj _ => exact hsame _ hj (View.arrived_bound ..) (View.arrived_queue ..)

/-- A socket keeps its endpoint. -/
theorem step_ep (hot : ot.Lawful) (hs : s.Owned) (a : SocketInput) (hj : (s.socket_table j).inUse = true)
    (hj' : ((s.step a).socket_table j).inUse = true) :
    ((s.step a).socket_table j).ep = (s.socket_table j).ep := by
  rcases step_ends hot hs a with h | ⟨i, h | h⟩
  · exact h.ep j hj
  · exact h.ep j (ne_of_inUse h.free hj) hj
  · exact h.ep j (ne_of_inUse h.free hj') hj

theorem BoundFlags.step (hot : ot.Lawful) (hstr : ot.Streams) (h : s.BoundFlags) (a : SocketInput)
    (hcalls : BoundCalls (s.step a).log) : (s.step a).BoundFlags := by
  have hturns := turns_step hot hstr h.wired a
  have hmade := made_step hot h.owned a
  refine ⟨hturns.wired, h.owned.step hot a, hcalls, fun j hj hbound => ?_, fun j hj hbound => ?_⟩
  · rcases (turn_bound h.wired (hturns.turn j hj)).1 hbound with hqueue | ⟨hj', hbefore⟩
    · exact .inl hqueue
    · rw [step_ep hot h.owned a hj' hj]
      exact (h.settled j hj' hbefore).made hmade hj'
  · rcases (turn_bound h.wired (hturns.turn j hj)).2 hbound with hqueue | ⟨hj', hbefore, hqueue⟩
    · exact hqueue
    · exact hqueue.trans (h.unbound j hj' hbefore)

/-! ### One input -/

/-- The inputs whose calls can need a bound endpoint. -/
def reaches : SocketInput → Bool
  | .call (.connect ..) | .call (.sendto ..) => true
  | _ => false

theorem needsBound_of_makes (ha : reaches a = false) {c : OTCall} (hc : a.makes c = true) : c.needsBound = none := by
  rcases a with d | _ | _ | _
  · cases d <;> cases c <;> first
      | rfl
      | cases ha; done
      | cases hc
  all_goals cases c <;> first
    | rfl
    | cases hc

/-- An input that makes a call and has then returned. -/
theorem callsBound_call {d : SocketCall} {c : OTCall} {r : OTReply} (hidle : s.underWay = none)
    (hcalls : BoundCalls s.log) (hneeds : c.needsBound = some ep) (hwaits : s.waitsIn d = none)
    (hlog : (s.stepCall d).log = .call c r :: s.log) :
    s.CallsBound (.call d) ↔ (queueOf ep s.log).isSome = true := by
  have hstep : (s.step (.call d)).log = .call c r :: s.log := by
    rw [step, hidle]
    exact hlog
  rw [CallsBound, hstep]
  constructor
  · rintro ⟨⟨hbound, -⟩, -⟩
    exact hbound ep hneeds
  · intro hbound
    refine ⟨⟨fun e he => ?_, hcalls⟩, fun d' hd' _ c' hc' => ?_⟩
    · obtain rfl := Option.some.inj (hneeds.symm.trans he)
      exact hbound
    · obtain rfl := SocketInput.call.inj hd'
      rw [hwaits] at hc'
      cases hc'

/-- An input that waits in its call. -/
theorem callsBound_waits {d : SocketCall} {c : OTCall} (hidle : s.underWay = none) (hcalls : BoundCalls s.log)
    (hneeds : c.needsBound = some ep) (hwaits : s.waitsIn d = some c) (hlog : (s.stepCall d).log = s.log) :
    s.CallsBound (.call d) ↔ (queueOf ep s.log).isSome = true := by
  have hstep : (s.step (.call d)).log = s.log := by
    rw [step, hidle]
    exact hlog
  rw [CallsBound, hstep]
  constructor
  · rintro ⟨-, hbound⟩
    exact hbound d rfl hidle c hwaits ep hneeds
  · intro hbound
    refine ⟨hcalls, fun d' hd' _ c' hc' e he => ?_⟩
    obtain rfl := SocketInput.call.inj hd'
    obtain rfl := Option.some.inj (hwaits.symm.trans hc')
    obtain rfl := Option.some.inj (hneeds.symm.trans he)
    exact hbound

/-- An input that makes no such call. -/
theorem callsBound_none (hcalls : BoundCalls (s.step a).log)
    (hwaits : ∀ d, a = .call d → s.underWay = none → s.waitsIn d = none) : s.CallsBound a := by
  refine ⟨hcalls, fun d hd hidle c hc => ?_⟩
  rw [hwaits d hd hidle] at hc
  cases hc

theorem callsBound_refused {w : UnderWay} (hcalls : BoundCalls s.log) (hw : s.underWay = some w)
    (d : SocketCall) : s.CallsBound (.call d) := by
  refine callsBound_none ?_ fun _ _ hidle => by cases hw.symm.trans hidle
  rw [step, hw]
  exact hcalls

theorem callsBound_connect (h : s.BoundFlags) (hidle : s.underWay = none) (fd : ℤ) (addr : InetAddress) :
    s.CallsBound (.call (.connect fd addr)) ↔ ∀ i ∈ s.get_socket fd, s.StillBound i := by
  rcases hget : s.get_socket fd with _ | i
  · refine iff_of_true (callsBound_none ?_ fun d hd _ => ?_) fun i hi => by cases hi
    · rw [step, hidle, stepCall, connect, hget]
      exact h.calls
    · obtain rfl := SocketInput.call.inj hd
      rw [waitsIn, hget, Option.bind_none]
  have hi := get_socket_inUse hget
  have hiff : s.CallsBound (.call (.connect fd addr)) ↔
      (queueOf (s.socket_table i).ep s.log).isSome = true := by
    by_cases hwaits : ot.waits (.OTConnect (s.socket_table i).ep addr) s.net = true
    · refine callsBound_waits (c := .OTConnect (s.socket_table i).ep addr) hidle h.calls rfl ?_ ?_
      · rw [waitsIn, hget, Option.bind_some, if_pos hwaits]
      · simp only [stepCall, connect, hget, if_pos hwaits, after]
    · refine callsBound_call (c := .OTConnect (s.socket_table i).ep addr) (r := s.connectReply i addr) hidle
        h.calls rfl ?_ ?_
      · rw [waitsIn, hget, Option.bind_some, if_neg hwaits]
      · simp only [stepCall, connect, hget, if_neg hwaits]
        split <;> rfl
  rw [hiff, h.stillBound hi]
  constructor
  · rintro hbound j hj
    obtain rfl := Option.some.inj hj
    exact hbound
  · exact fun hbound => hbound i rfl

theorem callsBound_sendto (h : s.BoundFlags) (hot : ot.Lawful) (hidle : s.underWay = none) (fd : ℤ)
    (buf : List UInt8) (flags : BitVec 32) (addr : InetAddress) :
    s.CallsBound (.call (.sendto fd buf flags addr)) ↔
      ∀ i ∈ s.get_socket fd, (s.socket_table i).type = SOCK_DGRAM → s.StillBound i := by
  rcases hget : s.get_socket fd with _ | i
  · refine iff_of_true (callsBound_none ?_ fun d hd _ => ?_) fun i hi => by cases hi
    · rw [step, hidle, stepCall, sendto, hget]
      exact h.calls
    · obtain rfl := SocketInput.call.inj hd
      rw [waitsIn, hget, Option.bind_none]
  have hi := get_socket_inUse hget
  by_cases htype : (s.socket_table i).type = SOCK_DGRAM
  case neg =>
    refine iff_of_true (callsBound_none ?_ fun d hd _ => ?_) fun j hj hdgram => ?_
    · have hsent : (s.stepCall (.sendto fd buf flags addr)) = s.after (s.send fd buf flags) := by
        rw [stepCall, sendto, hget]
        dsimp only
        rw [if_pos htype]
      rw [step, hidle]
      refine boundCalls_made ?_ h.calls
      change Made _ s (s.stepCall (.sendto fd buf flags addr))
      rw [hsent]
      exact (send_keeps hot s fd buf flags).made.mono fun c _ hc => needsBound_of_makes rfl hc
    · obtain rfl := SocketInput.call.inj hd
      rw [waitsIn, hget, Option.bind_some, if_neg fun hdgram => htype hdgram.1]
    · obtain rfl := Option.some.inj hj
      exact absurd hdgram htype
  have hiff : s.CallsBound (.call (.sendto fd buf flags addr)) ↔
      (queueOf (s.socket_table i).ep s.log).isSome = true := by
    by_cases hwaits : ot.waits (.OTSndUData (s.socket_table i).ep addr buf) s.net = true
    · refine callsBound_waits (c := .OTSndUData (s.socket_table i).ep addr buf) hidle h.calls rfl ?_ ?_
      · rw [waitsIn, hget, Option.bind_some, if_pos ⟨htype, hwaits⟩]
      · simp only [stepCall, sendto, hget, if_neg (not_not.mpr htype), if_pos hwaits, after]
    · refine callsBound_call (c := .OTSndUData (s.socket_table i).ep addr buf)
        (r := (s.callOT (.OTSndUData (s.socket_table i).ep addr buf)).1) hidle h.calls rfl ?_ ?_
      · rw [waitsIn, hget, Option.bind_some, if_neg fun hboth => hwaits hboth.2]
      · simp only [stepCall, sendto, hget, if_neg (not_not.mpr htype), if_neg hwaits]
        split <;> rfl
  rw [hiff, h.stillBound hi]
  constructor
  · rintro hbound j hj _
    obtain rfl := Option.some.inj hj
    exact hbound
  · exact fun hbound => hbound i rfl htype

theorem callsBound_iff (hot : ot.Lawful) (h : s.BoundFlags) (a : SocketInput) :
    s.CallsBound a ↔ s.BindsFirst a := by
  have hother : reaches a = false → s.CallsBound a := by
    intro ha
    refine callsBound_none (boundCalls_made ((made_step hot h.owned a).mono fun c _ hc =>
      needsBound_of_makes ha hc.makes) h.calls) fun d hd _ => ?_
    subst hd
    cases d <;> first
      | rfl
      | cases ha
  cases a with
  | call d =>
    rcases hidle : s.underWay with _ | w
    · cases d with
      | connect fd addr =>
        exact (callsBound_connect h hidle fd addr).trans ⟨fun hbound _ => hbound, fun hbound => hbound hidle⟩
      | sendto fd buf flags addr =>
        exact (callsBound_sendto h hot hidle fd buf flags addr).trans
          ⟨fun hbound _ => hbound, fun hbound => hbound hidle⟩
      | _ => exact iff_of_true (hother rfl) trivial
    · refine iff_of_true (callsBound_refused h.calls hidle d) ?_
      cases d with
      | connect | sendto => exact fun hnone => by cases hidle.symm.trans hnone
      | _ => trivial
  | installs | stores | arrival => exact iff_of_true (hother rfl) trivial

/-! ### Runs -/

/-- The calls of a run are made on bound endpoints in exactly the runs that bind each socket before they
    connect it or send from it, and in which no listen has left it unbound by then. -/
theorem callsBound_iff_bindsFirst (hot : ot.Lawful) (hstr : ot.Streams) (net : ot.State)
    (inputs : List SocketInput) :
    Meets step CallsBound (start net) inputs ↔ Meets step BindsFirst (start net) inputs :=
  meets_iff (fun _ a hs hC => hs.step hot hstr a ((callsBound_iff hot hs a).mpr hC).1)
    (fun _ a hs => callsBound_iff hot hs a) (BoundFlags.start net)

/-- A client that binds before it connects. -/
theorem callsBound_client : Meets step CallsBound (start Wire.idle : SocketState wire)
    [.call (.socket AF_INET SOCK_STREAM 0), .call (.bind 1000 ⟨0, 0⟩), .call (.connect 1000 ⟨80, 1⟩), .stores] := by
  refine (callsBound_iff_bindsFirst wire_lawful wire_streams Wire.idle _).mpr
    ⟨trivial, trivial, ?_, trivial, trivial⟩
  intro _
  decide +kernel

/-- A client that does not bind. -/
theorem unbound_client : ¬ Meets step CallsBound (start Wire.idle : SocketState wire)
    [.call (.socket AF_INET SOCK_STREAM 0), .call (.connect 1000 ⟨80, 1⟩)] := by
  rintro ⟨-, ⟨⟨hbound, -⟩, -⟩, -⟩
  exact absurd (hbound 1 (by decide +kernel)) (by decide +kernel)

end SocketState

end Posix9
