import Posix9.Delivery

/-! sigsuspend and pause. Both wait until a signal can be delivered, but the round of the loop that
    sees it come may deliver it before the test does, and sigsuspend has put the old mask back by the
    time it delivers what ended the wait. -/

namespace Posix9.SignalState
open Runs

variable {s t : SignalState} {w : Wait} {l : Loop} {n : Signum} {d : Delivery}

/-! ### The law -/

namespace Wait

/-- The mask the call waits under. -/
def mask : Wait → SigSet
  | .sigsuspend mask _ _ => mask
  | .pause entered _ => entered

/-- The mask it delivers under at its end. -/
def restored : Wait → SigSet
  | .sigsuspend _ old_blocked _ => old_blocked
  | .pause entered _ => entered

end Wait

/-- A signal outside the mask of the wait, delivered while that mask was in force. -/
def Awaited (w : Wait) (d : Delivery) : Prop :=
  d.blocked = Wait.mask w ∧ (Wait.mask w).getLsbD d.signum.val = false

/-- A round begins only if nothing has been delivered yet; sigsuspend returns with a signal delivered
    under its mask, pause with one that was not blocked when it was entered. -/
def Prompt : WaitEvent → Prop
  | .round delivered => delivered = []
  | .returned (.sigsuspend mask old start) delivered =>
    ∃ d ∈ delivered, Awaited (.sigsuspend mask old start) d
  | .returned (.pause entered _) delivered => ∃ d ∈ delivered, entered.getLsbD d.signum.val = false

def OneBatch (s : SignalState) : Prop := ∀ e ∈ s.waits, Prompt e

/-- At the test of a waiting loop: a signal that could be delivered when posix9_signal_process looked is
    followed by one that can be delivered now; and the other way round, unless the mask of the wait is
    the one that was in force before. -/
def timely (s : SignalState) : Bool :=
  match s.ctl with
  | .test w hit => (!hit || s.deliverable) && (!s.deliverable || hit || Wait.mask w = Wait.restored w)
  | _ => true

def Timely (s : SignalState) : SignalInput → Prop
  | .advance _ _ => s.exited = true ∨ s.timely = true
  | _ => True

instance (s : SignalState) : (a : SignalInput) → Decidable (s.Timely a)
  | .advance _ _ => inferInstanceAs (Decidable (s.exited = true ∨ s.timely = true))
  | .call _ | .handlerReturns | .alarm_callback | .raiseElsewhere _ => .isTrue trivial

/-! ### What has been delivered since -/

theorem since_self : s.since s.log.length = [] := by simp [since]

theorem since_congr (h : t.log = s.log) (start : ℕ) : t.since start = s.since start := by
  rw [since, since, h]

theorem since_delivered (h : t.log = .delivered d :: s.log) {start : ℕ} (hle : start ≤ s.log.length) :
    t.since start = d :: s.since start := by
  have hlen : (Event.delivered d :: s.log).length - start = s.log.length - start + 1 := by
    rw [List.length_cons]
    omega
  rw [since, since, h, hlen, List.take_succ_cons, List.filterMap_cons]

theorem since_madePending (h : t.log = .madePending n :: s.log) {start : ℕ}
    (hle : start ≤ s.log.length) : t.since start = s.since start := by
  have hlen : (Event.madePending n :: s.log).length - start = s.log.length - start + 1 := by
    rw [List.length_cons]
    omega
  rw [since, since, h, hlen, List.take_succ_cons, List.filterMap_cons]

/-! ### What carries the law -/

/-- The call has delivered what it was waiting for. -/
def Served (s : SignalState) (w : Wait) : Prop := ∃ d ∈ s.since (Wait.start w), Awaited w d

/-- A signal the loop has still to deliver. -/
def Due (l : Loop) : Prop := ∃ n : Signum, l.i ≤ n.val ∧ l.to_deliver.getLsbD n.val = true

/-- The snapshot holds nothing that the mask of the wait blocks. -/
def Outside (l : Loop) (w : Wait) : Prop :=
  ∀ n : Signum, l.to_deliver.getLsbD n.val = true → (Wait.mask w).getLsbD n.val = false

/-- What holds of a loop under way, on top or below a handler. -/
def LoopFits (s : SignalState) (l : Loop) : Prop :=
  match l.caller with
  | .program | .sleep _ => True
  | .round w hit => Wait.start w ≤ s.log.length ∧ hit = true ∧ (s.Served w ∨ Outside l w ∧ Due l)
  | .final w => Wait.start w ≤ s.log.length ∧
      (s.Served w ∨ Wait.mask w = Wait.restored w ∧ Outside l w ∧ Due l)

/-- What holds where control is. -/
def CtlFits (s : SignalState) : Ctl → Prop
  | .program | .sleepTest _ | .check .program | .check (.sleep _) => True
  | .check (.round w hit) =>
    Wait.start w ≤ s.log.length ∧ hit = false ∧ s.since (Wait.start w) = []
  | .check (.final w) => Wait.start w ≤ s.log.length ∧
      (s.Served w ∨ Wait.mask w = Wait.restored w ∧ s.deliverable = true)
  | .loop l => s.LoopFits l
  | .test w hit => Wait.start w ≤ s.log.length ∧
      (hit = true → s.Served w) ∧ (hit = false → s.since (Wait.start w) = [])

/-- The mask that is in force whenever control is back at a call of posix9_signal_process. -/
def CallerMask (blocked : SigSet) : Caller → Prop
  | .program | .sleep _ => True
  | .round w _ => blocked = Wait.mask w
  | .final w => blocked = Wait.restored w

def CtlMask (blocked : SigSet) : Ctl → Prop
  | .program | .sleepTest _ => True
  | .check c => CallerMask blocked c
  | .loop l => CallerMask blocked l.caller
  | .test w _ => blocked = Wait.mask w

structure Waiting (s : SignalState) : Prop where
  prompt : s.OneBatch
  ctl : s.CtlFits s.ctl
  stack : ∀ f ∈ s.stack, s.LoopFits f.resume
  ctlMask : CtlMask s.blocked_signals s.ctl
  stackMask : ∀ f ∈ s.stack, CallerMask f.old_blocked f.resume.caller
  unstarted : s.signals_initialized = false → s.stack = [] ∧ Unstarted s.ctl
  /-- There is no signal 0. -/
  zero : s.pending_signals.getLsbD 0 = false

theorem Waiting.start : Waiting start :=
  ⟨fun e he => (by cases he), trivial, fun f hf => (by cases hf), trivial, fun f hf => (by cases hf),
    fun _ => ⟨rfl, trivial⟩, rfl⟩

/-! ### The log grows -/

/-- At most one event is added. -/
def Grows (s t : SignalState) : Prop := t.log = s.log ∨ ∃ e, t.log = e :: s.log

theorem Grows.length_le (h : Grows s t) : s.log.length ≤ t.log.length := by
  rcases h with h | ⟨e, h⟩ <;> simp [h]

theorem Grows.served (h : Grows s t) (hle : Wait.start w ≤ s.log.length) (hw : s.Served w) :
    t.Served w := by
  obtain ⟨d, hd, haw⟩ := hw
  refine ⟨d, ?_, haw⟩
  rcases h with h | ⟨n | d', h⟩
  · rwa [since_congr h]
  · rwa [since_madePending h hle]
  · rw [since_delivered h hle]
    exact List.mem_cons_of_mem _ hd

theorem Grows.loopFits (h : Grows s t) (hl : s.LoopFits l) : t.LoopFits l := by
  rw [LoopFits] at hl ⊢
  split at hl
  · trivial
  · trivial
  · obtain ⟨hle, hhit, hrest⟩ := hl
    exact ⟨Nat.le_trans hle h.length_le, hhit, hrest.imp (h.served hle) id⟩
  · obtain ⟨hle, hrest⟩ := hl
    exact ⟨Nat.le_trans hle h.length_le, hrest.imp (h.served hle) id⟩

/-- A step that leaves the handlers under way alone. -/
theorem Waiting.move (h : s.Waiting) (hwaits : t.waits = s.waits) (hlog : Grows s t)
    (hstack : t.stack = s.stack) (hctl : t.CtlFits t.ctl) (hmask : CtlMask t.blocked_signals t.ctl)
    (hun : t.signals_initialized = false → t.stack = [] ∧ Unstarted t.ctl)
    (hzero : t.pending_signals.getLsbD 0 = false) : t.Waiting := by
  refine ⟨?_, hctl, ?_, hmask, ?_, hun, hzero⟩
  · rw [OneBatch, hwaits]
    exact h.prompt
  · rw [hstack]
    exact fun f hf => hlog.loopFits (h.stack f hf)
  · rw [hstack]
    exact h.stackMask

theorem Unstarted.fits {c : Ctl} (h : Unstarted c) : s.CtlFits c := by
  unfold Unstarted at h
  split at h <;> trivial

theorem Unstarted.mask {c : Ctl} (h : Unstarted c) (b : SigSet) : CtlMask b c := by
  unfold Unstarted at h
  split at h <;> trivial

/-! ### Calls that return at once -/

theorem Waiting.init (h : s.Waiting) : s.init_signals.Waiting := by
  rcases hinit : s.signals_initialized with _ | _
  · obtain ⟨hstack, hctl⟩ := h.unstarted hinit
    have hctl' : Unstarted s.init_signals.ctl := by rwa [init_ctl]
    have hrest : s.init_signals.waits = s.waits ∧ s.init_signals.log = s.log ∧
        s.init_signals.stack = s.stack ∧ s.init_signals.pending_signals = 0 := by
      simp [init_signals, hinit]
    obtain ⟨hwaits, hlog, hstack', hpending⟩ := hrest
    refine h.move hwaits (.inl hlog) hstack' hctl'.fits (hctl'.mask _) ?_ (by rw [hpending]; rfl)
    intro habs
    rw [init_initialized] at habs
    cases habs
  · rw [init_signals, if_pos hinit]
    exact h

/-- What a call of the program leaves, when it is back in the program. -/
theorem Waiting.back (h : s.Waiting) (hinit : s.signals_initialized = true)
    (hctl : t.ctl = .program) (hwaits : t.waits = s.waits) (hlog : Grows s t)
    (hstack : t.stack = s.stack) (hstarted : t.signals_initialized = s.signals_initialized)
    (hzero : t.pending_signals.getLsbD 0 = false) : t.Waiting := by
  refine h.move hwaits hlog hstack (by rw [hctl]; trivial) (by rw [hctl]; trivial) ?_ hzero
  intro habs
  rw [hstarted, hinit] at habs
  cases habs

theorem zero_makePending (hzero : s.pending_signals.getLsbD 0 = false) (hn : n.val ≠ 0) :
    (s.makePending n).pending_signals.getLsbD 0 = false := by
  have hbit := getLsbD_or_bit s.pending_signals n ⟨0, by decide⟩
  rw [SignalState.makePending]
  refine hbit.trans ?_
  rw [hzero, Bool.false_or]
  exact decide_eq_false fun heq => hn (by rw [heq])

theorem signalOf_ne_zero {signum : ℤ} (h : signalOf signum = some n) : n.val ≠ 0 := by
  rw [signalOf] at h
  split at h
  · rename_i hrange
    obtain rfl := Option.some.inj h
    change signum.toNat ≠ 0
    omega
  · cases h

/-- A signal that can be delivered stays so when another is made pending. -/
theorem deliverable_makePending (h : s.deliverable = true) : (s.makePending n).deliverable = true := by
  rw [deliverable_iff] at h ⊢
  obtain ⟨m, hpending, hblocked⟩ := h
  refine ⟨m, ?_, hblocked⟩
  rw [SignalState.makePending, getLsbD_or_bit, hpending, Bool.true_or]

theorem CtlFits.makePending {c : Ctl} (h : s.CtlFits c) : (s.makePending n).CtlFits c := by
  have hgrows : Grows s (s.makePending n) := .inr ⟨_, rfl⟩
  have hsince : ∀ {start}, start ≤ s.log.length → (s.makePending n).since start = s.since start :=
    fun hle => since_madePending rfl hle
  unfold CtlFits at h ⊢
  split at h
  · trivial
  · trivial
  · trivial
  · trivial
  · obtain ⟨hle, hhit, hnone⟩ := h
    exact ⟨Nat.le_trans hle hgrows.length_le, hhit, (hsince hle).trans hnone⟩
  · obtain ⟨hle, hrest⟩ := h
    exact ⟨Nat.le_trans hle hgrows.length_le,
      hrest.imp (hgrows.served hle) fun hk => ⟨hk.1, deliverable_makePending hk.2⟩⟩
  · exact hgrows.loopFits h
  · obtain ⟨hle, hserved, hnone⟩ := h
    exact ⟨Nat.le_trans hle hgrows.length_le, fun hhit => hgrows.served hle (hserved hhit),
      fun hhit => (hsince hle).trans (hnone hhit)⟩

theorem Waiting.makePending (h : s.Waiting) (hn : n.val ≠ 0) : (s.makePending n).Waiting :=
  h.move rfl (.inr ⟨_, rfl⟩) rfl h.ctl.makePending h.ctlMask (fun hno => h.unstarted hno)
    (zero_makePending h.zero hn)

theorem Waiting.return_ (h : s.Waiting) (v : ℤ) : (s.return_ v).Waiting :=
  ⟨h.prompt, h.ctl, h.stack, h.ctlMask, h.stackMask, h.unstarted, h.zero⟩

theorem Waiting.fail (h : s.Waiting) (e : ℤ) : (s.fail e).Waiting :=
  ⟨h.prompt, h.ctl, h.stack, h.ctlMask, h.stackMask, h.unstarted, h.zero⟩

/-- raise, by the program or by another thread while the program is anywhere. -/
theorem Waiting.raise (h : s.Waiting) (sig : ℤ) : (s.raise sig).Waiting := by
  rw [SignalState.raise]
  split
  · exact h.init.fail EINVAL
  · rename_i n hn
    exact (h.init.makePending (signalOf_ne_zero hn)).return_ 0

theorem Waiting.kill (h : s.Waiting) (pid sig : ℤ) : (s.kill pid sig).Waiting := by
  rw [SignalState.kill]
  split
  · exact h.init.fail ESRCH
  · split
    · exact h.init.return_ 0
    · split
      · exact h.init.fail EINVAL
      · rename_i n hn
        exact (h.init.makePending (signalOf_ne_zero hn)).return_ 0

/-- A waiting call begins. -/
theorem Waiting.wait (h : s.Waiting) (hinit : s.signals_initialized = true)
    (hwaits : t.waits = s.waits) (hlog : t.log = s.log) (hstack : t.stack = s.stack)
    (hstarted : t.signals_initialized = s.signals_initialized)
    (hpending : t.pending_signals = s.pending_signals)
    (hctl : t.ctl = .test w false) (hstart : Wait.start w = s.log.length)
    (hmask : t.blocked_signals = Wait.mask w) : t.Waiting := by
  refine h.move hwaits (.inl hlog) hstack ?_ ?_ ?_ (by rw [hpending]; exact h.zero)
  · rw [hctl]
    refine ⟨Nat.le_of_eq (by rw [hlog, hstart]), fun habs => (by cases habs), fun _ => ?_⟩
    rw [hstart, since_congr hlog, since_self]
  · rw [hctl]
    exact hmask
  · intro habs
    rw [hstarted, hinit] at habs
    cases habs

theorem Waiting.kept (h : s.Waiting) (hinit : s.signals_initialized = true) (hctl : s.ctl = .program)
    (hkept : Kept s t) : t.Waiting := by
  refine h.back hinit (hkept.ctl.trans hctl) hkept.waits (.inl hkept.log) hkept.stack
    hkept.initialized ?_
  rw [hkept.pending]
  exact h.zero

theorem Waiting.exec (h : s.Waiting) (hctl : s.ctl = .program) (c : SignalCall) :
    (s.exec c).Waiting := by
  have hinit := init_initialized (s := s)
  have hctl' : s.init_signals.ctl = .program := init_ctl.trans hctl
  cases c with
  | raise sig => exact h.raise sig
  | kill pid sig => exact h.kill pid sig
  | posix9_signal_process | sleep =>
    exact h.move rfl (.inl rfl) rfl trivial trivial (fun hno => ⟨(h.unstarted hno).1, trivial⟩) h.zero
  | alarm | sigpending => exact h.init.kept hinit hctl' ⟨rfl, rfl, rfl, rfl, rfl, rfl⟩
  | sigsuspend | pause => exact h.init.wait hinit rfl rfl rfl rfl rfl rfl rfl rfl
  | signal signum handler => exact h.init.kept hinit hctl' (signal_kept s signum handler)
  | sigaction signum act => exact h.init.kept hinit hctl' (sigaction_kept s signum act)
  | sigprocmask how set => exact h.init.kept hinit hctl' (sigprocmask_kept s how set)

/-! ### Steps of the library -/

/-- What holds when posix9_signal_process returns to a caller. -/
def ReturnFits (s : SignalState) : Caller → Prop
  | .program | .sleep _ => True
  | .round w hit => s.CtlFits (.test w hit)
  | .final w => Wait.start w ≤ s.log.length ∧ s.Served w

theorem Prompt.returned (h : s.Served w) : Prompt (.returned w (s.since (Wait.start w))) := by
  cases w with
  | sigsuspend => exact h
  | pause =>
    obtain ⟨d, hd, haw⟩ := h
    exact ⟨d, hd, haw.2⟩

theorem Waiting.processReturns (h : s.Waiting) {c : Caller} (hc : s.ReturnFits c)
    (hmask : CallerMask s.blocked_signals c)
    (hun : s.signals_initialized = false → Unstarted (.check c)) (k : ℕ) :
    (s.processReturns c k).Waiting := by
  cases c with
  | program | sleep =>
    exact h.move rfl (.inl rfl) rfl trivial trivial (fun hno => ⟨(h.unstarted hno).1, trivial⟩) h.zero
  | round w hit =>
    exact h.move rfl (.inl rfl) rfl hc hmask (fun hno => (hun hno).elim) h.zero
  | final w =>
    refine ⟨fun e he => ?_, trivial, h.stack, trivial, h.stackMask, fun hno => (hun hno).elim, h.zero⟩
    rcases List.mem_cons.mp he with rfl | he
    · exact Prompt.returned hc.2
    · exact h.prompt e he

/-- The snapshot is taken: what was true of the caller is true of its loop. -/
theorem CtlFits.loop {c : Caller} (hc : s.CtlFits (.check c)) (hmask : CallerMask s.blocked_signals c)
    (hzero : s.pending_signals.getLsbD 0 = false)
    (hne : s.pending_signals &&& ~~~s.blocked_signals ≠ 0) :
    s.LoopFits ⟨Caller.hit c, 1, s.pending_signals &&& ~~~s.blocked_signals, 0⟩ := by
  set l : Loop := ⟨Caller.hit c, 1, s.pending_signals &&& ~~~s.blocked_signals, 0⟩ with hl
  have hbit : ∀ n : Signum, l.to_deliver.getLsbD n.val = true ↔
      s.pending_signals.getLsbD n.val = true ∧ s.blocked_signals.getLsbD n.val = false := by
    intro n
    have hn : n.val < 32 := n.isLt
    rw [hl, BitVec.getLsbD_and, BitVec.getLsbD_not]
    simp [hn]
  have hdue : Due l := by
    obtain ⟨n, hn⟩ := (ne_zero_iff _).mp hne
    refine ⟨n, Nat.one_le_iff_ne_zero.mpr fun hn0 => ?_, hn⟩
    have hpending := ((hbit n).mp hn).1
    rw [hn0, hzero] at hpending
    cases hpending
  have houtside : ∀ w, s.blocked_signals = Wait.mask w → Outside l w := by
    intro w hw n hn
    rw [← hw]
    exact ((hbit n).mp hn).2
  cases c with
  | program | sleep => trivial
  | round w hit => exact ⟨hc.1, rfl, .inr ⟨houtside w hmask, hdue⟩⟩
  | final w =>
    refine ⟨hc.1, hc.2.imp id fun hk => ⟨hk.1, houtside w ?_, hdue⟩⟩
    rw [hk.1]
    exact hmask

theorem Waiting.checkSignals (h : s.Waiting) {c : Caller} (hctl : s.ctl = .check c)
    (cmdPeriod : Bool) : (s.checkSignals c cmdPeriod).Waiting := by
  have hkeys : ∃ t, (if cmdPeriod then s.init_signals.makePending SIGINT else s.init_signals) = t ∧
      t.Waiting ∧ t.ctl = .check c ∧ t.signals_initialized = true := by
    split
    · exact ⟨_, rfl, h.init.makePending (by decide), init_ctl.trans hctl,
        init_initialized⟩
    · exact ⟨_, rfl, h.init, init_ctl.trans hctl, init_initialized⟩
  obtain ⟨t, heq, ht, htctl, hinit⟩ := hkeys
  have hfits := ht.ctl
  have hmask := ht.ctlMask
  rw [htctl] at hfits hmask
  rw [SignalState.checkSignals, heq]
  split
  · rename_i hnone
    refine ht.processReturns ?_ hmask (fun hno => ?_) 0
    · cases c with
      | program | sleep => trivial
      | round w hit =>
        obtain ⟨hle, rfl, hsince⟩ := hfits
        exact ⟨hle, fun habs => (by cases habs), fun _ => hsince⟩
      | final w =>
        refine ⟨hfits.1, hfits.2.resolve_right fun hk => ?_⟩
        rw [deliverable, hnone] at hk
        simp at hk
    · rw [hinit] at hno
      cases hno
  · rename_i hsome
    refine ht.move rfl (.inl rfl) rfl (hfits.loop hmask ht.zero hsome) ?_ (fun hno => ?_) ht.zero
    · cases c <;> exact hmask
    · rw [show t.signals_initialized = true from hinit] at hno
      cases hno

/-- Delivering a signal of the snapshot serves the call that is waiting. -/
theorem LoopFits.deliver (h : s.LoopFits l) (hmask : CallerMask s.blocked_signals l.caller)
    (hn : l.to_deliver.getLsbD n.val = true)
    (hlog : t.log = .delivered ⟨n, s.blocked_signals⟩ :: s.log) (j k : ℕ) :
    t.LoopFits { l with i := j, delivered := k } := by
  have hgrows : Grows s t := .inr ⟨_, hlog⟩
  have hserved : ∀ w, Wait.start w ≤ s.log.length → s.blocked_signals = Wait.mask w → Outside l w →
      t.Served w := by
    intro w hle hw hout
    refine ⟨⟨n, s.blocked_signals⟩, ?_, hw, hout n hn⟩
    rw [since_delivered hlog hle]
    exact List.mem_cons_self
  obtain ⟨c, i, to_deliver, delivered⟩ := l
  cases c with
  | program | sleep => trivial
  | round w hit =>
    obtain ⟨hle, hhit, hrest⟩ := h
    exact ⟨Nat.le_trans hle hgrows.length_le, hhit,
      .inl (hrest.elim (hgrows.served hle) fun hk => hserved w hle hmask hk.1)⟩
  | final w =>
    obtain ⟨hle, hrest⟩ := h
    exact ⟨Nat.le_trans hle hgrows.length_le,
      .inl (hrest.elim (hgrows.served hle) fun hk => hserved w hle (hmask.trans hk.1.symm) hk.2.1)⟩

/-- A round that delivers nothing leaves what is due. -/
theorem LoopFits.skip (h : s.LoopFits l) (hn : l.to_deliver.getLsbD l.i = false) :
    s.LoopFits { l with i := l.i + 1 } := by
  have hdue : Due l → Due { l with i := l.i + 1 } := by
    rintro ⟨n, hle, hbit⟩
    refine ⟨n, Nat.lt_of_le_of_ne hle fun heq => ?_, hbit⟩
    rw [heq, hbit] at hn
    cases hn
  obtain ⟨c, i, to_deliver, delivered⟩ := l
  cases c with
  | program | sleep => trivial
  | round w hit => exact ⟨h.1, h.2.1, h.2.2.imp id fun hk => ⟨hk.1, hdue hk.2⟩⟩
  | final w => exact ⟨h.1, h.2.imp id fun hk => ⟨hk.1, hk.2.1, hdue hk.2.2⟩⟩

/-- At the end of the loop nothing is due, so the call has been served. -/
theorem LoopFits.returns (h : s.LoopFits l) (hend : ¬ l.i < NSIG) : s.ReturnFits l.caller := by
  have hdue : ¬ Due l := fun ⟨n, hle, _⟩ => hend (Nat.lt_of_le_of_lt hle n.isLt)
  obtain ⟨c, i, to_deliver, delivered⟩ := l
  cases c with
  | program | sleep => trivial
  | round w hit =>
    obtain ⟨hle, rfl, hrest⟩ := h
    exact ⟨hle, fun _ => hrest.resolve_right fun hk => hdue hk.2, fun habs => (by cases habs)⟩
  | final w => exact ⟨h.1, h.2.resolve_right fun hk => hdue hk.2.2⟩

/-- Control in the middle of a call: init_signals has run. -/
theorem Waiting.initialized (h : s.Waiting) (hctl : ¬ Unstarted s.ctl) :
    ¬ s.signals_initialized = false := fun hno => hctl (h.unstarted hno).2

theorem Waiting.clearPending (h : s.Waiting) (hctl : s.ctl = .loop l) (n : Signum) :
    (s.clearPending n).Waiting := by
  have hfits := h.ctl
  rw [hctl] at hfits
  have hzero : (s.clearPending n).pending_signals.getLsbD 0 = false := by
    refine (getLsbD_andNot_bit s.pending_signals n ⟨0, by decide⟩).trans ?_
    rw [h.zero, Bool.false_and]
  refine h.move rfl (.inl rfl) rfl ?_ h.ctlMask (fun hno => h.unstarted hno) hzero
  rw [show (s.clearPending n).ctl = .loop l from hctl]
  exact Grows.loopFits (.inl rfl) hfits

theorem Waiting.deliver (h : s.Waiting) (hctl : s.ctl = .loop l)
    (hn : l.to_deliver.getLsbD n.val = true) (j k : ℕ) :
    (s.deliver_signal n { l with i := j, delivered := k }).Waiting := by
  have hfits := h.ctl
  have hmask := h.ctlMask
  have hinit := h.initialized (by rw [hctl]; exact id)
  rw [hctl] at hfits hmask
  set l' : Loop := { l with i := j, delivered := k } with hl'
  set t : SignalState := { s with
    log := .delivered ⟨n, s.blocked_signals⟩ :: s.log, ctl := .loop l' } with ht
  have hfits' : t.LoopFits l' := LoopFits.deliver hfits hmask hn rfl j k
  have hwaiting : t.Waiting :=
    h.move rfl (.inr ⟨_, rfl⟩) rfl hfits' hmask (fun hno => absurd hno hinit) h.zero
  rw [deliver_signal]
  split
  · exact hwaiting
  · split <;> first
      | exact hwaiting
      | exact ⟨hwaiting.prompt, hwaiting.ctl, hwaiting.stack, hwaiting.ctlMask, hwaiting.stackMask,
          hwaiting.unstarted, hwaiting.zero⟩
  · refine ⟨hwaiting.prompt, trivial, fun f hf => ?_, trivial, fun f hf => ?_,
      fun hno => absurd hno hinit, hwaiting.zero⟩
    · rcases List.mem_cons.mp hf with rfl | hf
      · exact hfits'
      · exact hwaiting.stack f hf
    · rcases List.mem_cons.mp hf with rfl | hf
      · exact hmask
      · exact hwaiting.stackMask f hf

theorem Waiting.processRound (h : s.Waiting) (hctl : s.ctl = .loop l) : (s.processRound l).Waiting := by
  have hfits := h.ctl
  have hmask := h.ctlMask
  have hinit := h.initialized (by rw [hctl]; exact id)
  rw [hctl] at hfits hmask
  rw [SignalState.processRound]
  split
  · split
    · rename_i hi hbit
      have hcleared := h.clearPending hctl ⟨l.i, hi⟩
      exact hcleared.deliver hctl hbit _ _
    · rename_i hbit
      exact h.move rfl (.inl rfl) rfl (LoopFits.skip hfits (by simpa using hbit)) hmask
        (fun hno => absurd hno hinit) h.zero
  · rename_i hend
    exact h.processReturns (LoopFits.returns hfits hend) hmask (fun hno => absurd hno hinit) _

/-- The test of a waiting loop: it begins another round only if nothing has been delivered, and ends the
    wait only if the call has been served or is about to be. -/
theorem Waiting.testWait (h : s.Waiting) {hit : Bool} (hctl : s.ctl = .test w hit)
    (hC : s.timely = true) : (s.testWait w).Waiting := by
  have hfits := h.ctl
  have hmask : CtlMask s.blocked_signals s.ctl := h.ctlMask
  have hinit := h.initialized (by rw [hctl]; exact id)
  rw [hctl] at hfits hmask
  obtain ⟨hle, hserved, hnone⟩ := hfits
  obtain ⟨hlate, hearly⟩ : (hit = false ∨ s.deliverable = true) ∧
      (s.deliverable = false ∨ hit = true ∨ Wait.mask w = Wait.restored w) := by
    simpa [timely, hctl, or_assoc] using hC
  rw [SignalState.testWait]
  split
  · rename_i hd
    have hrest : s.Served w ∨ Wait.mask w = Wait.restored w :=
      (hearly.resolve_left (by simp [hd])).imp hserved id
    cases w with
    | sigsuspend mask old_blocked start =>
      refine h.move rfl (.inl rfl) rfl ⟨hle, ?_⟩ rfl (fun hno => absurd hno hinit) h.zero
      refine hrest.imp id fun hk => ⟨hk, ?_⟩
      -- the mask put back is the one the wait was under
      have hsame : s.blocked_signals = old_blocked := hmask.trans hk
      rw [deliverable, hsame] at hd
      exact hd
    | pause entered start =>
      exact h.move rfl (.inl rfl) rfl ⟨hle, .inr ⟨rfl, hd⟩⟩ hmask (fun hno => absurd hno hinit) h.zero
  · rename_i hd
    have hhit := hlate.resolve_right hd
    refine ⟨fun e he => ?_, ⟨hle, rfl, hnone hhit⟩, h.stack, hmask, h.stackMask,
      fun hno => absurd hno hinit, h.zero⟩
    rcases List.mem_cons.mp he with rfl | he
    · exact hnone hhit
    · exact h.prompt e he

theorem Waiting.handlerReturns (h : s.Waiting) {f : Frame} {rest : List Frame}
    (hstack : s.stack = f :: rest) : (s.handlerReturns f rest).Waiting := by
  have hmem : f ∈ s.stack := by
    rw [hstack]
    exact List.mem_cons_self
  have hrest : ∀ g ∈ rest, g ∈ s.stack := fun g hg => by
    rw [hstack]
    exact List.mem_cons_of_mem _ hg
  have hback : ({ s with blocked_signals := f.old_blocked, ctl := .loop f.resume, stack := rest } :
      SignalState).Waiting := by
    refine ⟨h.prompt, h.stack f hmem, fun g hg => h.stack g (hrest g hg), h.stackMask f hmem,
      fun g hg => h.stackMask g (hrest g hg), fun hno => ?_, h.zero⟩
    have habs := (h.unstarted hno).1
    rw [hstack] at habs
    cases habs
  rw [SignalState.handlerReturns]
  split
  · exact hback
  · exact ⟨hback.prompt, hback.ctl, hback.stack, hback.ctlMask, hback.stackMask, hback.unstarted,
      hback.zero⟩

theorem Waiting.step (s : SignalState) (a : SignalInput) (h : s.Waiting) (hC : s.Timely a) :
    (s.step a).Waiting := by
  rcases hexited : s.exited with _ | _
  · cases a with
    | call c =>
      rw [step_call hexited]
      split
      · rename_i hctl
        exact h.exec hctl c
      · exact h
    | handlerReturns =>
      rcases step_handlerReturns hexited with ⟨f, rest, -, hstack, heq⟩ | heq
      · rw [heq]
        exact h.handlerReturns hstack
      · rwa [heq]
    | advance cmdPeriod now =>
      rw [step_advance hexited, SignalState.advance]
      split
      · exact h
      · rename_i c hctl
        exact h.checkSignals hctl cmdPeriod
      · rename_i l hctl
        exact h.processRound hctl
      · rename_i w hit hctl
        refine h.testWait hctl (hC.resolve_left ?_)
        simp [hexited]
      · rename_i endTicks hctl
        rw [testSleep]
        split <;>
          exact h.move rfl (.inl rfl) rfl trivial trivial (fun hno => ⟨(h.unstarted hno).1, trivial⟩)
            h.zero
    | alarm_callback =>
      rw [step_alarm_callback hexited]
      split
      · have hraised := h.makePending (n := SIGALRM) (by decide)
        exact ⟨hraised.prompt, hraised.ctl, hraised.stack, hraised.ctlMask, hraised.stackMask,
          hraised.unstarted, hraised.zero⟩
      · exact h
    | raiseElsewhere sig =>
      rw [step_raiseElsewhere hexited]
      exact (h.raise sig).return_ s.result
  · rwa [step_exited hexited]

/-- In a run where what is delivered in a round of a waiting loop leaves something to deliver, and
    nothing is first seen by the test, sigsuspend and pause wait for exactly one batch. -/
theorem oneBatch_of_timely (inputs : List SignalInput) (hC : Meets step Timely start inputs) :
    Always step OneBatch start inputs :=
  (always_of_meets Waiting.step Waiting.start hC).mono fun _ h => h.prompt

/-- SIGUSR1 arrives while sigsuspend waits, and its handler raises it again, so that the test finds
    it pending. -/
theorem oneBatch_raised_again : Always step OneBatch start
    ([.call (.signal 10 (.user 0)), .call (.sigprocmask SIG_SETMASK (some (bit SIGUSR1))),
      .call (.sigsuspend 0), .advance false 0, .raiseElsewhere 10] ++ advances 11 ++
      [.call (.raise 10), .handlerReturns] ++ advances 24) :=
  oneBatch_of_timely _ (by decide +kernel)

/-- The idiom sigsuspend is for: SIGUSR1 is blocked and already pending. sigsuspend returns at once and
    has delivered nothing. -/
theorem sigsuspend_delivers_nothing : ¬ Always step OneBatch start
    [.call (.sigprocmask SIG_SETMASK (some (bit SIGUSR1))), .call (.raise 10), .call (.sigsuspend 0),
      .advance false 0, .advance false 0] := by
  intro h
  have hend := always_iff_prefix.mp h _ List.prefix_rfl
  have hreturned : WaitEvent.returned (.sigsuspend 0 (bit SIGUSR1) 1) [] ∈ (run step start
      [.call (.sigprocmask SIG_SETMASK (some (bit SIGUSR1))), .call (.raise 10),
        .call (.sigsuspend 0), .advance false 0, .advance false 0]).waits := by
    decide +kernel
  obtain ⟨d, hd, -⟩ := hend _ hreturned
  cases hd

end Posix9.SignalState
