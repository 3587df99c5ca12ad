import Posix9.Suspend

/-! The mask around handlers. deliver_signal blocks further signals while a handler runs and puts the
    mask back afterwards, whatever the handler has done to it; so every call that delivers signals
    leaves the mask as it found it. -/

namespace Posix9.SignalState
open Runs

variable {s t : SignalState} {M : SigSet} {base : List Frame}

/-! ### Control, handlers and the mask -/

/-- Where control is when posix9_signal_process has returned. -/
def returnTo : Caller → Ctl
  | .program | .final _ => .program
  | .sleep endTicks => .sleepTest endTicks
  | .round w hit => .test w hit

/-- What one step does to control, to the handlers under way and to the mask. -/
inductive Moves (s t : SignalState) : Prop where
  /-- Something arrives, or the program makes a call that returns at once. -/
  | stays (hctl : t.ctl = s.ctl) (hstack : t.stack = s.stack)
      (hmask : s.ctl ≠ .program → t.blocked_signals = s.blocked_signals)
  /-- The program calls sigsuspend or pause. -/
  | waits (w : Wait) (hfrom : s.ctl = .program) (hctl : t.ctl = .test w false)
      (hstack : t.stack = s.stack) (hmask : t.blocked_signals = Wait.mask w)
      (hold : Wait.restored w = s.blocked_signals)
  /-- posix9_signal_process is called, and not by a wait that ends. -/
  | calls (c : Caller) (hfrom : s.ctl = .program ∧ (c = .program ∨ ∃ e, c = .sleep e) ∨
        (∃ e, s.ctl = .sleepTest e ∧ c = .sleep e) ∨ ∃ w hit, s.ctl = .test w hit ∧ c = .round w false)
      (hctl : t.ctl = .check c) (hstack : t.stack = s.stack)
      (hmask : t.blocked_signals = s.blocked_signals)
  /-- The wait ends, and calls it once more. -/
  | ends (w : Wait) (hit : Bool) (hfrom : s.ctl = .test w hit) (hctl : t.ctl = .check (.final w))
      (hstack : t.stack = s.stack) (hmask : t.blocked_signals = (s.unmask w).blocked_signals)
  /-- It takes a snapshot of what can be delivered. -/
  | looks (c : Caller) (l : Loop) (hfrom : s.ctl = .check c) (hctl : t.ctl = .loop l)
      (hcaller : l.caller = Caller.hit c) (hsnapshot : l.to_deliver &&& t.blocked_signals = 0)
      (hstack : t.stack = s.stack) (hmask : t.blocked_signals = s.blocked_signals)
  /-- A round of its loop runs no handler. -/
  | rounds (l l' : Loop) (hfrom : s.ctl = .loop l) (hctl : t.ctl = .loop l')
      (hcaller : l'.caller = l.caller) (hsnapshot : l'.to_deliver = l.to_deliver)
      (hstack : t.stack = s.stack) (hmask : t.blocked_signals = s.blocked_signals)
  /-- A handler is entered. -/
  | enters (l : Loop) (f : Frame) (a : ℕ) (hfrom : s.ctl = .loop l) (hctl : t.ctl = .program)
      (hhandler : s.signal_handlers f.signum = .user a)
      (hbit : l.to_deliver.getLsbD f.signum.val = true) (hcaller : f.resume.caller = l.caller)
      (hsnapshot : f.resume.to_deliver = l.to_deliver) (hold : f.old_blocked = s.blocked_signals)
      (hstack : t.stack = f :: s.stack)
      (hmask : t.blocked_signals = s.blocked_signals ||| (s.signal_actions f.signum).sa_mask |||
        (if (s.signal_actions f.signum).sa_flags &&& SA_NODEFER = 0 then bit f.signum else 0))
  /-- The handler on top returns. -/
  | resumes (f : Frame) (hfrom : s.ctl = .program) (hctl : t.ctl = .loop f.resume)
      (hstack : s.stack = f :: t.stack) (hmask : t.blocked_signals = f.old_blocked)
  /-- posix9_signal_process returns. -/
  | leaves (c : Caller) (hfrom : s.ctl = .check c ∨ ∃ l, s.ctl = .loop l ∧ l.caller = c)
      (hctl : t.ctl = returnTo c) (hstack : t.stack = s.stack)
      (hmask : t.blocked_signals = s.blocked_signals)
  /-- sleep returns. -/
  | wakes (e : ℕ) (hfrom : s.ctl = .sleepTest e) (hctl : t.ctl = .program) (hstack : t.stack = s.stack)
      (hmask : t.blocked_signals = s.blocked_signals)

/-- The handlers under way are the same, or one is entered, or the one on top returns. -/
theorem Moves.stack_cases (h : Moves s t) :
    t.stack = s.stack ∨
      (∃ l f, s.ctl = .loop l ∧ l.to_deliver.getLsbD f.signum.val = true ∧ t.stack = f :: s.stack ∧
        t.blocked_signals = s.blocked_signals ||| (s.signal_actions f.signum).sa_mask |||
          (if (s.signal_actions f.signum).sa_flags &&& SA_NODEFER = 0 then bit f.signum else 0)) ∨
      ∃ f, s.stack = f :: t.stack ∧ t.ctl = .loop f.resume ∧ t.blocked_signals = f.old_blocked := by
  cases h with
  | enters l f a hfrom hctl hhandler hbit hcaller hsnapshot hold hstack hmask =>
    exact .inr (.inl ⟨l, f, hfrom, hbit, hstack, hmask⟩)
  | resumes f hfrom hctl hstack hmask => exact .inr (.inr ⟨f, hstack, hctl, hmask⟩)
  | stays hctl hstack => exact .inl hstack
  | waits w hfrom hctl hstack => exact .inl hstack
  | calls c hfrom hctl hstack => exact .inl hstack
  | ends w hit hfrom hctl hstack => exact .inl hstack
  | looks c l hfrom hctl hcaller hsnapshot hstack => exact .inl hstack
  | rounds l l' hfrom hctl hcaller hsnapshot hstack => exact .inl hstack
  | leaves c hfrom hctl hstack => exact .inl hstack
  | wakes e hfrom hctl hstack => exact .inl hstack

theorem processReturns_moves (s : SignalState) (c : Caller) (k : ℕ) :
    (s.processReturns c k).ctl = returnTo c ∧ (s.processReturns c k).stack = s.stack ∧
      (s.processReturns c k).blocked_signals = s.blocked_signals := by
  cases c <;> exact ⟨rfl, rfl, rfl⟩

theorem raise_moves (s : SignalState) (sig : ℤ) :
    (s.raise sig).ctl = s.ctl ∧ (s.raise sig).stack = s.stack ∧
      (s.raise sig).blocked_signals = s.init_signals.blocked_signals := by
  rw [SignalState.raise]
  split <;> exact ⟨init_ctl, init_stack, rfl⟩

theorem kill_moves (s : SignalState) (pid sig : ℤ) :
    (s.kill pid sig).ctl = s.ctl ∧ (s.kill pid sig).stack = s.stack := by
  rw [SignalState.kill]
  split
  · exact ⟨init_ctl, init_stack⟩
  · split
    · exact ⟨init_ctl, init_stack⟩
    · split <;> exact ⟨init_ctl, init_stack⟩

theorem Kept.moves (hkept : Kept s.init_signals t) (hctl : s.ctl = .program) : Moves s t :=
  .stays (hkept.ctl.trans init_ctl) (hkept.stack.trans init_stack) fun hno => absurd hctl hno

theorem exec_moves (h : s.signals_initialized = false → s.Fresh) (hctl : s.ctl = .program)
    (c : SignalCall) : Moves s (s.exec c) := by
  cases c with
  | raise sig =>
    obtain ⟨hsame, hstack, -⟩ := raise_moves s sig
    exact .stays hsame hstack fun hno => absurd hctl hno
  | kill pid sig =>
    obtain ⟨hsame, hstack⟩ := kill_moves s pid sig
    exact .stays hsame hstack fun hno => absurd hctl hno
  | signal signum handler => exact (signal_kept s signum handler).moves hctl
  | sigaction signum act => exact (sigaction_kept s signum act).moves hctl
  | sigprocmask how set => exact (sigprocmask_kept s how set).moves hctl
  | sigpending | alarm => exact .stays init_ctl init_stack fun hno => absurd hctl hno
  | posix9_signal_process => exact .calls .program (.inl ⟨hctl, .inl rfl⟩) rfl rfl rfl
  | sleep seconds now => exact .calls (.sleep _) (.inl ⟨hctl, .inr ⟨_, rfl⟩⟩) rfl rfl rfl
  | sigsuspend mask =>
    exact .waits (.sigsuspend mask s.init_signals.blocked_signals s.init_signals.log.length) hctl rfl
      init_stack rfl (init_blocked h)
  | pause =>
    exact .waits (.pause s.init_signals.blocked_signals s.init_signals.log.length) hctl rfl
      init_stack rfl (init_blocked h)

theorem andNot_and (w b : SigSet) : w &&& ~~~b &&& b = 0 := by
  rw [BitVec.and_assoc, BitVec.and_comm (~~~b) b, BitVec.and_not_self]
  exact BitVec.and_zero

theorem checkSignals_moves (h : s.signals_initialized = false → s.Fresh) {c : Caller}
    (hctl : s.ctl = .check c) (cmdPeriod : Bool) : Moves s (s.checkSignals c cmdPeriod) := by
  obtain ⟨r, hr, hcases⟩ := checkSignals_cases s c cmdPeriod
  have hstack : r.stack = s.stack := by
    rcases hr with rfl | rfl <;> exact init_stack
  have hmask : r.blocked_signals = s.blocked_signals := by
    rcases hr with rfl | rfl <;> exact init_blocked h
  rcases hcases with ⟨-, heq⟩ | ⟨-, heq⟩
  · obtain ⟨hreturn, hstack', hmask'⟩ := processReturns_moves r c 0
    rw [heq]
    exact .leaves c (.inl hctl) hreturn (hstack'.trans hstack) (hmask'.trans hmask)
  · rw [heq]
    exact .looks c _ hctl rfl rfl (andNot_and _ _) hstack hmask

theorem processRound_moves {l : Loop} (hctl : s.ctl = .loop l) : Moves s (s.processRound l) := by
  rw [processRound]
  split
  · split
    · rename_i hi hbit
      rw [deliver_signal]
      dsimp only
      split
      · exact .rounds l _ hctl rfl rfl rfl rfl rfl
      · split <;> exact .rounds l _ hctl rfl rfl rfl rfl rfl
      · rename_i a hhandler
        exact .enters l ⟨⟨l.i, hi⟩, s.blocked_signals,
          { l with i := l.i + 1, delivered := l.delivered + 1 }⟩ a hctl rfl hhandler hbit rfl rfl rfl rfl rfl
    · exact .rounds l _ hctl rfl rfl rfl rfl rfl
  · obtain ⟨hreturn, hstack, hmask⟩ := processReturns_moves s l.caller l.delivered
    exact .leaves l.caller (.inr ⟨l, hctl, rfl⟩) hreturn hstack hmask

theorem advance_moves (h : s.signals_initialized = false → s.Fresh) (cmdPeriod : Bool) (now : ℕ) :
    Moves s (s.advance cmdPeriod now) := by
  rw [SignalState.advance]
  cases hctl : s.ctl with
  | program => exact .stays rfl rfl fun _ => rfl
  | check c => exact checkSignals_moves h hctl cmdPeriod
  | loop l => exact processRound_moves hctl
  | test w hit =>
    dsimp only [testWait]
    split
    · refine .ends w hit hctl rfl ?_ rfl
      cases w <;> rfl
    · exact .calls (.round w false) (.inr (.inr ⟨w, hit, hctl, rfl⟩)) rfl rfl rfl
  | sleepTest endTicks =>
    dsimp only [testSleep]
    split
    · exact .calls (.sleep endTicks) (.inr (.inl ⟨endTicks, hctl, rfl⟩)) rfl rfl rfl
    · exact .wakes endTicks hctl rfl rfl rfl

theorem moves_step (h : s.signals_initialized = false → s.Fresh) (a : SignalInput) :
    Moves s (s.step a) := by
  rcases Bool.eq_false_or_eq_true s.exited with hexited | hexited
  · rw [step_exited hexited]
    exact .stays rfl rfl fun _ => rfl
  · cases a with
    | call c =>
      rw [step_call hexited]
      split
      · rename_i hctl
        exact exec_moves h hctl c
      · exact .stays rfl rfl fun _ => rfl
    | handlerReturns =>
      rcases step_handlerReturns hexited with ⟨f, rest, hctl, hstack, heq⟩ | heq
      · rw [heq, SignalState.handlerReturns]
        split <;> exact .resumes f hctl rfl hstack rfl
      · rw [heq]
        exact .stays rfl rfl fun _ => rfl
    | advance cmdPeriod now =>
      rw [step_advance hexited]
      exact advance_moves h cmdPeriod now
    | alarm_callback =>
      rw [step_alarm_callback hexited]
      split <;> exact .stays rfl rfl fun _ => rfl
    | raiseElsewhere sig =>
      rw [step_raiseElsewhere hexited]
      obtain ⟨hsame, hstack, hmask⟩ := raise_moves s sig
      exact .stays hsame hstack fun _ => hmask.trans (init_blocked h)

/-! ### What a handler is entered with -/

/-- The mask lets everything in the snapshot pass. -/
def Passes (blocked : SigSet) (l : Loop) : Prop := l.to_deliver &&& blocked = 0

/-- Between handlers the mask is the one the snapshot was taken under, so the snapshot stays outside it. -/
structure Masked (s : SignalState) : Prop where
  fresh : s.signals_initialized = false → s.Fresh
  loop : ∀ l, s.ctl = .loop l → Passes s.blocked_signals l
  stack : ∀ f ∈ s.stack, Passes f.old_blocked f.resume

theorem Masked.start : start.Masked :=
  ⟨fun _ => Fresh.start, fun l hl => (by cases hl), fun f hf => (by cases hf)⟩

/-- A step to a place outside the loop that leaves the handlers alone. -/
theorem Masked.outside (h : s.Masked) (hfresh : t.signals_initialized = false → t.Fresh)
    (hctl : ∀ l, t.ctl ≠ .loop l) (hstack : t.stack = s.stack) : t.Masked :=
  ⟨hfresh, fun l hl => absurd hl (hctl l), fun f hf => h.stack f (hstack ▸ hf)⟩

theorem Masked.step (h : s.Masked) (a : SignalInput) : (s.step a).Masked := by
  have hfresh := fresh_step h.fresh a
  cases moves_step h.fresh a with
  | stays hctl hstack hmask =>
    refine ⟨hfresh, ?_, fun f hf => h.stack f (hstack ▸ hf)⟩
    intro l hl
    rw [hmask (fun hno => by rw [hctl, hno] at hl; cases hl)]
    exact h.loop l (hctl.symm.trans hl)
  | waits w hfrom hctl hstack =>
    refine h.outside hfresh (fun l hl => ?_) hstack
    rw [hctl] at hl
    cases hl
  | calls c hfrom hctl hstack hmask =>
    refine h.outside hfresh (fun l hl => ?_) hstack
    rw [hctl] at hl
    cases hl
  | ends w hit hfrom hctl hstack =>
    refine h.outside hfresh (fun l hl => ?_) hstack
    rw [hctl] at hl
    cases hl
  | looks c l hfrom hctl hcaller hsnapshot hstack =>
    refine ⟨hfresh, ?_, fun f hf => h.stack f (hstack ▸ hf)⟩
    intro l' hl'
    rw [hctl] at hl'
    cases hl'
    exact hsnapshot
  | rounds l l' hfrom hctl hcaller hsnapshot hstack hmask =>
    refine ⟨hfresh, ?_, fun f hf => h.stack f (hstack ▸ hf)⟩
    intro k hk
    rw [hctl] at hk
    cases hk
    rw [Passes, hsnapshot, hmask]
    exact h.loop l hfrom
  | enters l f b hfrom hctl hhandler hbit hcaller hsnapshot hold hstack hmask =>
    refine ⟨hfresh, fun l hl => ?_, fun g hg => ?_⟩
    · rw [hctl] at hl
      cases hl
    · rw [hstack] at hg
      rcases List.mem_cons.mp hg with rfl | hg
      · rw [Passes, hsnapshot, hold]
        exact h.loop l hfrom
      · exact h.stack g hg
  | resumes f hfrom hctl hstack hmask =>
    refine ⟨hfresh, ?_, fun g hg => h.stack g (hstack ▸ List.mem_cons_of_mem f hg)⟩
    intro l hl
    rw [hctl] at hl
    cases hl
    rw [hmask]
    exact h.stack f (hstack ▸ List.mem_cons_self)
  | leaves c hfrom hctl hstack =>
    refine h.outside hfresh (fun l hl => ?_) hstack
    rw [hctl] at hl
    cases c <;> cases hl
  | wakes e hfrom hctl hstack =>
    refine h.outside hfresh (fun l hl => ?_) hstack
    rw [hctl] at hl
    cases hl

theorem masked_run (before : List SignalInput) : (run step start before).Masked := by
  have halways := always_of_step (fun s a (h : Masked s) => h.step a) Masked.start before
  exact halways.last

/-- The step puts the handler of a frame on top of the others. -/
def Enters (s : SignalState) (a : SignalInput) (f : Frame) : Prop := (s.step a).stack = f :: s.stack

instance (s : SignalState) (a : SignalInput) (f : Frame) : Decidable (s.Enters a f) :=
  inferInstanceAs (Decidable ((s.step a).stack = f :: s.stack))

/-- A handler is entered for a signal that is not blocked, under the mask before it, the mask of its
    action and, unless that says otherwise, the signal itself. -/
structure EnteredMasked (s t : SignalState) (f : Frame) : Prop where
  unblocked : s.blocked_signals.getLsbD f.signum.val = false
  mask : t.blocked_signals = s.blocked_signals ||| (s.signal_actions f.signum).sa_mask |||
    (if (s.signal_actions f.signum).sa_flags &&& SA_NODEFER = 0 then bit f.signum else 0)

theorem passes_bit {l : Loop} {b : SigSet} {n : Signum} (h : Passes b l)
    (hbit : l.to_deliver.getLsbD n.val = true) : b.getLsbD n.val = false := by
  have hand : (l.to_deliver &&& b).getLsbD n.val = false := by
    rw [h]
    exact BitVec.getLsbD_zero
  rwa [BitVec.getLsbD_and, hbit, Bool.true_and] at hand

theorem ne_cons_self {α : Type*} (x : α) (xs : List α) : xs ≠ x :: xs := fun h =>
  absurd (congrArg List.length h) (by simp)

theorem Masked.entered (h : s.Masked) {a : SignalInput} {f : Frame} (henters : s.Enters a f) :
    EnteredMasked s (s.step a) f := by
  rcases (moves_step h.fresh a).stack_cases with hsame | ⟨l, g, hfrom, hbit, hstack, hmask⟩ | ⟨g, hstack, -, -⟩
  · exact absurd (hsame.symm.trans henters) (ne_cons_self f s.stack)
  · obtain ⟨rfl, -⟩ := List.cons.inj (henters.symm.trans hstack)
    exact ⟨passes_bit (h.loop l hfrom) hbit, hmask⟩
  · rw [Enters] at henters
    rw [henters] at hstack
    have hlen := congrArg List.length hstack
    rw [List.length_cons, List.length_cons] at hlen
    omega

/-! ### What a call leaves behind -/

/-- The mask while a call of posix9_signal_process is under way, in a call of the program that was made
    under `M`. -/
def CallerKeeps (M blocked : SigSet) : Caller → Prop
  | .program | .sleep _ => blocked = M
  | .round w _ => blocked = Wait.mask w ∧ Wait.restored w = M
  | .final w => blocked = Wait.restored w ∧ Wait.restored w = M

def CtlKeeps (M blocked : SigSet) : Ctl → Prop
  | .program => False
  | .check c => CallerKeeps M blocked c
  | .loop l => CallerKeeps M blocked l.caller
  | .test w _ => blocked = Wait.mask w ∧ Wait.restored w = M
  | .sleepTest _ => blocked = M

/-- In a call that was made under `M` with the handlers `base` under way: in the call itself, or in a
    handler it runs. -/
inductive Within (base : List Frame) (M : SigSet) (s : SignalState) : Prop where
  | call (hstack : s.stack = base) (hkeeps : CtlKeeps M s.blocked_signals s.ctl)
  | handler (above : List Frame) (f : Frame) (hstack : s.stack = above ++ f :: base)
      (hkeeps : CallerKeeps M f.old_blocked f.resume.caller)

/-- The call has returned to the program, or to the handler that made it. -/
def Back (base : List Frame) (s : SignalState) : Prop := s.ctl = .program ∧ s.stack = base

instance (base : List Frame) : DecidablePred (Back base) := fun s =>
  inferInstanceAs (Decidable (s.ctl = .program ∧ s.stack = base))

theorem CallerKeeps.hit {b : SigSet} {c : Caller} (h : CallerKeeps M b c) :
    CallerKeeps M b (Caller.hit c) := by
  cases c <;> exact h

theorem Within.not_back (h : Within base M s) : ¬ Back base s := by
  rintro ⟨hctl, hstack⟩
  cases h with
  | call _ hkeeps =>
    rw [hctl] at hkeeps
    exact hkeeps
  | handler above f hstack' _ =>
    have hlen := congrArg List.length (hstack.symm.trans hstack')
    rw [List.length_append, List.length_cons] at hlen
    omega

/-- posix9_signal_process returns within the call, or the call returns with it. -/
theorem within_returnTo {c : Caller} (hctl : t.ctl = returnTo c) (hstack : t.stack = base)
    (hkeeps : CallerKeeps M t.blocked_signals c) :
    Within base M t ∨ Back base t ∧ t.blocked_signals = M := by
  cases c with
  | program => exact .inr ⟨⟨hctl, hstack⟩, hkeeps⟩
  | sleep e =>
    refine .inl (.call hstack ?_)
    rw [hctl]
    exact hkeeps
  | round w hit =>
    refine .inl (.call hstack ?_)
    rw [hctl]
    exact hkeeps
  | final w => exact .inr ⟨⟨hctl, hstack⟩, hkeeps.1.trans hkeeps.2⟩

/-- A step of the call itself. -/
theorem within_call (hfresh : s.signals_initialized = false → s.Fresh) (hbase : s.stack = base)
    (hkeeps : CtlKeeps M s.blocked_signals s.ctl) (a : SignalInput) :
    Within base M (s.step a) ∨ Back base (s.step a) ∧ (s.step a).blocked_signals = M := by
  cases moves_step hfresh a with
  | stays hctl hstack hmask =>
    refine .inl (.call (hstack.trans hbase) ?_)
    rw [hctl, hmask fun hno => by rwa [hno] at hkeeps]
    exact hkeeps
  | waits w hfrom =>
    rw [hfrom] at hkeeps
    exact hkeeps.elim
  | calls c hfrom hctl hstack hmask =>
    refine .inl (.call (hstack.trans hbase) ?_)
    rw [hctl, hmask]
    rcases hfrom with ⟨hfrom, -⟩ | ⟨e, hfrom, rfl⟩ | ⟨w, hit, hfrom, rfl⟩
    · rw [hfrom] at hkeeps
      exact hkeeps.elim
    · rw [hfrom] at hkeeps
      exact hkeeps
    · rw [hfrom] at hkeeps
      exact hkeeps
  | ends w hit hfrom hctl hstack hmask =>
    rw [hfrom] at hkeeps
    obtain ⟨hwait, hold⟩ := hkeeps
    refine .inl (.call (hstack.trans hbase) ?_)
    rw [hctl, hmask]
    cases w with
    | sigsuspend mask old start => exact ⟨rfl, hold⟩
    | pause entered start => exact ⟨hwait, hold⟩
  | looks c l hfrom hctl hcaller hsnapshot hstack hmask =>
    rw [hfrom] at hkeeps
    refine .inl (.call (hstack.trans hbase) ?_)
    rw [hctl, hmask, CtlKeeps, hcaller]
    exact hkeeps.hit
  | rounds l l' hfrom hctl hcaller hsnapshot hstack hmask =>
    rw [hfrom, CtlKeeps] at hkeeps
    refine .inl (.call (hstack.trans hbase) ?_)
    rw [hctl, hmask, CtlKeeps, hcaller]
    exact hkeeps
  | enters l f b hfrom hctl hhandler hbit hcaller hsnapshot hold hstack hmask =>
    rw [hfrom, CtlKeeps] at hkeeps
    refine .inl (.handler [] f (by rw [hstack, hbase]; rfl) ?_)
    rw [hold, hcaller]
    exact hkeeps
  | resumes f hfrom =>
    rw [hfrom] at hkeeps
    exact hkeeps.elim
  | leaves c hfrom hctl hstack hmask =>
    refine within_returnTo hctl (hstack.trans hbase) ?_
    rw [hmask]
    rcases hfrom with hfrom | ⟨l, hfrom, rfl⟩
    · rw [hfrom] at hkeeps
      exact hkeeps
    · rw [hfrom] at hkeeps
      exact hkeeps
  | wakes e hfrom hctl hstack hmask =>
    rw [hfrom] at hkeeps
    exact .inr ⟨⟨hctl, hstack.trans hbase⟩, hmask.trans hkeeps⟩

/-- A step in a handler the call runs, or in one that has interrupted it. -/
theorem within_handler (hfresh : s.signals_initialized = false → s.Fresh) {above : List Frame} {f : Frame}
    (hbase : s.stack = above ++ f :: base) (hkeeps : CallerKeeps M f.old_blocked f.resume.caller)
    (a : SignalInput) : Within base M (s.step a) := by
  rcases (moves_step hfresh a).stack_cases with hsame | ⟨l, g, -, -, hstack, -⟩ | ⟨g, hstack, hctl, hmask⟩
  · exact .handler above f (hsame.trans hbase) hkeeps
  · exact .handler (g :: above) f (by rw [hstack, hbase]; rfl) hkeeps
  · rcases above with _ | ⟨k, above⟩
    · -- the handler the call itself runs
      obtain ⟨rfl, hrest⟩ := List.cons.inj (hbase.symm.trans hstack)
      refine .call hrest.symm ?_
      rw [hctl, hmask]
      exact hkeeps
    · obtain ⟨-, hrest⟩ := List.cons.inj (hbase.symm.trans hstack)
      exact .handler above f hrest.symm hkeeps

theorem Within.step (hfresh : s.signals_initialized = false → s.Fresh) (h : Within base M s)
    (a : SignalInput) :
    Within base M (s.step a) ∨ Back base (s.step a) ∧ (s.step a).blocked_signals = M := by
  cases h with
  | call hbase hkeeps => exact within_call hfresh hbase hkeeps a
  | handler above f hbase hkeeps => exact .inl (within_handler hfresh hbase hkeeps a)

/-- The calls that deliver signals, or wait for them. -/
inductive Delivers : SignalCall → Prop where
  | posix9_signal_process : Delivers .posix9_signal_process
  | sigsuspend (mask : SigSet) : Delivers (.sigsuspend mask)
  | pause : Delivers .pause
  | sleep (seconds now : ℕ) : Delivers (.sleep seconds now)

theorem Delivers.within {c : SignalCall} (hc : Delivers c)
    (hfresh : s.signals_initialized = false → s.Fresh) :
    Within s.stack s.blocked_signals (s.exec c) := by
  cases hc with
  | posix9_signal_process => exact .call rfl rfl
  | sleep seconds now => exact .call rfl rfl
  | sigsuspend mask => exact .call init_stack ⟨rfl, init_blocked hfresh⟩
  | pause => exact .call init_stack ⟨rfl, init_blocked hfresh⟩

/-- From any reachable state, whatever the handlers do: a handler is entered for an unblocked signal
    under the mask its action asks for, and a call that delivers signals returns under the mask it was
    made under. -/
theorem mask_discipline (before : List SignalInput) :
    (∀ a f, (run step start before).Enters a f →
      EnteredMasked (run step start before) ((run step start before).step a) f) ∧
    ∀ c after, Delivers c → (run step start before).exited = false →
      (run step start before).ctl = .program →
      First step (Back (run step start before).stack) ((run step start before).step (.call c)) after →
      (run step (run step start before) (.call c :: after)).blocked_signals =
        (run step start before).blocked_signals := by
  have hmasked := masked_run before
  refine ⟨fun a f henters => hmasked.entered henters, ?_⟩
  intro c after hc hexited hctl hfirst
  have hexec : (run step start before).step (.call c) = (run step start before).exec c := by
    rw [step_call hexited, if_pos hctl]
  have hwithin := hc.within hmasked.fresh
  rw [← hexec] at hwithin
  rw [run_cons]
  refine First.holds (Q := fun s => s.blocked_signals = (run step start before).blocked_signals)
    (I := fun s => Within (run step start before).stack (run step start before).blocked_signals s ∧
      s.Masked) (fun s h => h.1.not_back) ?_ ⟨hwithin, hmasked.step _⟩ hfirst
  rintro s a ⟨hwithin, hmasked⟩
  rcases hwithin.step hmasked.fresh a with hnext | hreturned
  · exact .inl ⟨hnext, hmasked.step a⟩
  · exact .inr hreturned

/-- SIGUSR1 is delivered with SIGINT blocked, to a handler that unblocks everything. -/
def beforeProcess : List SignalInput :=
  [.call (.sigaction 10 (some ⟨.user 0, bit SIGALRM, 0⟩)), .call (.sigprocmask 0 (some (bit SIGINT))),
    .call (.raise 10)]

theorem mask_discipline_restored :
    EnteredMasked (run step start (beforeProcess ++ .call .posix9_signal_process :: advances 10))
      ((run step start (beforeProcess ++ .call .posix9_signal_process :: advances 10)).step
        (.advance false 0)) ⟨SIGUSR1, bit SIGINT, ⟨.program, 11, bit SIGUSR1, 1⟩⟩ ∧
    (run step (run step start beforeProcess) (.call .posix9_signal_process :: (advances 11 ++
      [.call (.sigprocmask 2 (some 0)), .handlerReturns] ++ advances 22))).blocked_signals =
        (run step start beforeProcess).blocked_signals :=
  ⟨(mask_discipline _).1 _ _ (by decide +kernel),
    (mask_discipline beforeProcess).2 _ _ .posix9_signal_process (by decide +kernel) (by decide +kernel)
      (by decide +kernel)⟩

end Posix9.SignalState
