import Posix9.Signal

/-! What one step of the signal machine does to the pending signals and the log, and what is known before
    init_signals has run. -/

namespace Posix9.SignalState

variable {s t : SignalState} {n : Signum} {l : Loop}

/-! ### init_signals -/

/-- init_signals runs once. -/
theorem init_of_initialized (h : s.signals_initialized = true) : s.init_signals = s := by
  rw [init_signals, if_pos h]

theorem init_initialized : s.init_signals.signals_initialized = true := by
  rw [init_signals]
  split
  · assumption
  · rfl

/-- init_signals leaves alone where control is and which handlers are running. -/
theorem init_ctl : s.init_signals.ctl = s.ctl := by
  rw [init_signals]
  split <;> rfl

theorem init_stack : s.init_signals.stack = s.stack := by
  rw [init_signals]
  split <;> rfl

/-- Where control can be before init_signals has run. -/
def Unstarted : Ctl → Prop
  | .program | .sleepTest _ | .check .program | .check (.sleep _) => True
  | _ => False

/-- What holds before init_signals has run: nothing is pending or blocked, and nothing has happened. -/
structure Fresh (s : SignalState) : Prop where
  ctl : Unstarted s.ctl
  stack : s.stack = []
  log : s.log = []
  pending : s.pending_signals = 0
  blocked : s.blocked_signals = 0
  alarm : s.alarm_installed = false

/-- The program starts so. -/
theorem Fresh.start : start.Fresh := ⟨trivial, rfl, rfl, rfl, rfl, rfl⟩

/-- init_signals stores an empty mask, which is what the mask is when it runs. -/
theorem init_blocked (h : s.signals_initialized = false → s.Fresh) :
    s.init_signals.blocked_signals = s.blocked_signals := by
  rcases hinit : s.signals_initialized with _ | _
  · rw [(h hinit).blocked, init_signals, hinit]
    rfl
  · rw [init_of_initialized hinit]

/-- posix9_signal_process up to its loop: the look at the keyboard, and whether anything can be
    delivered then. -/
theorem checkSignals_cases (s : SignalState) (c : Caller) (cmdPeriod : Bool) :
    ∃ r, (r = s.init_signals ∨ r = s.init_signals.makePending SIGINT) ∧
      (r.pending_signals &&& ~~~r.blocked_signals = 0 ∧ s.checkSignals c cmdPeriod = r.processReturns c 0 ∨
        r.pending_signals &&& ~~~r.blocked_signals ≠ 0 ∧ s.checkSignals c cmdPeriod =
          { r with ctl := .loop ⟨Caller.hit c, 1, r.pending_signals &&& ~~~r.blocked_signals, 0⟩ }) := by
  have hlook : ∀ r : SignalState, s.checkSignals c cmdPeriod =
      (if r.pending_signals &&& ~~~r.blocked_signals = 0 then r.processReturns c 0
        else { r with ctl := .loop ⟨Caller.hit c, 1, r.pending_signals &&& ~~~r.blocked_signals, 0⟩ }) →
      r.pending_signals &&& ~~~r.blocked_signals = 0 ∧ s.checkSignals c cmdPeriod = r.processReturns c 0 ∨
        r.pending_signals &&& ~~~r.blocked_signals ≠ 0 ∧ s.checkSignals c cmdPeriod =
          { r with ctl := .loop ⟨Caller.hit c, 1, r.pending_signals &&& ~~~r.blocked_signals, 0⟩ } := by
    intro r heq
    split at heq
    · rename_i hnone
      exact .inl ⟨hnone, heq⟩
    · rename_i hsome
      exact .inr ⟨hsome, heq⟩
  -- `r` is the state the snapshot `to_deliver` is taken in
  cases cmdPeriod with
  | false => exact ⟨s.init_signals, .inl rfl, hlook _ rfl⟩
  | true => exact ⟨s.init_signals.makePending SIGINT, .inr rfl, hlook _ rfl⟩

/-! ### Pending signals and the log -/

/-- A signal is made pending, or is delivered in a round of posix9_signal_process, or neither. -/
inductive Touches (s t : SignalState) : Prop where
  | still (hpending : t.pending_signals = s.pending_signals) (hlog : t.log = s.log)
  | made (n : Signum) (hpending : t.pending_signals = s.pending_signals ||| bit n)
      (hlog : t.log = .madePending n :: s.log)
  | delivered (n : Signum) (l : Loop) (hctl : s.ctl = .loop l) (hround : l.i = n.val)
      (hpending : t.pending_signals = s.pending_signals &&& ~~~bit n)
      (hlog : t.log = .delivered ⟨n, s.blocked_signals⟩ :: s.log)

/-- raise and kill make their signal pending, where the number is one, and deliver nothing. -/
theorem touches_raise (s : SignalState) (sig : ℤ) : Touches s.init_signals (s.raise sig) := by
  rw [SignalState.raise]
  split
  · exact .still rfl rfl
  · rename_i n _
    exact .made n rfl rfl

theorem touches_kill (s : SignalState) (pid sig : ℤ) : Touches s.init_signals (s.kill pid sig) := by
  rw [SignalState.kill]
  split
  · exact .still rfl rfl
  · split
    · exact .still rfl rfl
    · split
      · exact .still rfl rfl
      · rename_i n _
        exact .made n rfl rfl

/-- Only raise and kill touch the pending signals. The other calls change handlers and the mask, or go over
    to waiting. -/
theorem touches_exec (s : SignalState) (c : SignalCall) :
    Touches s (s.exec c) ∨ Touches s.init_signals (s.exec c) := by
  cases c with
  | raise sig => exact .inr (touches_raise s sig)
  | kill pid sig => exact .inr (touches_kill s pid sig)
  | signal signum handler =>
    have hkept := signal_kept s signum handler
    exact .inr (.still hkept.pending hkept.log)
  | sigaction signum act =>
    have hkept := sigaction_kept s signum act
    exact .inr (.still hkept.pending hkept.log)
  | sigprocmask how set =>
    have hkept := sigprocmask_kept s how set
    exact .inr (.still hkept.pending hkept.log)
  | sigpending | alarm | sigsuspend | pause => exact .inr (.still rfl rfl)
  | posix9_signal_process | sleep => exact .inl (.still rfl rfl)

theorem processReturns_pending (s : SignalState) (c : Caller) (k : ℕ) :
    (s.processReturns c k).pending_signals = s.pending_signals ∧ (s.processReturns c k).log = s.log := by
  cases c <;> exact ⟨rfl, rfl⟩

/-- Command-period makes SIGINT pending. The look at what can be delivered then changes nothing. -/
theorem touches_checkSignals (s : SignalState) (c : Caller) (cmdPeriod : Bool) :
    Touches s.init_signals (s.checkSignals c cmdPeriod) := by
  have hkeys : ∀ {r u : SignalState}, (r = s.init_signals ∨ r = s.init_signals.makePending SIGINT) →
      u.pending_signals = r.pending_signals → u.log = r.log → Touches s.init_signals u := by
    rintro r u (rfl | rfl) hpending hlog
    · exact .still hpending hlog
    · exact .made SIGINT hpending hlog
  rcases checkSignals_cases s c cmdPeriod with ⟨r, hr, ⟨-, heq⟩ | ⟨-, heq⟩⟩
  · rw [heq]
    exact hkeys hr (processReturns_pending r c 0).1 (processReturns_pending r c 0).2
  · rw [heq]
    exact hkeys hr rfl rfl

/-- Each entry of deliver_signal is logged, with the mask it found, and the bit has been cleared in front of
    it. -/
theorem deliver_signal_log (s : SignalState) (n : Signum) (l : Loop) :
    (s.deliver_signal n l).pending_signals = s.pending_signals ∧
      (s.deliver_signal n l).log = .delivered ⟨n, s.blocked_signals⟩ :: s.log := by
  rw [deliver_signal]
  dsimp only
  split
  · exact ⟨rfl, rfl⟩
  · split <;> exact ⟨rfl, rfl⟩
  · exact ⟨rfl, rfl⟩

/-- A round of the loop of posix9_signal_process delivers the signal of its index, or none. -/
theorem touches_processRound (h : s.ctl = .loop l) : Touches s (s.processRound l) := by
  rw [processRound]
  split
  · rename_i hi
    split
    · have hdeliver := (s.clearPending ⟨l.i, hi⟩).deliver_signal_log ⟨l.i, hi⟩
        { l with i := l.i + 1, delivered := l.delivered + 1 }
      exact .delivered ⟨l.i, hi⟩ l h rfl hdeliver.1 hdeliver.2
    · exact .still rfl rfl
  · exact .still (processReturns_pending s _ _).1 (processReturns_pending s _ _).2

/-- The program going on by one step, wherever it is. -/
theorem touches_advance (s : SignalState) (cmdPeriod : Bool) (now : ℕ) :
    Touches s (s.advance cmdPeriod now) ∨ Touches s.init_signals (s.advance cmdPeriod now) := by
  rw [SignalState.advance]
  cases hctl : s.ctl with
  | program => exact .inl (.still rfl rfl)
  | check c => exact .inr (touches_checkSignals s c cmdPeriod)
  | loop l => exact .inl (touches_processRound hctl)
  | test w hit =>
    dsimp only [testWait]
    split
    · cases w <;> exact .inl (.still rfl rfl)
    · exact .inl (.still rfl rfl)
  | sleepTest endTicks =>
    dsimp only [testSleep]
    split <;> exact .inl (.still rfl rfl)

/-- Every step touches one signal at the most, in the state it starts from or behind the init_signals that
    it runs first. -/
theorem touches_step (s : SignalState) (a : SignalInput) :
    Touches s (s.step a) ∨ Touches s.init_signals (s.step a) := by
  rcases Bool.eq_false_or_eq_true s.exited with hexited | hexited
  · rw [step_exited hexited]
    exact .inl (.still rfl rfl)
  · cases a with
    | call c =>
      rw [step_call hexited]
      split
      · exact touches_exec s c
      · exact .inl (.still rfl rfl)
    | handlerReturns =>
      rcases step_handlerReturns hexited with ⟨f, rest, _, _, heq⟩ | heq
      · rw [heq, SignalState.handlerReturns]
        split <;> exact .inl (.still rfl rfl)
      · rw [heq]
        exact .inl (.still rfl rfl)
    | advance cmdPeriod now =>
      rw [step_advance hexited]
      exact touches_advance s cmdPeriod now
    | alarm_callback =>
      rw [step_alarm_callback hexited]
      split
      · exact .inl (.made SIGALRM rfl rfl)
      · exact .inl (.still rfl rfl)
    | raiseElsewhere sig =>
      rw [step_raiseElsewhere hexited]
      cases touches_raise s sig with
      | still hp hl => exact .inr (.still hp hl)
      | made n hp hl => exact .inr (.made n hp hl)
      | delivered n l hctl hround hp hl => exact .inr (.delivered n l hctl hround hp hl)

/-! ### Before init_signals has run -/

theorem processReturns_initialized (s : SignalState) (c : Caller) (k : ℕ) :
    (s.processReturns c k).signals_initialized = s.signals_initialized := by
  cases c <;> rfl

/-- posix9_signal_process initialises, whatever it finds. -/
theorem checkSignals_initialized (s : SignalState) (c : Caller) (cmdPeriod : Bool) :
    (s.checkSignals c cmdPeriod).signals_initialized = true := by
  obtain ⟨r, hr, hcases⟩ := checkSignals_cases s c cmdPeriod
  have hinit : r.signals_initialized = true := by
    rcases hr with rfl | rfl <;> exact init_initialized
  rcases hcases with ⟨-, heq⟩ | ⟨-, heq⟩
  · rw [heq, processReturns_initialized]
    exact hinit
  · rw [heq]
    exact hinit

/-- The rounds of its loop, the tests of the waits and the return leave that as it is. -/
theorem processRound_initialized (s : SignalState) (l : Loop) :
    (s.processRound l).signals_initialized = s.signals_initialized := by
  rw [processRound]
  split
  · split
    · rw [deliver_signal]
      dsimp only
      split
      · rfl
      · split <;> rfl
      · rfl
    · rfl
  · exact processReturns_initialized s _ _

theorem testWait_initialized (s : SignalState) (w : Wait) :
    (s.testWait w).signals_initialized = s.signals_initialized := by
  rw [testWait]
  split
  · cases w <;> rfl
  · rfl

theorem raise_initialized (s : SignalState) (sig : ℤ) : (s.raise sig).signals_initialized = true := by
  rw [SignalState.raise]
  split <;> exact init_initialized

theorem kill_initialized (s : SignalState) (pid sig : ℤ) :
    (s.kill pid sig).signals_initialized = true := by
  rw [SignalState.kill]
  split
  · exact init_initialized
  · split
    · exact init_initialized
    · split <;> exact init_initialized

/-- A call other than posix9_signal_process and sleep initialises. -/
theorem exec_fresh (h : s.signals_initialized = false → s.Fresh) (c : SignalCall)
    (hun : (s.exec c).signals_initialized = false) : (s.exec c).Fresh := by
  have habsurd : (s.exec c).signals_initialized = true → (s.exec c).Fresh := by
    intro habs
    rw [habs] at hun
    cases hun
  cases c with
  | raise sig => exact habsurd (raise_initialized s sig)
  | kill pid sig => exact habsurd (kill_initialized s pid sig)
  | signal signum handler =>
    exact habsurd ((signal_kept s signum handler).initialized.trans init_initialized)
  | sigaction signum act =>
    exact habsurd ((sigaction_kept s signum act).initialized.trans init_initialized)
  | sigprocmask how set =>
    exact habsurd ((sigprocmask_kept s how set).initialized.trans init_initialized)
  | sigpending | alarm | sigsuspend | pause => exact habsurd init_initialized
  | posix9_signal_process | sleep =>
    obtain ⟨-, hstack, hlog, hpending, hblocked, halarm⟩ := h hun
    exact ⟨trivial, hstack, hlog, hpending, hblocked, halarm⟩

/-- Where nothing has been initialised yet the program can only have waited in sleep, which looks at the
    clock and goes on. -/
theorem advance_fresh (h : s.signals_initialized = false → s.Fresh) (cmdPeriod : Bool) (now : ℕ)
    (hun : (s.advance cmdPeriod now).signals_initialized = false) :
    (s.advance cmdPeriod now).Fresh := by
  rw [SignalState.advance] at hun ⊢
  cases hctl : s.ctl with
  | program =>
    rw [hctl] at hun
    exact h hun
  | check c =>
    rw [hctl] at hun
    have habs := checkSignals_initialized s c cmdPeriod
    exact absurd (hun.symm.trans habs) (by decide)
  -- a loop or a test of a wait is behind init_signals, so that neither can be here
  | loop l =>
    rw [hctl] at hun
    have hctl' := (h ((processRound_initialized s l).symm.trans hun)).ctl
    rw [hctl] at hctl'
    exact hctl'.elim
  | test w hit =>
    rw [hctl] at hun
    have hctl' := (h ((testWait_initialized s w).symm.trans hun)).ctl
    rw [hctl] at hctl'
    exact hctl'.elim
  | sleepTest endTicks =>
    rw [hctl] at hun
    dsimp only [testSleep] at hun ⊢
    split at hun
    · rename_i hlate
      obtain ⟨-, hstack, hlog, hpending, hblocked, halarm⟩ := h hun
      rw [if_pos hlate]
      exact ⟨trivial, hstack, hlog, hpending, hblocked, halarm⟩
    · rename_i hlate
      obtain ⟨-, hstack, hlog, hpending, hblocked, halarm⟩ := h hun
      rw [if_neg hlate]
      exact ⟨trivial, hstack, hlog, hpending, hblocked, halarm⟩

/-- Every step either initialises or keeps what holds before. -/
theorem fresh_step (h : s.signals_initialized = false → s.Fresh) (a : SignalInput)
    (hun : (s.step a).signals_initialized = false) : (s.step a).Fresh := by
  rcases Bool.eq_false_or_eq_true s.exited with hexited | hexited
  · rw [step_exited hexited] at hun ⊢
    exact h hun
  · cases a with
    | call c =>
      rw [step_call hexited] at hun ⊢
      split at hun
      · rename_i hctl
        rw [if_pos hctl]
        exact exec_fresh h c hun
      · rename_i hctl
        rw [if_neg hctl]
        exact h hun
    | handlerReturns =>
      rcases step_handlerReturns hexited with ⟨f, rest, _, hstack, heq⟩ | heq
      · rw [heq, SignalState.handlerReturns] at hun
        have hno : s.signals_initialized = false := by
          split at hun <;> exact hun
        rw [(h hno).stack] at hstack
        cases hstack
      · rw [heq] at hun ⊢
        exact h hun
    | advance cmdPeriod now =>
      rw [step_advance hexited] at hun ⊢
      exact advance_fresh h cmdPeriod now hun
    | alarm_callback =>
      rw [step_alarm_callback hexited] at hun ⊢
      split at hun
      -- no alarm is installed before alarm has run, and alarm initialises
      · rename_i halarm
        have hfresh := h hun
        rw [hfresh.alarm] at halarm
        cases halarm
      · rename_i halarm
        rw [if_neg halarm]
        exact h hun
    | raiseElsewhere sig =>
      rw [step_raiseElsewhere hexited] at hun
      exact absurd (hun.symm.trans (raise_initialized s sig)) (by decide)

end Posix9.SignalState
