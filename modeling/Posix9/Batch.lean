import Posix9.Masks

/-! What a call that delivers signals has done when it returns. posix9_signal_process goes over a snapshot of
    what is deliverable, with handlers running in between that may change everything but the snapshot; the
    calls that wait end with such a pass under the mask they were made under. -/

namespace Posix9.SignalState
open Runs

variable {s t : SignalState} {M : SigSet} {base : List Frame} {n : Signum} {len : ℕ} {c : Caller} {l : Loop}

/-! ### What a signal is owed -/

/-- The signal has been delivered since the log had a given length. -/
def DeliveredSince (len : ℕ) (n : Signum) (s : SignalState) : Prop := ∃ d ∈ s.since len, d.signum = n

instance (len : ℕ) (n : Signum) : DecidablePred (DeliveredSince len n) := fun s =>
  inferInstanceAs (Decidable (∃ d ∈ s.since len, d.signum = n))

/-- A loop that comes to the signal, unless it is one of a round of a waiting loop. -/
def Sweeps (n : Signum) (l : Loop) : Prop :=
  match l.caller with
  | .round _ _ => True
  | .program | .sleep _ | .final _ => l.to_deliver.getLsbD n.val = true ∧ l.i ≤ n.val

/-- Where a call made under `M` is before it has delivered the signal. -/
def CtlOwes (M : SigSet) (n : Signum) (blocked : SigSet) : Ctl → Prop
  | .program | .sleepTest _ => False
  | .check c => CallerKeeps M blocked c
  | .loop l => CallerKeeps M blocked l.caller ∧ Sweeps n l
  | .test w _ => blocked = Wait.mask w ∧ Wait.restored w = M

/-- In a call that was made under `M` with the handlers `base` under way and has the signal still to
    deliver: in the call itself, or in a handler it runs. -/
inductive Owing (base : List Frame) (M : SigSet) (n : Signum) (s : SignalState) : Prop where
  | call (hstack : s.stack = base) (howes : CtlOwes M n s.blocked_signals s.ctl)
  | handler (above : List Frame) (f : Frame) (hstack : s.stack = above ++ f :: base)
      (hkeeps : CallerKeeps M f.old_blocked f.resume.caller) (hsweeps : Sweeps n f.resume)

theorem CtlOwes.keeps {b : SigSet} {c : Ctl} (h : CtlOwes M n b c) : CtlKeeps M b c := by
  cases c with
  | program => exact h
  | check c => exact h
  | loop l => exact h.1
  | test w hit => exact h
  | sleepTest e => exact h.elim

theorem Owing.within (h : Owing base M n s) : Within base M s := by
  cases h with
  | call hstack howes => exact .call hstack howes.keeps
  | handler above f hstack hkeeps _ => exact .handler above f hstack hkeeps

/-- Under any caller but a round of a waiting loop, the mask is the one of the call. -/
theorem CallerKeeps.mask {b : SigSet} (h : CallerKeeps M b c) : (∃ w hit, c = .round w hit) ∨ b = M := by
  cases c with
  | round w hit => exact .inl ⟨w, hit, rfl⟩
  | program => exact .inr h
  | sleep e => exact .inr h
  | final w => exact .inr (h.1.trans h.2)

theorem sweeps_iff : Sweeps n l ↔
    (∃ w hit, l.caller = .round w hit) ∨ l.to_deliver.getLsbD n.val = true ∧ l.i ≤ n.val := by
  rw [Sweeps]
  cases l.caller <;> simp

/-! ### The signal stays pending until it is delivered -/

theorem DeliveredSince.step (h : DeliveredSince len n s) (hlen : len ≤ s.log.length) (hlog : Grows s t) :
    DeliveredSince len n t := by
  obtain ⟨d, hd, hn⟩ := h
  refine ⟨d, ?_, hn⟩
  rcases hlog with hlog | ⟨m | d', hlog⟩
  · rwa [since_congr hlog]
  · rwa [since_madePending hlog hlen]
  · rw [since_delivered hlog hlen]
    exact List.mem_cons_of_mem d' hd

theorem Touches.grows (h : Touches s t) : Grows s t := by
  cases h with
  | still _ hlog => exact .inl hlog
  | made m _ hlog => exact .inr ⟨_, hlog⟩
  | delivered m l _ _ _ hlog => exact .inr ⟨_, hlog⟩

theorem init_log : s.init_signals.log = s.log := by
  rw [init_signals]
  split <;> rfl

theorem grows_step (s : SignalState) (a : SignalInput) : Grows s (s.step a) := by
  rcases touches_step s a with h | h
  · exact h.grows
  · have hlog := h.grows
    rwa [Grows, init_log] at hlog

theorem initialized_of_pending (hfresh : s.signals_initialized = false → s.Fresh)
    (hn : s.pending_signals.getLsbD n.val = true) : s.signals_initialized = true := by
  rcases hinit : s.signals_initialized with _ | _
  · rw [(hfresh hinit).pending] at hn
    cases hn.symm.trans BitVec.getLsbD_zero
  · rfl

/-- A step leaves the signal pending or delivers it. -/
theorem pending_step (hfresh : s.signals_initialized = false → s.Fresh)
    (hn : s.pending_signals.getLsbD n.val = true) (hlen : len ≤ s.log.length) (a : SignalInput) :
    (s.step a).pending_signals.getLsbD n.val = true ∨ DeliveredSince len n (s.step a) := by
  have htouches : Touches s (s.step a) := by
    have h := touches_step s a
    rwa [init_of_initialized (initialized_of_pending hfresh hn), or_self] at h
  cases htouches with
  | still hpending hlog => exact .inl (by rw [hpending, hn])
  | made m hpending hlog => exact .inl (by rw [hpending, getLsbD_or_bit, hn, Bool.true_or])
  | delivered m l hctl hround hpending hlog =>
    rcases eq_or_ne m n with rfl | hne
    · exact .inr ⟨_, by rw [since_delivered hlog hlen]; exact List.mem_cons_self, rfl⟩
    · exact .inl (by rw [hpending, getLsbD_andNot_bit, hn, decide_eq_false hne]; rfl)

/-! ### What a step of the call does -/

/-- While a library function is under way it goes on, or nothing happens to it. -/
theorem underWay_step (hfresh : s.signals_initialized = false → s.Fresh) (hctl : s.ctl ≠ .program)
    (a : SignalInput) : (∃ cmdPeriod now, s.step a = s.advance cmdPeriod now) ∨
      (s.step a).ctl = s.ctl ∧ (s.step a).stack = s.stack ∧
        (s.step a).blocked_signals = s.blocked_signals := by
  rcases Bool.eq_false_or_eq_true s.exited with hexited | hexited
  · rw [step_exited hexited]
    exact .inr ⟨rfl, rfl, rfl⟩
  · cases a with
    | call c =>
      rw [step_call hexited, if_neg hctl]
      exact .inr ⟨rfl, rfl, rfl⟩
    | handlerReturns =>
      rcases step_handlerReturns hexited with ⟨f, rest, hprogram, -, -⟩ | heq
      · exact absurd hprogram hctl
      · rw [heq]
        exact .inr ⟨rfl, rfl, rfl⟩
    | advance cmdPeriod now =>
      rw [step_advance hexited]
      exact .inl ⟨cmdPeriod, now, rfl⟩
    | alarm_callback =>
      rw [step_alarm_callback hexited]
      split <;> exact .inr ⟨rfl, rfl, rfl⟩
    | raiseElsewhere sig =>
      rw [step_raiseElsewhere hexited]
      obtain ⟨hsame, hstack, hmask⟩ := raise_moves s sig
      exact .inr ⟨hsame, hstack, hmask.trans (init_blocked hfresh)⟩

/-- A pass that begins while the signal is deliverable comes to it. -/
theorem Owing.checkSignals (hfresh : s.signals_initialized = false → s.Fresh) (hbase : s.stack = base)
    (hkeeps : CallerKeeps M s.blocked_signals c) (hpos : 0 < n.val) (hM : M.getLsbD n.val = false)
    (hn : s.pending_signals.getLsbD n.val = true) (cmdPeriod : Bool) :
    Owing base M n (s.checkSignals c cmdPeriod) := by
  obtain ⟨r, hr, hcases⟩ := checkSignals_cases s c cmdPeriod
  have hstack : r.stack = base := by
    rcases hr with rfl | rfl <;> exact init_stack.trans hbase
  have hmask : r.blocked_signals = s.blocked_signals := by
    rcases hr with rfl | rfl <;> exact init_blocked hfresh
  have hpending : r.pending_signals.getLsbD n.val = true := by
    have hinit := init_of_initialized (initialized_of_pending hfresh hn)
    rcases hr with rfl | rfl
    · rw [hinit, hn]
    · rw [hinit, makePending, getLsbD_or_bit, hn, Bool.true_or]
  rw [← hmask] at hkeeps
  have hlook : (∃ w hit, c = .round w hit) ∨
      (r.pending_signals &&& ~~~r.blocked_signals).getLsbD n.val = true := by
    refine hkeeps.mask.imp_right fun hsame => ?_
    rw [BitVec.getLsbD_and, BitVec.getLsbD_not, hpending, hsame, hM, Bool.not_false, Bool.and_true,
      Bool.true_and]
    exact decide_eq_true n.isLt
  rcases hcases with ⟨hnone, heq⟩ | ⟨-, heq⟩
  · rw [heq]
    rcases hlook with ⟨w, hit, rfl⟩ | hbit
    · exact .call hstack hkeeps
    · rw [hnone] at hbit
      cases hbit.symm.trans BitVec.getLsbD_zero
  · rw [heq]
    refine .call hstack ⟨hkeeps.hit, sweeps_iff.mpr ?_⟩
    rcases hlook with ⟨w, hit, rfl⟩ | hbit
    · exact .inl ⟨w, true, rfl⟩
    · exact .inr ⟨hbit, hpos⟩

/-- A round for another signal leaves it in front of the loop. -/
theorem Sweeps.next (h : Sweeps n l) (hne : l.to_deliver.getLsbD n.val = true → l.i ≠ n.val) (k : ℕ) :
    Sweeps n { l with i := l.i + 1, delivered := k } := by
  rw [sweeps_iff] at h ⊢
  refine h.imp_right fun ⟨hbit, hle⟩ => ⟨hbit, ?_⟩
  exact Nat.lt_of_le_of_ne hle (hne hbit)

theorem Owing.deliver_signal (hbase : s.stack = base) {m : Signum}
    (hkeeps : CallerKeeps M s.blocked_signals l.caller) (hsweeps : Sweeps n l) :
    Owing base M n (s.deliver_signal m l) := by
  rw [SignalState.deliver_signal]
  dsimp only
  split
  · exact .call hbase ⟨hkeeps, hsweeps⟩
  · split <;> exact .call hbase ⟨hkeeps, hsweeps⟩
  · exact .handler [] ⟨m, s.blocked_signals, l⟩ (by rw [hbase]; rfl) hkeeps hsweeps

/-- A round of the loop comes nearer to the signal, or delivers it. -/
theorem Owing.processRound (hbase : s.stack = base) (hkeeps : CallerKeeps M s.blocked_signals l.caller)
    (hsweeps : Sweeps n l) (hlen : len ≤ s.log.length) :
    Owing base M n (s.processRound l) ∨ DeliveredSince len n (s.processRound l) := by
  rw [SignalState.processRound]
  split
  · rename_i hi
    split
    · rename_i hbit
      rcases eq_or_ne l.i n.val with heq | hne
      · refine .inr ⟨⟨⟨l.i, hi⟩, s.blocked_signals⟩, ?_, Fin.ext heq⟩
        have hlog := ((s.clearPending ⟨l.i, hi⟩).deliver_signal_log ⟨l.i, hi⟩
          { l with i := l.i + 1, delivered := l.delivered + 1 }).2
        rw [since_delivered hlog hlen]
        exact List.mem_cons_self
      · exact .inl (Owing.deliver_signal (s := s.clearPending ⟨l.i, hi⟩) hbase hkeeps
          (hsweeps.next (fun _ => hne) _))
    · rename_i hbit
      refine .inl (.call hbase ⟨hkeeps, hsweeps.next (fun hn heq => hbit ?_) _⟩)
      rw [heq, hn]
  · rename_i hi
    rcases sweeps_iff.mp hsweeps with ⟨w, hit, hcaller⟩ | ⟨-, hle⟩
    · rw [hcaller] at hkeeps ⊢
      exact .inl (.call hbase hkeeps)
    · exact absurd (Nat.lt_of_le_of_lt hle n.isLt) hi

/-- A step of the call itself, in front of the signal's delivery. -/
theorem Owing.step_call (hfresh : s.signals_initialized = false → s.Fresh) (hbase : s.stack = base)
    (howes : CtlOwes M n s.blocked_signals s.ctl) (hpos : 0 < n.val) (hM : M.getLsbD n.val = false)
    (hn : s.pending_signals.getLsbD n.val = true) (hlen : len ≤ s.log.length) (a : SignalInput) :
    Owing base M n (s.step a) ∨ DeliveredSince len n (s.step a) := by
  have hctl : s.ctl ≠ .program := fun h => by rwa [h] at howes
  rcases underWay_step hfresh hctl a with ⟨cmdPeriod, now, heq⟩ | ⟨hsame, hstack, hmask⟩
  · rw [heq, SignalState.advance]
    cases hat : s.ctl with
    | program => exact absurd hat hctl
    | check c =>
      rw [hat] at howes
      exact .inl (Owing.checkSignals hfresh hbase howes hpos hM hn cmdPeriod)
    | loop l =>
      rw [hat] at howes
      exact Owing.processRound hbase howes.1 howes.2 hlen
    | test w hit =>
      rw [hat] at howes
      obtain ⟨hwait, hold⟩ := howes
      refine .inl ?_
      dsimp only [testWait]
      split
      · cases w with
        | sigsuspend mask old start => exact .call hbase ⟨rfl, hold⟩
        | pause entered start => exact .call hbase ⟨hwait, hold⟩
      · exact .call hbase ⟨hwait, hold⟩
    | sleepTest e =>
      rw [hat] at howes
      exact howes.elim
  · refine .inl (.call (hstack.trans hbase) ?_)
    rwa [hsame, hmask]

/-- A step in a handler the call runs leaves the loop under it where it is. -/
theorem Owing.step_handler (hfresh : s.signals_initialized = false → s.Fresh) {above : List Frame}
    {f : Frame} (hbase : s.stack = above ++ f :: base) (hkeeps : CallerKeeps M f.old_blocked f.resume.caller)
    (hsweeps : Sweeps n f.resume) (a : SignalInput) : Owing base M n (s.step a) := by
  rcases (moves_step hfresh a).stack_cases with hsame | ⟨l, g, -, -, hstack, -⟩ | ⟨g, hstack, hctl, hmask⟩
  · exact .handler above f (hsame.trans hbase) hkeeps hsweeps
  · exact .handler (g :: above) f (by rw [hstack, hbase]; rfl) hkeeps hsweeps
  · rcases above with _ | ⟨k, above⟩
    · obtain ⟨rfl, hrest⟩ := List.cons.inj (hbase.symm.trans hstack)
      refine .call hrest.symm ?_
      rw [hctl, hmask]
      exact ⟨hkeeps, hsweeps⟩
    · obtain ⟨-, hrest⟩ := List.cons.inj (hbase.symm.trans hstack)
      exact .handler above f hrest.symm hkeeps hsweeps

/-! ### Until the call returns -/

/-- In a call made under `M` that has delivered the signal, or has it to deliver with the signal pending. -/
structure Answering (base : List Frame) (M : SigSet) (len : ℕ) (n : Signum) (s : SignalState) : Prop where
  fresh : s.signals_initialized = false → s.Fresh
  length : len ≤ s.log.length
  owed : DeliveredSince len n s ∧ Within base M s ∨
    s.pending_signals.getLsbD n.val = true ∧ Owing base M n s

theorem Answering.not_back (h : Answering base M len n s) : ¬ Back base s := by
  rcases h.owed with ⟨-, hwithin⟩ | ⟨-, howing⟩
  · exact hwithin.not_back
  · exact howing.within.not_back

theorem Answering.step (h : Answering base M len n s) (hpos : 0 < n.val) (hM : M.getLsbD n.val = false)
    (a : SignalInput) :
    Answering base M len n (s.step a) ∨ Back base (s.step a) ∧ DeliveredSince len n (s.step a) := by
  have hfresh := fresh_step h.fresh a
  have hlength := Nat.le_trans h.length (grows_step s a).length_le
  have hdelivered : DeliveredSince len n (s.step a) → Within base M s →
      Answering base M len n (s.step a) ∨ Back base (s.step a) ∧ DeliveredSince len n (s.step a) := by
    intro hdone hwithin
    rcases hwithin.step h.fresh a with hnext | ⟨hback, -⟩
    · exact .inl ⟨hfresh, hlength, .inl ⟨hdone, hnext⟩⟩
    · exact .inr ⟨hback, hdone⟩
  rcases h.owed with ⟨hdone, hwithin⟩ | ⟨hn, howing⟩
  · exact hdelivered (hdone.step h.length (grows_step s a)) hwithin
  · have hnext : Owing base M n (s.step a) ∨ DeliveredSince len n (s.step a) := by
      cases howing with
      | call hbase howes => exact Owing.step_call h.fresh hbase howes hpos hM hn h.length a
      | handler above f hbase hkeeps hsweeps =>
        exact .inl (Owing.step_handler h.fresh hbase hkeeps hsweeps a)
    rcases hnext with hnext | hdone
    · rcases pending_step h.fresh hn h.length a with hpending | hdone
      · exact .inl ⟨hfresh, hlength, .inr ⟨hpending, hnext⟩⟩
      · exact hdelivered hdone howing.within
    · exact hdelivered hdone howing.within

/-- A call is made while the signal is deliverable. -/
theorem Delivers.answering {c' : SignalCall} (hc : Delivers c') (hfresh : s.signals_initialized = false → s.Fresh)
    (hn : s.pending_signals.getLsbD n.val = true) :
    s.log.length ≤ (s.exec c').log.length ∧ (s.exec c').pending_signals.getLsbD n.val = true ∧
      Owing s.stack s.blocked_signals n (s.exec c') := by
  have hinit := init_of_initialized (initialized_of_pending hfresh hn)
  cases hc with
  | posix9_signal_process => exact ⟨Nat.le_refl _, hn, .call rfl rfl⟩
  | sleep seconds now => exact ⟨Nat.le_refl _, hn, .call rfl rfl⟩
  | sigsuspend mask =>
    rw [exec, SignalState.sigsuspend, hinit]
    exact ⟨Nat.le_refl _, hn, .call rfl ⟨rfl, rfl⟩⟩
  | pause =>
    rw [exec, SignalState.pause, hinit]
    exact ⟨Nat.le_refl _, hn, .call rfl ⟨rfl, rfl⟩⟩

/-- In every run, whatever the handlers do: when posix9_signal_process, sleep, sigsuspend or pause returns,
    every signal that was pending and not blocked when it was called has been delivered in the meantime. -/
theorem deliverable_delivered (before : List SignalInput) (c : SignalCall) (after : List SignalInput)
    (n : Signum) (hc : Delivers c) (hexited : (run step start before).exited = false)
    (hctl : (run step start before).ctl = .program) (hpos : 0 < n.val)
    (hn : (run step start before).pending_signals.getLsbD n.val = true)
    (hblocked : (run step start before).blocked_signals.getLsbD n.val = false)
    (hfirst : First step (Back (run step start before).stack) ((run step start before).step (.call c)) after) :
    DeliveredSince (run step start before).log.length n (run step (run step start before) (.call c :: after)) := by
  have hmasked := masked_run before
  have hexec : (run step start before).step (.call c) = (run step start before).exec c := by
    rw [SignalState.step_call hexited, if_pos hctl]
  obtain ⟨hlength, hpending, howing⟩ := hc.answering hmasked.fresh hn
  have hanswering : Answering (run step start before).stack (run step start before).blocked_signals
      (run step start before).log.length n ((run step start before).step (.call c)) := by
    refine ⟨fresh_step hmasked.fresh _, ?_, .inr ?_⟩
    · rwa [hexec]
    · rw [hexec]
      exact ⟨hpending, howing⟩
  rw [run_cons]
  exact First.holds (fun s h => h.not_back) (fun s a h => h.step hpos hblocked a) hanswering hfirst

/-- SIGUSR1 and SIGUSR2 are pending, and both are caught. -/
def beforePause : List SignalInput :=
  [.call (.signal 10 (.user 0)), .call (.signal 12 (.user 1)), .call (.raise 10), .call (.raise 12)]

/-- The handler of SIGUSR1 blocks everything it may block. -/
theorem deliverable_delivered_pause :
    DeliveredSince (run step start beforePause).log.length SIGUSR2 (run step (run step start beforePause)
      (.call .pause :: (advances 12 ++ [.call (.sigprocmask 2 (some (~~~0))), .handlerReturns] ++
        advances 2 ++ .handlerReturns :: advances 20))) :=
  deliverable_delivered beforePause .pause _ SIGUSR2 .pause (by decide +kernel) (by decide +kernel)
    (by decide) (by decide +kernel) (by decide +kernel) (by decide +kernel)

end Posix9.SignalState
