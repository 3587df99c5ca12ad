import Posix9.Lib.Runs
import Posix9.SignalSteps

/-! How often a signal is delivered. posix9_signal_process clears the pending bit of each signal of its
    snapshot in front of the delivery, but never looks whether the bit is still set: a handler that
    calls it again may have delivered the signal already. -/

namespace Posix9.SignalState
open Runs

variable {s t : SignalState} {n m : Signum}

/-! ### Bits -/

theorem getLsbD_bit (n m : Signum) : (bit n).getLsbD m.val = decide (n = m) := by
  have hn : n.val < 32 := n.isLt
  simp [bit, BitVec.getLsbD_twoPow, hn, Fin.ext_iff]

/-- `|=` sets one bit and `&= ~` clears one. -/
theorem getLsbD_or_bit (w : SigSet) (n m : Signum) :
    (w ||| bit n).getLsbD m.val = (w.getLsbD m.val || decide (n = m)) := by
  rw [BitVec.getLsbD_or, getLsbD_bit]

theorem getLsbD_andNot_bit (w : SigSet) (n m : Signum) :
    (w &&& ~~~bit n).getLsbD m.val = (w.getLsbD m.val && !decide (n = m)) := by
  have hm : m.val < 32 := m.isLt
  rw [BitVec.getLsbD_and, BitVec.getLsbD_not, getLsbD_bit]
  simp [hm]

theorem ne_zero_iff (w : SigSet) : w ≠ 0 ↔ ∃ n : Signum, w.getLsbD n.val = true := by
  constructor
  · intro h
    by_contra hno
    refine h (BitVec.eq_of_getLsbD_eq fun i hi => ?_)
    have hbit : w.getLsbD i = false := Bool.not_eq_true _ ▸ fun hbit => hno ⟨⟨i, hi⟩, hbit⟩
    simp [hbit]
  · rintro ⟨n, hn⟩ rfl
    simp at hn

/-- What pause and sleep test: some signal is pending and not blocked. -/
theorem deliverable_iff : s.deliverable = true ↔ ∃ n : Signum,
    s.pending_signals.getLsbD n.val = true ∧ s.blocked_signals.getLsbD n.val = false := by
  rw [deliverable, decide_eq_true_iff, ne_zero_iff]
  refine exists_congr fun n => ?_
  have hn : n.val < 32 := n.isLt
  rw [BitVec.getLsbD_and, BitVec.getLsbD_not]
  simp [hn]

/-! ### The law -/

def isDelivery (n : Signum) : Event → Bool
  | .delivered d => d.signum = n
  | .madePending _ => false

/-- How often deliver_signal has been entered for `n`. -/
def timesDelivered (s : SignalState) (n : Signum) : ℕ := s.log.countP (isDelivery n)

/-- How often `n` has been made pending. -/
def timesPending (s : SignalState) (n : Signum) : ℕ := s.log.count (.madePending n)

/-- No signal has been delivered more often than it was made pending. -/
def AtMostOnce (s : SignalState) : Prop := ∀ n, s.timesDelivered n ≤ s.timesPending n

/-- The loop of posix9_signal_process is about to deliver a signal that has stopped being pending
    since the snapshot was taken. -/
def stale (s : SignalState) : Bool :=
  match s.ctl with
  | .loop l => l.to_deliver.getLsbD l.i && !s.pending_signals.getLsbD l.i
  | _ => false

/-- No round of the loop of posix9_signal_process finds its snapshot stale. -/
def Current (s : SignalState) : SignalInput → Prop
  | .advance _ _ => s.stale = false
  | _ => True

instance (s : SignalState) : (a : SignalInput) → Decidable (s.Current a)
  | .advance _ _ => inferInstanceAs (Decidable (s.stale = false))
  | .call _ | .handlerReturns | .alarm_callback | .raiseElsewhere _ => .isTrue trivial

/-- A pending signal has been made pending once more than it has been delivered. -/
def Owed (s : SignalState) : Prop :=
  ∀ n, s.timesDelivered n + (if s.pending_signals.getLsbD n.val then 1 else 0) ≤ s.timesPending n

/-- The law follows, since a bit is worth one delivery at the most. -/
theorem Owed.atMostOnce (h : s.Owed) : s.AtMostOnce := fun n => Nat.le_of_add_right_le (h n)

theorem Owed.start : start.Owed := fun n => by
  simp [timesDelivered, timesPending, SignalState.start]

/-! ### What keeps it -/

theorem Owed.congr (h : s.Owed) (hpending : t.pending_signals = s.pending_signals)
    (hlog : t.log = s.log) : t.Owed := by
  intro n
  rw [timesDelivered, timesPending, hpending, hlog]
  exact h n

theorem Owed.init (h : s.Owed) : s.init_signals.Owed := by
  rw [init_signals]
  split
  · exact h
  · intro n
    refine Nat.le_trans ?_ (h n)
    simp [timesDelivered]

/-- Made pending, a signal is owed one more delivery, or as many as before where its bit was set. -/
theorem Owed.makePending (h : s.Owed) (m : Signum) : (s.makePending m).Owed := by
  intro n
  have hn := h n
  rw [timesDelivered, timesPending] at hn
  simp only [timesDelivered, timesPending, SignalState.makePending, List.countP_cons,
    List.count_cons, isDelivery, getLsbD_or_bit]
  rcases eq_or_ne m n with rfl | hne
  · simp
    omega
  · simpa [hne] using hn

/-- Delivering a signal that is pending. -/
theorem Owed.deliver (h : s.Owed) (l : Loop) (hm : s.pending_signals.getLsbD m.val = true) :
    ((s.clearPending m).deliver_signal m l).Owed := by
  have hlog : ∀ t : SignalState, t.pending_signals = s.pending_signals &&& ~~~bit m →
      (∃ b, t.log = .delivered ⟨m, b⟩ :: s.log) → t.Owed := by
    rintro t hpending ⟨b, ht⟩ n
    have hn := h n
    rw [timesDelivered, timesPending] at hn
    rw [timesDelivered, timesPending, ht, hpending, List.countP_cons, List.count_cons,
      getLsbD_andNot_bit]
    rcases eq_or_ne m n with rfl | hne
    · rw [if_pos hm] at hn
      simp [isDelivery]
      omega
    · simpa [isDelivery, hne] using hn
  rw [deliver_signal]
  dsimp only
  split
  · exact hlog _ rfl ⟨_, rfl⟩
  · split <;> exact hlog _ rfl ⟨_, rfl⟩
  · exact hlog _ rfl ⟨_, rfl⟩

theorem Owed.raise (h : s.Owed) (sig : ℤ) : (s.raise sig).Owed := by
  rw [SignalState.raise]
  split
  · exact h.init.congr rfl rfl
  · exact (h.init.makePending _).congr rfl rfl

theorem Owed.kill (h : s.Owed) (pid sig : ℤ) : (s.kill pid sig).Owed := by
  rw [SignalState.kill]
  split
  · exact h.init.congr rfl rfl
  · split
    · exact h.init.congr rfl rfl
    · split
      · exact h.init.congr rfl rfl
      · exact (h.init.makePending _).congr rfl rfl

/-- No call of the program delivers by itself. -/
theorem Owed.exec (h : s.Owed) (c : SignalCall) : (s.exec c).Owed := by
  cases c with
  | raise sig => exact h.raise sig
  | kill pid sig => exact h.kill pid sig
  | posix9_signal_process | sleep => exact h.congr rfl rfl
  | alarm | sigpending | sigsuspend | pause => exact h.init.congr rfl rfl
  | signal signum handler =>
    have hkept := signal_kept s signum handler
    exact h.init.congr hkept.pending hkept.log
  | sigaction signum act =>
    have hkept := sigaction_kept s signum act
    exact h.init.congr hkept.pending hkept.log
  | sigprocmask how set =>
    have hkept := sigprocmask_kept s how set
    exact h.init.congr hkept.pending hkept.log

theorem Owed.processReturns (h : s.Owed) (c : Caller) (k : ℕ) : (s.processReturns c k).Owed := by
  cases c <;> exact h.congr rfl rfl

theorem Owed.checkSignals (h : s.Owed) (c : Caller) (cmdPeriod : Bool) :
    (s.checkSignals c cmdPeriod).Owed := by
  have hkeys : (if cmdPeriod then s.init_signals.makePending SIGINT else s.init_signals).Owed := by
    split
    · exact h.init.makePending SIGINT
    · exact h.init
  rw [SignalState.checkSignals]
  generalize (if cmdPeriod then s.init_signals.makePending SIGINT else s.init_signals) = t at hkeys ⊢
  split
  · exact hkeys.processReturns c 0
  · exact hkeys.congr rfl rfl

theorem Owed.advance (h : s.Owed) {cmdPeriod : Bool} {now : ℕ}
    (hC : s.Current (.advance cmdPeriod now)) : (s.advance cmdPeriod now).Owed := by
  rw [SignalState.advance]
  rcases hctl : s.ctl with _ | c | l | ⟨w, hit⟩ | endTicks
  · exact h
  · exact h.checkSignals c cmdPeriod
  · dsimp only [processRound]
    split
    · rename_i hi
      split
      · rename_i hbit
        have hpending : s.pending_signals.getLsbD l.i = true := by
          simpa [Current, stale, hctl, hbit] using hC
        exact h.deliver (m := ⟨l.i, hi⟩) _ hpending
      · exact h.congr rfl rfl
    · exact h.processReturns l.caller l.delivered
  · dsimp only [testWait]
    split
    · cases w <;> exact h.congr rfl rfl
    · exact h.congr rfl rfl
  · dsimp only [testSleep]
    split <;> exact h.congr rfl rfl

/-- A round with a current snapshot delivers what is pending, and clears its bit in front of that. -/
theorem Owed.step (s : SignalState) (a : SignalInput) (h : s.Owed) (hC : s.Current a) :
    (s.step a).Owed := by
  rcases hexited : s.exited with _ | _
  · cases a with
    | call c =>
      rw [step_call hexited]
      split
      · exact h.exec c
      · exact h
    | handlerReturns =>
      rcases step_handlerReturns hexited with ⟨f, rest, -, -, heq⟩ | heq
      · rw [heq, SignalState.handlerReturns]
        split <;> exact h.congr rfl rfl
      · rwa [heq]
    | advance cmdPeriod now =>
      rw [step_advance hexited]
      exact h.advance hC
    | alarm_callback =>
      rw [step_alarm_callback hexited]
      split
      · exact (h.makePending SIGALRM).congr rfl rfl
      · exact h
    | raiseElsewhere sig =>
      rw [step_raiseElsewhere hexited]
      exact (h.raise sig).congr rfl rfl
  · rwa [step_exited hexited]

/-- In a run that delivers no signal from a snapshot after it has stopped being pending, every signal
    is delivered at most as often as it has been made pending. -/
theorem atMostOnce_of_current (inputs : List SignalInput) (hC : Meets step Current start inputs) :
    Always step AtMostOnce start inputs :=
  (always_of_meets Owed.step Owed.start hC).mono fun _ h => h.atMostOnce

/-- Rounds of a library function without a key pressed. -/
def advances (k : ℕ) : List SignalInput := List.replicate k (.advance false 0)

/-- One signal, caught and raised again by its handler, which is then delivered the second time. -/
theorem atMostOnce_raised_again : Always step AtMostOnce start
    ([.call (.signal 10 (.user 0)), .call (.raise 10), .call .posix9_signal_process] ++ advances 11 ++
      [.call (.raise 10), .handlerReturns] ++ advances 22 ++ [.call .posix9_signal_process] ++
      advances 11) :=
  atMostOnce_of_current _ (by decide +kernel)

/-- SIGUSR1 and SIGUSR2 are pending, and the handler of the first calls posix9_signal_process. That
    delivers SIGUSR2, and so does the loop it was called from: twice for one raise. -/
theorem delivered_twice : ¬ Always step AtMostOnce start
    ([.call (.signal 10 (.user 0)), .call (.signal 12 (.user 1)), .call (.raise 10),
      .call (.raise 12), .call .posix9_signal_process] ++ advances 11 ++
      [.call .posix9_signal_process] ++ advances 13 ++ [.handlerReturns] ++ advances 20 ++
      [.handlerReturns] ++ advances 2) := by
  intro h
  have hend := always_iff_prefix.mp h _ List.prefix_rfl SIGUSR2
  revert hend
  decide +kernel

end Posix9.SignalState
