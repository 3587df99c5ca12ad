import Posix9.Delivery

/-! Whether SIGKILL and SIGSTOP can be blocked. sigprocmask filters them out of the mask it installs;
    sigsuspend and deliver_signal install masks of the program's as they are. -/

namespace Posix9.SignalState
open Runs

variable {s t : SignalState} {n : Signum} {v w : SigSet}

/-! ### Masks without SIGKILL and SIGSTOP -/

def Clean (w : SigSet) : Prop :=
  w.getLsbD SIGKILL.val = false ∧ w.getLsbD SIGSTOP.val = false

instance (w : SigSet) : Decidable (Clean w) := inferInstanceAs (Decidable (_ ∧ _))

theorem clean_zero : Clean 0 := by decide

/-- sigprocmask masks with it what it stores. -/
theorem clean_blockable (w : SigSet) : Clean (w &&& blockable) := by
  have hblockable : Clean blockable := by decide
  rw [Clean, BitVec.getLsbD_and, BitVec.getLsbD_and, hblockable.1, hblockable.2]
  simp

/-- A mask put together is clean if both parts are. -/
theorem clean_or : Clean (v ||| w) ↔ Clean v ∧ Clean w := by
  simp only [Clean, BitVec.getLsbD_or, Bool.or_eq_false_iff]
  tauto

theorem clean_bit (hkill : n ≠ SIGKILL) (hstop : n ≠ SIGSTOP) : Clean (bit n) := by
  rw [Clean, getLsbD_bit, getLsbD_bit]
  exact ⟨decide_eq_false hkill, decide_eq_false hstop⟩

/-! ### The law -/

def Unblocked (s : SignalState) : Prop := Clean s.blocked_signals

/-- The mask that is installed next, if sigsuspend or deliver_signal is about to install one. -/
def installs (s : SignalState) : SignalInput → Option SigSet
  | .call (.sigsuspend mask) => if s.exited = false ∧ s.ctl = .program then some mask else none
  | .advance _ _ =>
    if s.exited then none
    else
      match s.ctl with
      | .loop l =>
        if h : l.i < NSIG then
          match l.to_deliver.getLsbD l.i, s.signal_handlers ⟨l.i, h⟩ with
          | true, .user _ => some (s.signal_actions ⟨l.i, h⟩).sa_mask
          | _, _ => none
        else none
      | _ => none
  | _ => none

/-- It installs a clean one, if it installs any. -/
def InstallsClean (s : SignalState) (a : SignalInput) : Prop := ∀ w ∈ s.installs a, Clean w

instance (s : SignalState) (a : SignalInput) : Decidable (s.InstallsClean a) :=
  decidable_of_iff ((s.installs a).all (fun w => decide (Clean w)) = true)
    (by simp [InstallsClean, Option.all_eq_true])

/-! ### What carries it: the masks that are put back later -/

def CleanWait : Wait → Prop
  | .sigsuspend _ old_blocked _ => Clean old_blocked
  | .pause _ _ => True

def CleanCaller : Caller → Prop
  | .program | .sleep _ => True
  | .round w _ | .final w => CleanWait w

def CleanCtl : Ctl → Prop
  | .program | .sleepTest _ => True
  | .check c => CleanCaller c
  | .loop l => CleanCaller l.caller
  | .test w _ => CleanWait w

/-- No mask in force or kept for later has the two signals, and neither has a handler. -/
structure AllClean (s : SignalState) : Prop where
  blocked : Clean s.blocked_signals
  ctl : CleanCtl s.ctl
  stack : ∀ f ∈ s.stack, Clean f.old_blocked ∧ CleanCaller f.resume.caller
  kill : s.signal_handlers SIGKILL = .SIG_DFL
  stop : s.signal_handlers SIGSTOP = .SIG_DFL

/-- The program starts with nothing blocked. -/
theorem AllClean.start : AllClean start :=
  ⟨by decide, trivial, fun f hf => (by cases hf), rfl, rfl⟩

theorem AllClean.init (h : s.AllClean) : s.init_signals.AllClean := by
  rw [init_signals]
  split
  · exact h
  · exact ⟨clean_zero, h.ctl, h.stack, rfl, rfl⟩

/-- Whatever leaves masks, stack and handlers, and moves control to where nothing unclean is kept. -/
theorem AllClean.congr (h : s.AllClean) (hblocked : t.blocked_signals = s.blocked_signals)
    (hstack : t.stack = s.stack) (hhandlers : t.signal_handlers = s.signal_handlers)
    (hctl : CleanCtl t.ctl) : t.AllClean := by
  refine ⟨?_, hctl, ?_, ?_, ?_⟩
  · rw [hblocked]
    exact h.blocked
  · rw [hstack]
    exact h.stack
  · rw [hhandlers]
    exact h.kill
  · rw [hhandlers]
    exact h.stop

/-- signal and sigaction refuse SIGKILL and SIGSTOP, whose handlers stay the default. -/
theorem AllClean.setHandler (h : s.AllClean) (hkill : n ≠ SIGKILL) (hstop : n ≠ SIGSTOP)
    (handler : Handler) : (s.setHandler n handler).AllClean :=
  ⟨h.blocked, h.ctl, h.stack, (Function.update_of_ne hkill.symm _ _).trans h.kill,
    (Function.update_of_ne hstop.symm _ _).trans h.stop⟩

/-- Giving SIGKILL or SIGSTOP the handler they have anyway does no harm either. -/
theorem AllClean.resetHandler (h : s.AllClean) (n : Signum) : (s.setHandler n .SIG_DFL).AllClean := by
  have hreset : ∀ m, s.signal_handlers m = .SIG_DFL →
      Function.update s.signal_handlers n Handler.SIG_DFL m = .SIG_DFL := by
    intro m hm
    rcases eq_or_ne m n with rfl | hne
    · exact Function.update_self ..
    · exact (Function.update_of_ne hne _ _).trans hm
  exact ⟨h.blocked, h.ctl, h.stack, hreset _ h.kill, hreset _ h.stop⟩

/-! ### Calls -/

theorem AllClean.raise (h : s.AllClean) (sig : ℤ) : (s.raise sig).AllClean := by
  rw [SignalState.raise]
  split <;> exact h.init.congr rfl rfl rfl h.init.ctl

theorem AllClean.kill_ (h : s.AllClean) (pid sig : ℤ) : (s.kill pid sig).AllClean := by
  rw [SignalState.kill]
  split
  · exact h.init.congr rfl rfl rfl h.init.ctl
  · split
    · exact h.init.congr rfl rfl rfl h.init.ctl
    · split <;> exact h.init.congr rfl rfl rfl h.init.ctl

/-- SIG_BLOCK, SIG_UNBLOCK and SIG_SETMASK all store through `blockable`. -/
theorem AllClean.sigprocmask (h : s.AllClean) (how : ℤ) (set : Option SigSet) :
    (s.sigprocmask how set).2.AllClean := by
  rcases set with _ | set
  · exact ⟨clean_blockable _, h.init.ctl, h.init.stack, h.init.kill, h.init.stop⟩
  · rw [SignalState.sigprocmask]
    split
    · exact h.init.congr rfl rfl rfl h.init.ctl
    · exact ⟨clean_blockable _, h.init.ctl, h.init.stack, h.init.kill, h.init.stop⟩

/-- The calls of the program. sigsuspend is the one that installs what it is given. -/
theorem AllClean.exec (h : s.AllClean) (hctl : s.ctl = .program) (hexited : s.exited = false)
    {c : SignalCall} (hC : s.InstallsClean (.call c)) : (s.exec c).AllClean := by
  cases c with
  | raise sig => exact h.raise sig
  | kill pid sig => exact h.kill_ pid sig
  | posix9_signal_process | sleep => exact h.congr rfl rfl rfl trivial
  | alarm | sigpending => exact h.init.congr rfl rfl rfl h.init.ctl
  | pause => exact h.init.congr rfl rfl rfl trivial
  | sigprocmask how set => exact h.sigprocmask how set
  | sigsuspend mask =>
    have hmask : Clean mask := hC mask (by simp [installs, hexited, hctl])
    exact ⟨hmask, h.init.blocked, h.init.stack, h.init.kill, h.init.stop⟩
  | signal signum handler =>
    rw [SignalState.exec, SignalState.signal]
    split
    · exact h.init.congr rfl rfl rfl h.init.ctl
    · split
      · exact h.init.congr rfl rfl rfl h.init.ctl
      · rename_i n _ hn
        obtain ⟨hkill, hstop⟩ := not_or.mp hn
        exact h.init.setHandler hkill hstop handler
  | sigaction signum act =>
    rw [SignalState.exec, SignalState.sigaction]
    split
    · exact h.init.congr rfl rfl rfl h.init.ctl
    · split
      · exact h.init.congr rfl rfl rfl h.init.ctl
      · rename_i n _ hn
        obtain ⟨hkill, hstop⟩ : n ≠ SIGKILL ∧ n ≠ SIGSTOP := not_or.mp hn
        split
        · exact h.init.congr rfl rfl rfl h.init.ctl
        · exact ⟨h.init.blocked, h.init.ctl, h.init.stack,
            (Function.update_of_ne hkill.symm _ _).trans h.init.kill,
            (Function.update_of_ne hstop.symm _ _).trans h.init.stop⟩

/-! ### Steps of the library -/

theorem AllClean.processReturns (h : s.AllClean) {c : Caller} (hc : CleanCaller c) (k : ℕ) :
    (s.processReturns c k).AllClean := by
  cases c with
  | program | sleep | final => exact h.congr rfl rfl rfl trivial
  | round w hit => exact h.congr rfl rfl rfl hc

/-- posix9_signal_process up to its loop changes no mask. -/
theorem AllClean.checkSignals (h : s.AllClean) {c : Caller} (hc : CleanCaller c)
    (cmdPeriod : Bool) : (s.checkSignals c cmdPeriod).AllClean := by
  have hkeys : (if cmdPeriod then s.init_signals.makePending SIGINT else s.init_signals).AllClean := by
    split
    · exact h.init.congr rfl rfl rfl h.init.ctl
    · exact h.init
  rw [SignalState.checkSignals]
  generalize (if cmdPeriod then s.init_signals.makePending SIGINT else s.init_signals) = t at hkeys ⊢
  split
  · exact hkeys.processReturns hc 0
  · exact hkeys.congr rfl rfl rfl (by cases c <;> exact hc)

/-- Delivery: what a user handler adds to the mask is clean if its sa_mask is. -/
theorem AllClean.deliver (h : s.AllClean) {l : Loop} (hl : CleanCaller l.caller)
    (hmask : ∀ addr, s.signal_handlers n = .user addr → Clean (s.signal_actions n).sa_mask) :
    (s.deliver_signal n l).AllClean := by
  rw [deliver_signal]
  dsimp only
  split
  · exact h.congr rfl rfl rfl hl
  · split <;> exact h.congr rfl rfl rfl hl
  · rename_i addr haddr
    have hkill : n ≠ SIGKILL := by
      rintro rfl
      exact absurd (h.kill.symm.trans haddr) (by simp)
    have hstop : n ≠ SIGSTOP := by
      rintro rfl
      exact absurd (h.stop.symm.trans haddr) (by simp)
    refine ⟨?_, trivial, ?_, h.kill, h.stop⟩
    · rw [clean_or, clean_or]
      refine ⟨⟨h.blocked, hmask addr haddr⟩, ?_⟩
      split
      · exact clean_bit hkill hstop
      · exact clean_zero
    · intro f hf
      rcases List.mem_cons.mp hf with rfl | hf
      · exact ⟨h.blocked, hl⟩
      · exact h.stack f hf

/-- Where a wait ends, the mask from before it comes back. -/
theorem AllClean.advance (h : s.AllClean) (hexited : s.exited = false) {cmdPeriod : Bool} {now : ℕ}
    (hC : s.InstallsClean (.advance cmdPeriod now)) : (s.advance cmdPeriod now).AllClean := by
  have hclean := h.ctl
  rw [SignalState.advance]
  rcases hctl : s.ctl with _ | c | l | ⟨w, hit⟩ | endTicks <;>
    rw [hctl] at hclean
  · exact h
  · exact h.checkSignals hclean cmdPeriod
  · dsimp only [processRound]
    split
    · rename_i hi
      split
      · rename_i hbit
        have hcleared : (s.clearPending ⟨l.i, hi⟩).AllClean := h.congr rfl rfl rfl h.ctl
        refine hcleared.deliver hclean fun addr haddr => ?_
        have haddr' : s.signal_handlers ⟨l.i, hi⟩ = .user addr := haddr
        exact hC (s.signal_actions ⟨l.i, hi⟩).sa_mask
          (by simp [installs, hexited, hctl, hi, hbit, haddr'])
      · exact h.congr rfl rfl rfl hclean
    · exact h.processReturns hclean l.delivered
  · dsimp only [testWait]
    split
    · cases w with
      | sigsuspend mask old_blocked start => exact ⟨hclean, hclean, h.stack, h.kill, h.stop⟩
      | pause => exact h.congr rfl rfl rfl hclean
    · exact h.congr rfl rfl rfl hclean
  · dsimp only [testSleep]
    split <;> exact h.congr rfl rfl rfl trivial

/-- So does the mask from before a handler. -/
theorem AllClean.handlerReturns (h : s.AllClean) {f : Frame} {rest : List Frame}
    (hstack : s.stack = f :: rest) : (s.handlerReturns f rest).AllClean := by
  obtain ⟨hold, hresume⟩ := h.stack f (by rw [hstack]; exact List.mem_cons_self)
  have hback : ({ s with blocked_signals := f.old_blocked, ctl := .loop f.resume, stack := rest } :
      SignalState).AllClean := by
    refine ⟨hold, hresume, fun g hg => h.stack g ?_, h.kill, h.stop⟩
    rw [hstack]
    exact List.mem_cons_of_mem _ hg
  rw [SignalState.handlerReturns]
  split
  · exact hback
  · exact hback.resetHandler f.signum

/-- A step that installs nothing but clean masks keeps all of them clean. -/
theorem AllClean.step (s : SignalState) (a : SignalInput) (h : s.AllClean)
    (hC : s.InstallsClean a) : (s.step a).AllClean := by
  rcases hexited : s.exited with _ | _
  · cases a with
    | call c =>
      rw [step_call hexited]
      split
      · rename_i hctl
        exact h.exec hctl hexited hC
      · exact h
    | handlerReturns =>
      rcases step_handlerReturns hexited with ⟨f, rest, -, hstack, heq⟩ | heq
      · rw [heq]
        exact h.handlerReturns hstack
      · rwa [heq]
    | advance cmdPeriod now =>
      rw [step_advance hexited]
      exact h.advance hexited hC
    | alarm_callback =>
      rw [step_alarm_callback hexited]
      split
      · exact h.congr rfl rfl rfl h.ctl
      · exact h
    | raiseElsewhere sig =>
      rw [step_raiseElsewhere hexited]
      exact (h.raise sig).congr rfl rfl rfl (h.raise sig).ctl
  · rwa [step_exited hexited]

/-- A mask that is not clean is in force as soon as it is installed. -/
theorem installsClean_of_unblocked (s : SignalState) (a : SignalInput)
    (hok : (s.step a).Unblocked) : s.InstallsClean a := by
  intro w hw
  rcases hexited : s.exited with _ | _
  · cases a with
    | call c =>
      cases c with
      | sigsuspend mask =>
        simp only [installs, hexited, true_and] at hw
        split at hw
        · rename_i hctl
          obtain rfl : mask = w := by simpa using hw
          rw [step_call hexited, if_pos hctl] at hok
          exact hok
        · cases hw
      | _ => cases hw
    | advance cmdPeriod now =>
      rw [step_advance hexited, SignalState.advance] at hok
      simp only [installs, hexited, Bool.false_eq_true, if_false] at hw
      split at hw
      · rename_i l hctl
        split at hw
        · rename_i hi
          split at hw
          · rename_i addr hbit haddr
            obtain rfl : (s.signal_actions ⟨l.i, hi⟩).sa_mask = w := by simpa using hw
            simp only [hctl, processRound, dif_pos hi, if_pos hbit, Unblocked] at hok
            rw [deliver_signal_user (by exact haddr)] at hok
            exact (clean_or.mp (clean_or.mp hok).1).2
          · cases hw
        · cases hw
      · cases hw
    | _ => cases hw
  · cases a with
    | call c => cases c <;> simp [installs, hexited] at hw
    | _ => simp [installs, hexited] at hw

/-- Neither SIGKILL nor SIGSTOP is ever blocked in a run exactly when every mask that sigsuspend and
    deliver_signal install leaves them out. -/
theorem unblocked_iff_installsClean (inputs : List SignalInput) :
    Always step Unblocked start inputs ↔ Meets step InstallsClean start inputs :=
  always_iff_meets AllClean.step (fun _ h => h.blocked)
    (fun s a _ => installsClean_of_unblocked s a) AllClean.start

/-- A handler that blocks SIGUSR2 while it runs, and a wait with everything blocked but SIGUSR1. -/
theorem unblocked_usual_masks : Always step Unblocked start
    ([.call (.sigaction 10 (some ⟨.user 0, bit SIGUSR2, 0⟩)), .call (.sigprocmask 0 (some (~~~0))),
      .call (.sigsuspend (blockable &&& ~~~bit SIGUSR1)), .advance false 0, .call (.raise 10),
      .raiseElsewhere 10] ++ advances 14) :=
  (unblocked_iff_installsClean _).mpr (by decide +kernel)

/-- sigsuspend with every signal blocked blocks SIGKILL and SIGSTOP too, for good. -/
theorem sigsuspend_blocks_sigkill : ¬ Always step Unblocked start [.call (.sigsuspend (~~~0))] := by
  intro h
  have hend : Clean (run step start [.call (.sigsuspend (~~~0))]).blocked_signals :=
    always_iff_prefix.mp h _ List.prefix_rfl
  exact absurd hend (by decide +kernel)

end Posix9.SignalState
