import Posix9.Lib.Runs
import Posix9.Signal

/-! The Time Manager task of alarm. It is in the system's queue from InsXTime until RmvTime, also once it has
    expired; alarm_callback takes back `alarm_installed` all the same, and the next alarm goes by that. -/

namespace Posix9

open Runs

/-! ### The task -/

/-- What alarm does with `alarm_task`; `clear` is the memset. -/
inductive TimerCall where
  | clear
  | InsXTime
  | PrimeTime (count : BitVec 32)
  | RmvTime
  deriving DecidableEq

/-- `active` is from PrimeTime until it expires. -/
structure TimerTask where
  queued : Bool
  active : Bool
  deriving DecidableEq

namespace TimerTask

def after (t : TimerTask) : TimerCall → TimerTask
  | .clear => t
  | .InsXTime => ⟨true, false⟩
  | .PrimeTime _ => { t with active := true }
  | .RmvTime => ⟨false, false⟩

/-- The task has expired and has not been taken out of the queue. -/
def expired (t : TimerTask) : Bool := t.queued && !t.active

/-- A task is put into the queue, or cleared, only while it is not there, and taken out only while it is. -/
def Allows (t : TimerTask) : TimerCall → Prop
  | .clear | .InsXTime => t.queued = false
  | .RmvTime => t.queued = true
  | .PrimeTime _ => True

instance (t : TimerTask) : DecidablePred t.Allows
  | .clear | .InsXTime | .RmvTime => inferInstanceAs (Decidable (_ = _))
  | .PrimeTime _ => .isTrue trivial

end TimerTask

/-- What alarm does with the task, by its flag. -/
def alarmCalls (alarm_installed : Bool) (seconds : ℕ) : List TimerCall :=
  (if alarm_installed then [.RmvTime] else []) ++
    if seconds = 0 then [] else [.clear, .InsXTime, .PrimeTime (BitVec.ofNat 32 seconds * -1000)]

namespace TimerTask

variable {t : TimerTask}

/-- By a flag that says whether the task is active, alarm keeps to the rules unless the task has expired. -/
theorem meets_alarm (hqueued : t.active = true → t.queued = true) (seconds : ℕ) :
    Meets after Allows t (alarmCalls t.active seconds) ↔ (seconds ≠ 0 → t.expired = false) := by
  rcases t with ⟨queued, active⟩
  rw [alarmCalls, expired]
  by_cases hzero : seconds = 0 <;> cases queued <;> cases active <;> simp_all [Meets, Allows, after]

theorem after_alarm (hqueued : t.active = true → t.queued = true) (seconds : ℕ) :
    ((alarmCalls t.active seconds).foldl after t).active = decide (seconds ≠ 0) ∧
      (((alarmCalls t.active seconds).foldl after t).active = true →
        ((alarmCalls t.active seconds).foldl after t).queued = true) := by
  rcases t with ⟨queued, active⟩
  rw [alarmCalls]
  by_cases hzero : seconds = 0 <;> cases queued <;> cases active <;> simp_all [after]

end TimerTask

namespace SignalState

/-- A call the program makes now is executed. -/
def calls (s : SignalState) : Prop := s.exited = false ∧ s.ctl = .program

instance (s : SignalState) : Decidable s.calls := inferInstanceAs (Decidable (_ ∧ _))

end SignalState

/-! ### Runs -/

/-- The signal layer with the Time Manager. -/
structure Timed where
  state : SignalState
  task : TimerTask

namespace Timed

def start : Timed := ⟨SignalState.start, ⟨false, false⟩⟩

/-- What an input does with the task. -/
def timerCalls (x : Timed) : SignalInput → List TimerCall
  | .call (.alarm seconds) => if x.state.calls then alarmCalls x.state.init_signals.alarm_installed seconds else []
  | _ => []

/-- An alarm expires only while the task is active. alarm is one step here: a task that runs out between
    PrimeTime and the `alarm_installed = true` behind it is left out. It would leave the flag set, so that the
    next alarm takes the task out first. -/
def step (x : Timed) : SignalInput → Timed
  | .alarm_callback =>
    if x.state.exited = false ∧ x.task.active = true then
      ⟨x.state.step .alarm_callback, { x.task with active := false }⟩
    else x
  | a => ⟨x.state.step a, (x.timerCalls a).foldl TimerTask.after x.task⟩

/-- The input keeps to what the Time Manager allows, one call after the other. -/
def QueuedOnce (x : Timed) (a : SignalInput) : Prop := Meets TimerTask.after TimerTask.Allows x.task (x.timerCalls a)

/-- No alarm is set once the one set last has expired. -/
def NotExpired (x : Timed) : SignalInput → Prop
  | .call (.alarm seconds) => x.state.calls → seconds ≠ 0 → x.task.expired = false
  | _ => True

instance (x : Timed) : DecidablePred x.QueuedOnce :=
  fun a => decidableMeets TimerTask.after TimerTask.Allows x.task (x.timerCalls a)

end Timed

/-! ### The flag -/

namespace SignalState

variable {s : SignalState}

theorem init_alarm (s : SignalState) : s.init_signals.alarm_installed = s.alarm_installed := by
  rw [init_signals]
  split <;> rfl

theorem signal_alarm (s : SignalState) (signum : ℤ) (handler : Handler) :
    (s.signal signum handler).2.alarm_installed = s.alarm_installed := by
  rw [← init_alarm s, SignalState.signal]
  repeat' split
  all_goals rfl

theorem sigaction_alarm (s : SignalState) (signum : ℤ) (act : Option SigAction) :
    (s.sigaction signum act).2.alarm_installed = s.alarm_installed := by
  rw [← init_alarm s, SignalState.sigaction]
  repeat' split
  all_goals rfl

theorem raise_alarm (s : SignalState) (sig : ℤ) : (s.raise sig).alarm_installed = s.alarm_installed := by
  rw [← init_alarm s, SignalState.raise]
  split <;> rfl

theorem kill_alarm (s : SignalState) (pid sig : ℤ) : (s.kill pid sig).alarm_installed = s.alarm_installed := by
  rw [← init_alarm s, SignalState.kill]
  repeat' split
  all_goals rfl

theorem sigprocmask_alarm (s : SignalState) (how : ℤ) (set : Option SigSet) :
    (s.sigprocmask how set).2.alarm_installed = s.alarm_installed := by
  rw [← init_alarm s, SignalState.sigprocmask.eq_def]
  rcases set with _ | set
  · rfl
  · dsimp only
    split <;> rfl

theorem processReturns_alarm (s : SignalState) (c : Caller) (delivered : ℕ) :
    (s.processReturns c delivered).alarm_installed = s.alarm_installed := by
  cases c <;> rfl

theorem checkSignals_alarm (s : SignalState) (c : Caller) (cmdPeriod : Bool) :
    (s.checkSignals c cmdPeriod).alarm_installed = s.alarm_installed := by
  rw [← init_alarm s, checkSignals]
  repeat' split
  all_goals first
    | exact processReturns_alarm ..
    | rfl

theorem deliver_signal_alarm (s : SignalState) (n : Signum) (l : Loop) :
    (s.deliver_signal n l).alarm_installed = s.alarm_installed := by
  rw [deliver_signal]
  repeat' split
  all_goals rfl

theorem processRound_alarm (s : SignalState) (l : Loop) :
    (s.processRound l).alarm_installed = s.alarm_installed := by
  rw [processRound]
  split
  · split
    · exact deliver_signal_alarm ..
    · rfl
  · exact processReturns_alarm ..

theorem testWait_alarm (s : SignalState) (w : Wait) : (s.testWait w).alarm_installed = s.alarm_installed := by
  rw [testWait]
  split
  · cases w <;> rfl
  · rfl

theorem advance_alarm (s : SignalState) (cmdPeriod : Bool) (now : ℕ) :
    (s.advance cmdPeriod now).alarm_installed = s.alarm_installed := by
  rw [advance]
  split
  · rfl
  · exact checkSignals_alarm ..
  · exact processRound_alarm ..
  · exact testWait_alarm ..
  · rw [testSleep]
    split <;> rfl

theorem handlerReturns_alarm (s : SignalState) (f : Frame) (rest : List Frame) :
    (s.handlerReturns f rest).alarm_installed = s.alarm_installed := by
  rw [handlerReturns]
  dsimp only
  split <;> rfl

theorem exec_alarm (s : SignalState) {c : SignalCall} (hc : ∀ seconds, c ≠ .alarm seconds) :
    (s.exec c).alarm_installed = s.alarm_installed := by
  cases c with
  | signal signum handler => exact signal_alarm ..
  | sigaction signum act => exact sigaction_alarm ..
  | raise sig => exact raise_alarm ..
  | kill pid sig => exact kill_alarm ..
  | sigprocmask how set => exact sigprocmask_alarm ..
  | sigpending => exact init_alarm s
  | alarm seconds => exact absurd rfl (hc seconds)
  | posix9_signal_process => rfl
  | sigsuspend mask => exact init_alarm s
  | pause => exact init_alarm s
  | sleep seconds now => rfl

/-- Only alarm and its callback touch the flag. -/
theorem step_alarm {a : SignalInput} (hcall : ∀ seconds, a ≠ .call (.alarm seconds)) (hexpiry : a ≠ .alarm_callback) :
    (s.step a).alarm_installed = s.alarm_installed := by
  by_cases hexited : s.exited = true
  · rw [step_exited hexited]
  have hrunning := Bool.eq_false_iff.mpr hexited
  cases a with
  | call c =>
    rw [step_call hrunning]
    split
    · exact exec_alarm s fun seconds h => hcall seconds (by rw [h])
    · rfl
  | handlerReturns =>
    rcases step_handlerReturns hrunning with ⟨f, rest, -, -, hstep⟩ | hstep <;> rw [hstep]
    exact handlerReturns_alarm ..
  | advance cmdPeriod now =>
    rw [step_advance hrunning]
    exact advance_alarm ..
  | alarm_callback => exact absurd rfl hexpiry
  | raiseElsewhere sig =>
    rw [step_raiseElsewhere hrunning]
    exact raise_alarm ..

end SignalState

/-! ### Flag and task -/

namespace Timed

variable {x : Timed} {a : SignalInput}

/-- The flag is set just while an alarm is to come. -/
structure InStep (x : Timed) : Prop where
  installed : x.state.alarm_installed = x.task.active
  queued : x.task.active = true → x.task.queued = true

theorem InStep.start : start.InStep := ⟨rfl, fun h => by cases h⟩

/-- The other inputs do nothing with the task. -/
theorem timerCalls_idle (hcall : ¬ ∃ seconds, a = .call (.alarm seconds)) : x.timerCalls a = [] := by
  rcases a with c | _ | _ | _ | _
  · cases c <;> first
      | rfl
      | exact absurd ⟨_, rfl⟩ hcall
  all_goals rfl

theorem alarm_refused {seconds : ℕ} (hcalls : ¬ x.state.calls) : x.timerCalls (.call (.alarm seconds)) = [] ∧
    x.state.step (.call (.alarm seconds)) = x.state := by
  refine ⟨if_neg hcalls, ?_⟩
  by_cases hexited : x.state.exited = true
  · exact SignalState.step_exited hexited _
  · have hrunning := Bool.eq_false_iff.mpr hexited
    rw [SignalState.step_call hrunning, if_neg fun hctl => hcalls ⟨hrunning, hctl⟩]

theorem alarm_installed_alarm {seconds : ℕ} (hcalls : x.state.calls) :
    (x.state.step (.call (.alarm seconds))).alarm_installed = decide (seconds ≠ 0) := by
  rw [SignalState.step_call hcalls.1, if_pos hcalls.2]
  rfl

theorem step_of_ne (x : Timed) (ha : a ≠ .alarm_callback) :
    x.step a = ⟨x.state.step a, (x.timerCalls a).foldl TimerTask.after x.task⟩ := by
  cases a with
  | alarm_callback => exact absurd rfl ha
  | _ => rfl

/-- alarm keeps to the rules just where the one set last has not expired. -/
theorem queuedOnce_alarm (h : x.InStep) (seconds : ℕ) :
    x.QueuedOnce (.call (.alarm seconds)) ↔ x.NotExpired (.call (.alarm seconds)) := by
  by_cases hcalls : x.state.calls
  · rw [QueuedOnce, NotExpired, timerCalls, if_pos hcalls, SignalState.init_alarm, h.installed,
      TimerTask.meets_alarm h.queued]
    exact ⟨fun hfresh _ => hfresh, fun hfresh => hfresh hcalls⟩
  · rw [QueuedOnce, (alarm_refused hcalls).1]
    exact iff_of_true trivial fun hcalls' => absurd hcalls' hcalls

theorem InStep.alarm (h : x.InStep) (seconds : ℕ) : (x.step (.call (.alarm seconds))).InStep := by
  rw [step_of_ne x (by simp)]
  by_cases hcalls : x.state.calls
  · obtain ⟨hactive, hqueued⟩ := TimerTask.after_alarm h.queued seconds
    rw [timerCalls, if_pos hcalls, SignalState.init_alarm, h.installed]
    exact ⟨(alarm_installed_alarm hcalls).trans hactive.symm, hqueued⟩
  · obtain ⟨hnone, hsame⟩ := @alarm_refused x seconds hcalls
    rw [hnone, hsame]
    exact h

theorem InStep.step (h : x.InStep) (a : SignalInput) : (x.step a).InStep := by
  by_cases hexpiry : a = .alarm_callback
  · subst hexpiry
    rw [Timed.step]
    split
    case isTrue hactive =>
      refine ⟨?_, fun hnot => by cases hnot⟩
      rw [SignalState.step_alarm_callback hactive.1, if_pos (h.installed.trans hactive.2)]
      rfl
    case isFalse => exact h
  by_cases hcall : ∃ seconds, a = .call (.alarm seconds)
  · obtain ⟨seconds, rfl⟩ := hcall
    exact h.alarm seconds
  have hflag := SignalState.step_alarm (s := x.state) (fun seconds ha => hcall ⟨seconds, ha⟩) hexpiry
  rw [step_of_ne x hexpiry, timerCalls_idle hcall]
  exact ⟨hflag.trans h.installed, h.queued⟩

theorem queuedOnce_iff (h : x.InStep) (a : SignalInput) : x.QueuedOnce a ↔ x.NotExpired a := by
  by_cases hcall : ∃ seconds, a = .call (.alarm seconds)
  · obtain ⟨seconds, rfl⟩ := hcall
    exact queuedOnce_alarm h seconds
  rw [QueuedOnce, timerCalls_idle hcall]
  refine iff_of_true trivial ?_
  rcases a with c | _ | _ | _ | _
  · cases c <;> first
      | trivial
      | exact absurd ⟨_, rfl⟩ hcall
  all_goals trivial

/-- The task is in the queue at most once, and cleared and taken out as it may be, throughout exactly those runs
    in which no alarm is set once the one set last has expired. -/
theorem queuedOnce_iff_notExpired (inputs : List SignalInput) :
    Meets step QueuedOnce start inputs ↔ Meets step NotExpired start inputs :=
  meets_iff (fun _ a h _ => h.step a) (fun _ a h => queuedOnce_iff h a) InStep.start

/-- An alarm, its expiry, and the next alarm. -/
theorem alarm_queued_twice :
    ¬ Meets step QueuedOnce start [.call (.alarm 1), .alarm_callback, .call (.alarm 1)] := by decide

end Timed

end Posix9
