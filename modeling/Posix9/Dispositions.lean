import Posix9.Delivery

/-! Which handler a signal has. deliver_signal resets a one-shot handler when the handler has returned, by
    flags it reads then, and overwrites what has been installed in the meantime. -/

namespace Posix9.SignalState
open Runs

variable {s t : SignalState} {n : Signum} {d : Signum → Handler}

/-! ### The law -/

/-- The signal whose user handler the next step calls. -/
def catching (s : SignalState) : Option Signum :=
  if s.exited then none
  else
    match s.ctl with
    | .loop l =>
      if h : l.i < NSIG then
        match l.to_deliver.getLsbD l.i, s.signal_handlers ⟨l.i, h⟩ with
        | true, .user _ => some ⟨l.i, h⟩
        | _, _ => none
      else none
    | _ => none

def oneShot (s : SignalState) (n : Signum) : Bool := (s.signal_actions n).sa_flags &&& SA_RESETHAND ≠ 0

def settled (d : Signum → Handler) (signum : ℤ) (handler : Handler) (n : Signum) : Handler :=
  if signum = n then handler else d n

/-- A call of signal or sigaction that succeeds has set a disposition. -/
def chosen (s : SignalState) (d : Signum → Handler) : SignalCall → Signum → Handler
  | .signal signum handler => if (s.signal signum handler).1 = none then d else settled d signum handler
  | .sigaction signum (some act) =>
    if (s.sigaction signum (some act)).2.result = 0 then settled d signum act.sa_handler else d
  | _ => d

/-- What has been done last to each disposition: it was chosen, or a delivery under SA_RESETHAND has begun. -/
def disposed (s : SignalState) (d : Signum → Handler) : SignalInput → Signum → Handler
  | .call c => if s.exited = false ∧ s.ctl = .program then s.chosen d c else d
  | .advance _ _ =>
    match s.catching with
    | some n => if s.oneShot n then settled d n .SIG_DFL else d
    | none => d
  | _ => d

structure Watched where
  state : SignalState
  disposition : Signum → Handler

def Watched.start : Watched := ⟨SignalState.start, fun _ => .SIG_DFL⟩

def Watched.step (x : Watched) (a : SignalInput) : Watched :=
  ⟨x.state.step a, x.state.disposed x.disposition a⟩

/-- It is what deliver_signal goes by and what sigaction reports. -/
structure InForce (s : SignalState) (d : Signum → Handler) : Prop where
  handlers : ∀ n, s.signal_handlers n = d n
  actions : ∀ n, (s.signal_actions n).sa_handler = d n

/-! ### The condition -/

/-- The signal whose handler returns. -/
def returning (s : SignalState) : Option Signum :=
  if s.exited then none
  else
    match s.ctl, s.stack with
    | .program, f :: _ => some f.signum
    | _, _ => none

/-- No handler is called under SA_RESETHAND, and where one returns under it there is nothing to reset. -/
def ResetsNothing (s : SignalState) : SignalInput → Prop
  | .advance _ _ => ∀ n ∈ s.catching, s.oneShot n = false
  | .handlerReturns => ∀ n ∈ s.returning, s.oneShot n = true → s.signal_handlers n = .SIG_DFL
  | _ => True

/-! ### The invariant -/

/-- Besides, init_signals finds the table as it leaves it. -/
structure Reflects (s : SignalState) (d : Signum → Handler) : Prop extends InForce s d where
  fresh : s.signals_initialized = false →
    s.signal_handlers = (fun _ => .SIG_DFL) ∧ s.signal_actions = fun _ => ⟨.SIG_DFL, 0, 0⟩

structure SameTables (s t : SignalState) : Prop where
  handlers : t.signal_handlers = s.signal_handlers
  actions : t.signal_actions = s.signal_actions
  initialized : t.signals_initialized = s.signals_initialized

theorem Reflects.start : Reflects start fun _ => .SIG_DFL :=
  ⟨⟨fun _ => rfl, fun _ => rfl⟩, fun _ => ⟨rfl, rfl⟩⟩

theorem Reflects.congr (h : Reflects s d) (hsame : SameTables s t) : Reflects t d := by
  refine ⟨⟨fun n => ?_, fun n => ?_⟩, fun hinit => ?_⟩
  · exact (congrFun hsame.handlers n).trans (h.handlers n)
  · exact (congrArg SigAction.sa_handler (congrFun hsame.actions n)).trans (h.actions n)
  · rw [hsame.handlers, hsame.actions]
    exact h.fresh (hsame.initialized.symm.trans hinit)

theorem Reflects.init (h : Reflects s d) : Reflects s.init_signals d := by
  rw [init_signals]
  split
  · exact h
  · rename_i hinit
    obtain ⟨hhandlers, hactions⟩ := h.fresh (by simpa using hinit)
    refine ⟨⟨fun n => ?_, fun n => ?_⟩, fun habs => ?_⟩
    · exact (congrFun hhandlers n).symm.trans (h.handlers n)
    · exact (congrArg SigAction.sa_handler (congrFun hactions n)).symm.trans (h.actions n)
    · cases habs

/-! ### Calls -/

theorem signalOf_eq_some {signum : ℤ} (h : signalOf signum = some n) : signum = n := by
  rw [signalOf] at h
  split at h
  · rename_i hrange
    obtain rfl := Option.some.inj h
    exact (Int.toNat_of_nonneg (by omega)).symm
  · cases h

theorem settled_self {signum : ℤ} (h : signum = n) (handler : Handler) : settled d signum handler n = handler :=
  if_pos h

theorem settled_of_ne {m : Signum} {signum : ℤ} (h : signum = n) (hne : m ≠ n) (handler : Handler) :
    settled d signum handler m = d m :=
  if_neg fun heq => hne (Fin.ext (Int.ofNat.inj (heq.symm.trans h)))

/-- A disposition is set in both tables. -/
theorem Reflects.settle (h : Reflects s d) (hinit : s.signals_initialized = true) {signum : ℤ}
    (hn : signum = n) {handler : Handler} {act : SigAction} (hact : act.sa_handler = handler)
    (hhandlers : t.signal_handlers = Function.update s.signal_handlers n handler)
    (hactions : t.signal_actions = Function.update s.signal_actions n act)
    (hkept : t.signals_initialized = s.signals_initialized) : Reflects t (settled d signum handler) := by
  refine ⟨⟨fun m => ?_, fun m => ?_⟩, fun habs => ?_⟩
  · rcases eq_or_ne m n with rfl | hne
    · rw [hhandlers, Function.update_self, settled_self hn]
    · rw [hhandlers, Function.update_of_ne hne, settled_of_ne hn hne]
      exact h.handlers m
  · rcases eq_or_ne m n with rfl | hne
    · rw [hactions, Function.update_self, settled_self hn, hact]
    · rw [hactions, Function.update_of_ne hne, settled_of_ne hn hne]
      exact h.actions m
  · rw [hkept, hinit] at habs
    cases habs

theorem Reflects.signal (h : Reflects s d) (signum : ℤ) (handler : Handler) :
    Reflects (s.signal signum handler).2 (s.chosen d (.signal signum handler)) := by
  rw [chosen, SignalState.signal]
  rcases hn : signalOf signum with _ | n
  · exact h.init.congr ⟨rfl, rfl, rfl⟩
  · dsimp only
    split
    · exact h.init.congr ⟨rfl, rfl, rfl⟩
    · exact h.init.settle init_initialized (signalOf_eq_some hn) rfl rfl rfl rfl

theorem Reflects.sigaction (h : Reflects s d) (signum : ℤ) (act : Option SigAction) :
    Reflects (s.sigaction signum act).2 (s.chosen d (.sigaction signum act)) := by
  have hfails : Reflects (s.init_signals.fail EINVAL) d := h.init.congr ⟨rfl, rfl, rfl⟩
  cases act with
  | none =>
    change Reflects (s.sigaction signum none).2 d
    rw [SignalState.sigaction]
    split
    · exact hfails
    · split
      · exact hfails
      · exact h.init.congr ⟨rfl, rfl, rfl⟩
  | some act =>
    rw [chosen, SignalState.sigaction]
    rcases hn : signalOf signum with _ | n
    · exact hfails
    · dsimp only
      split
      · exact hfails
      · exact h.init.settle init_initialized (signalOf_eq_some hn) rfl rfl rfl rfl

theorem Reflects.exec (h : Reflects s d) (c : SignalCall) : Reflects (s.exec c) (s.chosen d c) := by
  cases c with
  | signal signum handler => exact h.signal signum handler
  | sigaction signum act => exact h.sigaction signum act
  | raise sig =>
    rw [SignalState.exec, SignalState.raise]
    split <;> exact h.init.congr ⟨rfl, rfl, rfl⟩
  | kill pid sig =>
    rw [SignalState.exec, SignalState.kill]
    split
    · exact h.init.congr ⟨rfl, rfl, rfl⟩
    · split
      · exact h.init.congr ⟨rfl, rfl, rfl⟩
      · split <;> exact h.init.congr ⟨rfl, rfl, rfl⟩
  | sigprocmask how set =>
    rcases set with _ | set
    · exact h.init.congr ⟨rfl, rfl, rfl⟩
    · rw [SignalState.exec, SignalState.sigprocmask]
      split <;> exact h.init.congr ⟨rfl, rfl, rfl⟩
  | sigpending | alarm | sigsuspend | pause => exact h.init.congr ⟨rfl, rfl, rfl⟩
  | posix9_signal_process | sleep => exact h.congr ⟨rfl, rfl, rfl⟩

/-! ### Steps of the library -/

theorem processReturns_tables (s : SignalState) (c : Caller) (k : ℕ) : SameTables s (s.processReturns c k) := by
  cases c <;> exact ⟨rfl, rfl, rfl⟩

theorem deliver_signal_tables (s : SignalState) (n : Signum) (l : Loop) :
    SameTables s (s.deliver_signal n l) := by
  rw [deliver_signal]
  dsimp only
  split
  · exact ⟨rfl, rfl, rfl⟩
  · split <;> exact ⟨rfl, rfl, rfl⟩
  · exact ⟨rfl, rfl, rfl⟩

theorem processRound_tables (s : SignalState) (l : Loop) : SameTables s (s.processRound l) := by
  rw [processRound]
  split
  · split
    · have hdeliver := (s.clearPending ⟨l.i, ‹_›⟩).deliver_signal_tables ⟨l.i, ‹_›⟩
        { l with i := l.i + 1, delivered := l.delivered + 1 }
      exact ⟨hdeliver.handlers, hdeliver.actions, hdeliver.initialized⟩
    · exact ⟨rfl, rfl, rfl⟩
  · exact processReturns_tables s l.caller l.delivered

/-- posix9_signal_process, sigsuspend, pause and sleep set no disposition themselves. -/
theorem Reflects.advance (h : Reflects s d) (cmdPeriod : Bool) (now : ℕ) :
    Reflects (s.advance cmdPeriod now) d := by
  rw [SignalState.advance]
  cases s.ctl with
  | program => exact h
  | check c =>
    have hlook : ∀ {r : SignalState}, (r = s.init_signals ∨ r = s.init_signals.makePending SIGINT) →
        Reflects r d := by
      rintro r (rfl | rfl)
      · exact h.init
      · exact h.init.congr ⟨rfl, rfl, rfl⟩
    rcases checkSignals_cases s c cmdPeriod with ⟨r, hr, ⟨-, heq⟩ | ⟨-, heq⟩⟩
    · dsimp only
      rw [heq]
      exact (hlook hr).congr (processReturns_tables r c 0)
    · dsimp only
      rw [heq]
      exact (hlook hr).congr ⟨rfl, rfl, rfl⟩
  | loop l => exact h.congr (processRound_tables s l)
  | test w hit =>
    dsimp only [testWait]
    split
    · cases w <;> exact h.congr ⟨rfl, rfl, rfl⟩
    · exact h.congr ⟨rfl, rfl, rfl⟩
  | sleepTest endTicks =>
    dsimp only [testSleep]
    split <;> exact h.congr ⟨rfl, rfl, rfl⟩

/-- What is left when a handler has returned. -/
theorem handlerReturns_tables (s : SignalState) (f : Frame) (rest : List Frame) :
    SameTables (if s.oneShot f.signum then s.setHandler f.signum .SIG_DFL else s) (s.handlerReturns f rest) := by
  rw [SignalState.handlerReturns, oneShot]
  by_cases hflags : (s.signal_actions f.signum).sa_flags &&& SA_RESETHAND = 0
  · rw [if_pos hflags, if_neg (by simp [hflags])]
    exact ⟨rfl, rfl, rfl⟩
  · rw [if_neg hflags, if_pos (decide_eq_true hflags)]
    exact ⟨rfl, rfl, rfl⟩

theorem returning_of_stack (hexited : s.exited = false) (hctl : s.ctl = .program) {f : Frame} {rest : List Frame}
    (hstack : s.stack = f :: rest) : s.returning = some f.signum := by
  rw [returning, hexited, hctl, hstack]
  rfl

theorem Reflects.handlerReturns (h : Reflects s d) {f : Frame} (rest : List Frame)
    (hreset : s.oneShot f.signum = true → s.signal_handlers f.signum = .SIG_DFL) :
    Reflects (s.handlerReturns f rest) d := by
  refine Reflects.congr ?_ (handlerReturns_tables s f rest)
  split
  · rename_i hflags
    have hdfl := hreset hflags
    refine ⟨⟨fun m => ?_, fun m => ?_⟩, fun hinit => ?_⟩
    · rcases eq_or_ne m f.signum with rfl | hne
      · exact (Function.update_self ..).trans (hdfl.symm.trans (h.handlers _))
      · exact (Function.update_of_ne hne _ _).trans (h.handlers m)
    · rcases eq_or_ne m f.signum with rfl | hne
      · refine (congrArg SigAction.sa_handler (Function.update_self ..)).trans ?_
        exact hdfl.symm.trans (h.handlers _)
      · exact (congrArg SigAction.sa_handler (Function.update_of_ne hne _ _)).trans (h.actions m)
    · obtain ⟨-, hactions⟩ := h.fresh hinit
      rw [oneShot, hactions] at hflags
      simp at hflags
  · exact h

theorem disposed_exited (hexited : s.exited = true) (a : SignalInput) : s.disposed d a = d := by
  cases a with
  | call c => exact if_neg (by simp [hexited])
  | advance cmdPeriod now =>
    have hnone : s.catching = none := by rw [catching, if_pos hexited]
    rw [disposed, hnone]
  | handlerReturns | alarm_callback | raiseElsewhere => rfl

theorem Reflects.step (h : Reflects s d) (a : SignalInput) (hC : s.ResetsNothing a) :
    Reflects (s.step a) (s.disposed d a) := by
  rcases Bool.eq_false_or_eq_true s.exited with hexited | hexited
  · rw [step_exited hexited, disposed_exited hexited]
    exact h
  · cases a with
    | call c =>
      rw [step_call hexited, disposed]
      by_cases hctl : s.ctl = .program
      · rw [if_pos hctl, if_pos ⟨hexited, hctl⟩]
        exact h.exec c
      · rw [if_neg hctl, if_neg fun hc => hctl hc.2]
        exact h
    | handlerReturns =>
      rcases step_handlerReturns hexited with ⟨f, rest, hctl, hstack, heq⟩ | heq
      · rw [heq]
        exact h.handlerReturns rest (hC f.signum (returning_of_stack hexited hctl hstack))
      · rwa [heq]
    | advance cmdPeriod now =>
      rw [step_advance hexited, disposed]
      split
      · rename_i n hn
        rw [if_neg (by simp [hC n hn])]
        exact h.advance cmdPeriod now
      · exact h.advance cmdPeriod now
    | alarm_callback =>
      rw [step_alarm_callback hexited]
      split
      · exact h.congr ⟨rfl, rfl, rfl⟩
      · exact h
    | raiseElsewhere sig =>
      rw [step_raiseElsewhere hexited]
      exact (h.exec (.raise sig)).congr ⟨rfl, rfl, rfl⟩

/-! ### The condition is needed -/

theorem catching_user (hn : s.catching = some n) : s.exited = false ∧ ∃ addr, s.signal_handlers n = .user addr := by
  rw [catching] at hn
  split at hn
  · cases hn
  · rename_i hexited
    refine ⟨by simpa using hexited, ?_⟩
    split at hn
    · split at hn
      · split at hn
        · rename_i addr _ haddr
          obtain rfl := Option.some.inj hn
          exact ⟨addr, haddr⟩
        · cases hn
      · cases hn
    · cases hn

theorem returning_eq_some (hn : s.returning = some n) : ∃ f rest, f.signum = n ∧ s.exited = false ∧
    s.step .handlerReturns = s.handlerReturns f rest := by
  rw [returning] at hn
  split at hn
  · cases hn
  · rename_i hexited
    split at hn
    · rename_i f rest hctl hstack
      refine ⟨f, rest, Option.some.inj hn, by simpa using hexited, ?_⟩
      simp [step, hexited, hctl, hstack]
    · cases hn

theorem resetsNothing_of_inForce (h : Reflects s d) (a : SignalInput)
    (hnext : InForce (s.step a) (s.disposed d a)) : s.ResetsNothing a := by
  cases a with
  | advance cmdPeriod now =>
    intro n hn
    by_contra hflags
    obtain ⟨hexited, addr, haddr⟩ := catching_user hn
    rw [step_advance hexited] at hnext
    have hreset : s.disposed d (.advance cmdPeriod now) n = .SIG_DFL := by
      rw [disposed, hn]
      dsimp only
      rw [if_pos (by simpa using hflags), settled_self rfl]
    have hkept : (s.advance cmdPeriod now).signal_handlers n = s.signal_handlers n :=
      ((h.advance cmdPeriod now).handlers n).trans (h.handlers n).symm
    have hdfl := (hnext.handlers n).symm.trans hkept
    rw [hreset, haddr] at hdfl
    cases hdfl
  | handlerReturns =>
    intro n hn hflags
    obtain ⟨f, rest, rfl, -, heq⟩ := returning_eq_some hn
    have hlost : (s.step .handlerReturns).signal_handlers f.signum = .SIG_DFL := by
      rw [heq, (handlerReturns_tables s f rest).handlers, if_pos hflags]
      exact Function.update_self ..
    have hd : d f.signum = .SIG_DFL := (hnext.handlers f.signum).symm.trans hlost
    rw [h.handlers, hd]
  | call | alarm_callback | raiseElsewhere => trivial

/-- The disposition in force is the last one given, in just the runs in which no handler is called under
    SA_RESETHAND and none returns under it with something to reset. -/
theorem inForce_iff_resetsNothing (inputs : List SignalInput) :
    Always Watched.step (fun x => InForce x.state x.disposition) .start inputs ↔
      Meets Watched.step (fun x a => x.state.ResetsNothing a) .start inputs :=
  always_iff_meets (I := fun x : Watched => Reflects x.state x.disposition) (fun _ a h hC => h.step a hC)
    (fun _ h => h.toInForce) (fun _ a h hnext => resetsNothing_of_inForce h a hnext) Reflects.start

/-- A one-shot handler of SIGUSR1 installs itself again, and is gone when it has returned. -/
theorem one_shot_handler_lost : ¬ Always Watched.step (fun x => InForce x.state x.disposition) .start
    ([.call (.sigaction 10 (some ⟨.user 0, 0, SA_RESETHAND⟩)), .call (.raise 10),
      .call .posix9_signal_process] ++ advances 11 ++ [.call (.signal 10 (.user 0)), .handlerReturns]) := by
  intro h
  have hlast := h.last.handlers SIGUSR1
  revert hlast
  decide +kernel

end Posix9.SignalState
