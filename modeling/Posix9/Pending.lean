import Posix9.Delivery

/-! Signals that are lost. The pending bit of a signal is cleared in two places only: in front of a delivery,
    and by init_signals, which runs before the first signal is made pending. But `pending_signals |= bit` and
    `pending_signals &= ~bit` are a load and a store, and alarm_callback runs at interrupt time: a SIGALRM it
    makes pending between the two is overwritten by the store. Here the two are steps of their own. -/

namespace Posix9

namespace SignalState
open Runs

/-! ### Load and store -/

/-- The signal whose bit a step sets in `pending_signals` or clears there: raise and kill set it, as does
    posix9_signal_process for Command-period, and its loop clears it. -/
def target (s : SignalState) (a : SignalInput) : Option Signum :=
  if s.exited then none
  else
    match a with
    | .call (.raise sig) => if s.ctl = .program then signalOf sig else none
    | .call (.kill pid sig) =>
      if s.ctl = .program ∧ ¬ (pid ≠ 0 ∧ pid ≠ 1 ∧ pid ≠ -1 ∧ pid ≠ getpid) ∧ sig ≠ 0 then signalOf sig
      else none
    | .raiseElsewhere sig => signalOf sig
    | .advance cmdPeriod _ =>
      match s.ctl with
      | .check _ => if cmdPeriod then some SIGINT else none
      | .loop l => if h : l.i < NSIG then if l.to_deliver.getLsbD l.i then some ⟨l.i, h⟩ else none else none
      | _ => none
    | _ => none

end SignalState

/-- The signal layer between the load of `pending_signals` and the store behind it: the step that is under
    way, with the value it has loaded. -/
structure Interruptible where
  state : SignalState
  loaded : Option (SignalInput × SigSet)

inductive InterruptInput where
  /-- A step of the signal layer; one that sets or clears a bit comes as far as its load. -/
  | input (a : SignalInput)
  /-- The step under way stores, and goes on to its end. -/
  | store

namespace Interruptible

def start : Interruptible := ⟨SignalState.start, none⟩

/-- A step with nothing under way: to its end, or to its load. -/
def proceed (x : Interruptible) (a : SignalInput) : Interruptible :=
  if x.state.target a = none then { x with state := x.state.step a }
  else { x with loaded := some (a, x.state.pending_signals) }

/-- While a step is under way nothing else runs, but for alarm_callback. -/
def interrupt (x : Interruptible) : SignalInput → Interruptible
  | .alarm_callback => { x with state := x.state.step .alarm_callback }
  | _ => x

def step (x : Interruptible) : InterruptInput → Interruptible
  | .input a => if x.loaded = none then x.proceed a else x.interrupt a
  | .store =>
    match x.loaded with
    | none => x
    | some (a, pending_signals) => ⟨{ x.state with pending_signals }.step a, none⟩

/-- A store takes back no SIGALRM: none has become pending since the load, or it is the signal the store is
    for. -/
def StoresAlarm (x : Interruptible) : InterruptInput → Prop
  | .input _ => True
  | .store => ∀ u ∈ x.loaded, x.state.pending_signals.getLsbD SIGALRM.val = true →
      u.2.getLsbD SIGALRM.val = true ∨ x.state.target u.1 = some SIGALRM

instance (x : Interruptible) : DecidablePred x.StoresAlarm
  | .input _ => .isTrue trivial
  | .store => inferInstanceAs (Decidable (∀ u ∈ x.loaded, _ → _ ∨ _))

end Interruptible

namespace SignalState

variable {s t : SignalState} {n : Signum} {a : SignalInput}

/-! ### The law -/

/-- Since a signal was made pending, it has been pending or deliver_signal has been entered for it. -/
def NotLost (s : SignalState) : Prop :=
  ∀ n newer older, s.log = newer ++ .madePending n :: older →
    s.pending_signals.getLsbD n.val = true ∨ ∃ d, .delivered d ∈ newer ∧ d.signum = n

/-- With what is known before init_signals has run. -/
structure Accounted (s : SignalState) : Prop where
  notLost : s.NotLost
  fresh : s.signals_initialized = false → s.Fresh

theorem NotLost.start : start.NotLost := fun n newer older h => by
  cases newer <;> cases h

/-! ### What keeps it -/

theorem NotLost.congr (h : s.NotLost) (hpending : t.pending_signals = s.pending_signals)
    (hlog : t.log = s.log) : t.NotLost := by
  intro n newer older heq
  rw [hpending]
  exact h n newer older (hlog.symm.trans heq)

/-- A signal is made pending; the others stay as they were. -/
theorem NotLost.made (h : s.NotLost) (hpending : t.pending_signals = s.pending_signals ||| bit n)
    (hlog : t.log = .madePending n :: s.log) : t.NotLost := by
  intro m newer older heq
  rw [hpending, getLsbD_or_bit]
  rw [hlog] at heq
  rcases newer with _ | ⟨e, newer⟩
  · obtain ⟨hsame, -⟩ := List.cons.inj heq
    obtain rfl := Event.madePending.inj hsame
    exact .inl (by rw [decide_eq_true rfl, Bool.or_true])
  · obtain ⟨rfl, hrest⟩ := List.cons.inj heq
    rcases h m newer older hrest with hbit | ⟨d, hd, hm⟩
    · exact .inl (by rw [hbit, Bool.true_or])
    · exact .inr ⟨d, List.mem_cons_of_mem _ hd, hm⟩

/-- A signal is delivered; the bits of the others stay as they were. -/
theorem NotLost.delivered (h : s.NotLost)
    (hpending : t.pending_signals = s.pending_signals &&& ~~~bit n)
    (hlog : t.log = .delivered ⟨n, s.blocked_signals⟩ :: s.log) : t.NotLost := by
  intro m newer older heq
  rw [hlog] at heq
  rcases newer with _ | ⟨e, newer⟩
  · cases (List.cons.inj heq).1
  · obtain ⟨rfl, hrest⟩ := List.cons.inj heq
    rcases eq_or_ne n m with rfl | hne
    · exact .inr ⟨_, List.mem_cons_self, rfl⟩
    · rcases h m newer older hrest with hbit | ⟨d, hd, hm⟩
      · refine .inl ?_
        rw [hpending, getLsbD_andNot_bit, hbit, decide_eq_false hne]
        rfl
      · exact .inr ⟨d, List.mem_cons_of_mem _ hd, hm⟩

theorem NotLost.touches (h : s.NotLost) (htouches : Touches s t) : t.NotLost := by
  cases htouches with
  | still hpending hlog => exact h.congr hpending hlog
  | made n hpending hlog => exact h.made hpending hlog
  | delivered n l hctl hround hpending hlog => exact h.delivered hpending hlog

/-- init_signals clears the bits where nothing has been made pending yet. -/
theorem Accounted.init (h : s.Accounted) : s.init_signals.NotLost := by
  rcases hinit : s.signals_initialized with _ | _
  · obtain ⟨-, -, hlog, hpending, -, -⟩ := h.fresh hinit
    refine h.notLost.congr ?_ ?_
    · rw [hpending, init_signals, hinit]
      rfl
    · rw [init_signals, hinit]
      rfl
  · rw [init_of_initialized hinit]
    exact h.notLost

theorem Accounted.step (h : s.Accounted) (a : SignalInput) : (s.step a).Accounted := by
  refine ⟨?_, fresh_step h.fresh a⟩
  rcases touches_step s a with htouches | htouches
  · exact h.notLost.touches htouches
  · exact h.init.touches htouches

/-! ### What a store does -/

/-- A step sets or clears the bit of the signal it is for. -/
inductive Assigns (s t : SignalState) (n : Signum) : Prop where
  | made (hpending : t.pending_signals = s.pending_signals ||| bit n) (hlog : t.log = .madePending n :: s.log)
  | cleared (hpending : t.pending_signals = s.pending_signals &&& ~~~bit n)
      (hlog : t.log = .delivered ⟨n, s.blocked_signals⟩ :: s.log)

theorem raise_assigns {sig : ℤ} (hsig : signalOf sig = some n) : Assigns s.init_signals (s.raise sig) n := by
  rw [SignalState.raise, hsig]
  exact .made rfl rfl

theorem kill_assigns {pid sig : ℤ} (hpid : ¬ (pid ≠ 0 ∧ pid ≠ 1 ∧ pid ≠ -1 ∧ pid ≠ getpid)) (hzero : sig ≠ 0)
    (hsig : signalOf sig = some n) : Assigns s.init_signals (s.kill pid sig) n := by
  rw [SignalState.kill, if_neg hpid, if_neg hzero, hsig]
  exact .made rfl rfl

theorem checkSignals_assigns (s : SignalState) (c : Caller) :
    Assigns s.init_signals (s.checkSignals c true) SIGINT := by
  rw [checkSignals, if_pos rfl]
  split
  · cases c <;> exact .made rfl rfl
  · exact .made rfl rfl

theorem processRound_assigns {l : Loop} (hi : l.i < NSIG) (hbit : l.to_deliver.getLsbD l.i = true) :
    Assigns s (s.processRound l) ⟨l.i, hi⟩ := by
  have hdeliver := (s.clearPending ⟨l.i, hi⟩).deliver_signal_log ⟨l.i, hi⟩
    { l with i := l.i + 1, delivered := l.delivered + 1 }
  rw [processRound, dif_pos hi, if_pos hbit]
  exact .cleared hdeliver.1 hdeliver.2

theorem step_assigns (h : s.target a = some n) :
    Assigns s (s.step a) n ∨ Assigns s.init_signals (s.step a) n := by
  unfold target at h
  split at h
  · cases h
  rename_i hexited
  have hrunning := Bool.eq_false_iff.mpr hexited
  cases a with
  | call c =>
    rw [step_call hrunning]
    cases c with
    | raise sig =>
      obtain ⟨hctl, hsig⟩ := Option.ite_none_right_eq_some.mp h
      rw [if_pos hctl]
      exact .inr (raise_assigns hsig)
    | kill pid sig =>
      obtain ⟨⟨hctl, hpid, hzero⟩, hsig⟩ := Option.ite_none_right_eq_some.mp h
      rw [if_pos hctl]
      exact .inr (kill_assigns hpid hzero hsig)
    | _ => cases h
  | raiseElsewhere sig =>
    rw [step_raiseElsewhere hrunning]
    cases raise_assigns (s := s) h with
    | made hpending hlog => exact .inr (.made hpending hlog)
    | cleared hpending hlog => exact .inr (.cleared hpending hlog)
  | advance cmdPeriod now =>
    rw [step_advance hrunning, advance]
    dsimp only at h
    split at h
    · obtain ⟨rfl, hint⟩ := Option.ite_none_right_eq_some.mp h
      obtain rfl := Option.some.inj hint
      rename_i c hctl
      rw [hctl]
      exact .inr (checkSignals_assigns s c)
    · split at h
      · rename_i l hctl hi
        obtain ⟨hbit, hround⟩ := Option.ite_none_right_eq_some.mp h
        obtain rfl := Option.some.inj hround
        rw [hctl]
        exact .inl (processRound_assigns hi hbit)
      · cases h
    · cases h
  | handlerReturns => cases h
  | alarm_callback => cases h

theorem eq_of_bits {w w' : SigSet} (h : ∀ m : Signum, w.getLsbD m.val = w'.getLsbD m.val) : w = w' :=
  BitVec.eq_of_getLsbD_eq fun i hi => h ⟨i, hi⟩

/-- A step whose store is for `n` ends as it should where the value loaded differs in the bit of `n` at
    most. -/
theorem Accounted.store (h : s.Accounted) (htarget : s.target a = some n) {v : SigSet}
    (hfresh : s.signals_initialized = false → v = s.pending_signals)
    (hv : ∀ m : Signum, n ≠ m → v.getLsbD m.val = s.pending_signals.getLsbD m.val) :
    ({ s with pending_signals := v }.step a).Accounted := by
  have hset : v ||| bit n = s.pending_signals ||| bit n := eq_of_bits fun m => by
    rw [getLsbD_or_bit, getLsbD_or_bit]
    rcases eq_or_ne n m with rfl | hne
    · rw [decide_eq_true rfl, Bool.or_true, Bool.or_true]
    · rw [hv m hne]
  have hclear : v &&& ~~~bit n = s.pending_signals &&& ~~~bit n := eq_of_bits fun m => by
    rw [getLsbD_andNot_bit, getLsbD_andNot_bit]
    rcases eq_or_ne n m with rfl | hne
    · rw [decide_eq_true rfl, Bool.not_true, Bool.and_false, Bool.and_false]
    · rw [hv m hne]
  have hassigned : ∀ t, Assigns { s with pending_signals := v } t n → t.NotLost := by
    rintro t (⟨hpending, hlog⟩ | ⟨hpending, hlog⟩)
    · exact h.notLost.made (hpending.trans hset) hlog
    · exact h.notLost.delivered (hpending.trans hclear) hlog
  refine ⟨?_, fresh_step (fun hun => ?_) a⟩
  · rcases step_assigns (s := { s with pending_signals := v }) htarget with hstep | hstep
    · exact hassigned _ hstep
    · by_cases hinit : s.signals_initialized = true
      · rw [init_of_initialized (by exact hinit)] at hstep
        exact hassigned _ hstep
      · rw [hfresh (Bool.eq_false_iff.mpr hinit)] at hstep ⊢
        rcases hstep with ⟨hpending, hlog⟩ | ⟨hpending, hlog⟩
        · exact h.init.made hpending hlog
        · exact h.init.delivered hpending hlog
  · rw [hfresh hun]
    exact h.fresh hun

/-- The callback leaves the step under way what it is. -/
theorem target_callback (s : SignalState) (a : SignalInput) :
    (s.step .alarm_callback).target a = s.target a := by
  by_cases hexited : s.exited = true
  · rw [step_exited hexited]
  · rw [step_alarm_callback (Bool.eq_false_iff.mpr hexited)]
    split <;> rfl

end SignalState

/-! ### Runs -/

namespace Interruptible

open Runs SignalState

variable {x : Interruptible} {a : SignalInput} {v : SigSet} {n : Signum}

/-- With nothing in between, load and store are the step of the signal layer. -/
theorem step_uninterrupted (hloaded : x.loaded = none) (htarget : x.state.target a ≠ none) :
    (x.step (.input a)).step .store = ⟨x.state.step a, none⟩ := by
  have hload : x.step (.input a) = ⟨x.state, some (a, x.state.pending_signals)⟩ := by
    rw [step, if_pos hloaded, proceed, if_neg htarget]
  rw [hload]
  rfl

/-- What is pending is what the step under way has loaded, or SIGALRM has just been added. -/
def Overtaken (s : SignalState) (v : SigSet) : Prop :=
  s.pending_signals = v ∨ s.pending_signals = v ||| bit SIGALRM ∧ ∃ l, s.log = .madePending SIGALRM :: l

/-- Signals are accounted for, and a step under way is one that stores. -/
structure Sound (x : Interruptible) : Prop where
  accounted : x.state.Accounted
  stores : ∀ u ∈ x.loaded, x.state.target u.1 ≠ none
  overtaken : ∀ u ∈ x.loaded, Overtaken x.state u.2

theorem Sound.start : start.Sound :=
  ⟨⟨NotLost.start, fun _ => Fresh.start⟩, fun u hu => (by cases hu), fun u hu => (by cases hu)⟩

theorem overtaken_callback {s : SignalState} (h : Overtaken s v) :
    Overtaken (s.step .alarm_callback) v := by
  by_cases hexited : s.exited = true
  · rwa [step_exited hexited]
  rw [step_alarm_callback (Bool.eq_false_iff.mpr hexited)]
  split
  · refine .inr ⟨?_, _, rfl⟩
    rcases h with hsame | ⟨hadded, -⟩
    · exact congrArg (· ||| bit SIGALRM) hsame
    · refine (congrArg (· ||| bit SIGALRM) hadded).trans ?_
      exact (BitVec.or_assoc ..).trans (congrArg (v ||| ·) BitVec.or_self)
  · exact h

/-- Before init_signals has run no alarm is set. -/
theorem Sound.fresh (h : x.Sound) (hloaded : x.loaded = some (a, v))
    (hun : x.state.signals_initialized = false) : v = x.state.pending_signals := by
  rcases h.overtaken _ hloaded with hsame | ⟨-, l, hlog⟩
  · exact hsame.symm
  · rw [(h.accounted.fresh hun).log] at hlog
    cases hlog

/-- What the store of SIGALRM's own bit, or of a value that has it if it is pending, leaves out. -/
theorem bits_of_storesAlarm {s : SignalState} (h : Overtaken s v)
    (hC : s.pending_signals.getLsbD SIGALRM.val = true → v.getLsbD SIGALRM.val = true ∨ n = SIGALRM)
    {m : Signum} (hne : n ≠ m) : v.getLsbD m.val = s.pending_signals.getLsbD m.val := by
  rcases h with hsame | ⟨hadded, -⟩
  · rw [hsame]
  · rw [hadded, getLsbD_or_bit]
    rw [hadded, getLsbD_or_bit, decide_eq_true rfl, Bool.or_true] at hC
    rcases eq_or_ne SIGALRM m with rfl | hother
    · rw [(hC rfl).resolve_right hne, Bool.true_or]
    · rw [decide_eq_false hother, Bool.or_false]

theorem Sound.proceeds (h : x.Sound) (hloaded : x.loaded = none) (a : SignalInput) : (x.proceed a).Sound := by
  rw [proceed]
  split
  · rw [hloaded]
    exact ⟨h.accounted.step a, fun u hu => (by cases hu), fun u hu => (by cases hu)⟩
  · rename_i htarget
    refine ⟨h.accounted, fun u hu => ?_, fun u hu => ?_⟩
    · obtain rfl := Option.some.inj hu
      exact htarget
    · obtain rfl := Option.some.inj hu
      exact .inl rfl

theorem Sound.interrupts (h : x.Sound) (a : SignalInput) : (x.interrupt a).Sound := by
  cases a with
  | alarm_callback =>
    refine ⟨h.accounted.step .alarm_callback, fun u hu => ?_, fun u hu => overtaken_callback (h.overtaken u hu)⟩
    exact (target_callback x.state u.1).trans_ne (h.stores u hu)
  | call | handlerReturns | advance | raiseElsewhere => exact h

theorem Sound.step (x : Interruptible) (a : InterruptInput) (h : x.Sound) (hC : x.StoresAlarm a) :
    (x.step a).Sound := by
  cases a with
  | input a =>
    rw [Interruptible.step]
    split
    · exact h.proceeds ‹_› a
    · exact h.interrupts a
  | store =>
    rcases hloaded : x.loaded with _ | ⟨b, v⟩
    · rw [Interruptible.step, hloaded]
      exact h
    · obtain ⟨n, htarget⟩ := Option.ne_none_iff_exists'.mp (h.stores _ hloaded)
      have hbits := hC _ hloaded
      rw [htarget, Option.some_inj] at hbits
      rw [Interruptible.step, hloaded]
      refine ⟨h.accounted.store htarget (h.fresh hloaded) fun m hne => ?_, fun u hu => (by cases hu),
        fun u hu => (by cases hu)⟩
      exact bits_of_storesAlarm (h.overtaken _ hloaded) hbits hne

/-- A store that takes SIGALRM back leaves it neither pending nor delivered. -/
theorem storesAlarm_of_notLost (x : Interruptible) (a : InterruptInput) (h : x.Sound)
    (hnext : (x.step a).state.NotLost) : x.StoresAlarm a := by
  cases a with
  | input a => trivial
  | store =>
    rintro ⟨b, v⟩ hloaded hpending
    obtain ⟨n, htarget⟩ := Option.ne_none_iff_exists'.mp (h.stores _ hloaded)
    rw [htarget, Option.some_inj]
    by_contra hno
    obtain ⟨hv, hn⟩ := not_or.mp hno
    rw [Interruptible.step, hloaded] at hnext
    have hinit : x.state.signals_initialized = true := by
      by_contra hun
      rw [(h.accounted.fresh (Bool.eq_false_iff.mpr hun)).pending] at hpending
      simp at hpending
    rcases h.overtaken _ hloaded with hsame | ⟨-, l, hlog⟩
    · exact hv (hsame ▸ hpending)
    have hassigns : Assigns { x.state with pending_signals := v }
        ({ x.state with pending_signals := v }.step b) n := by
      rcases step_assigns (s := { x.state with pending_signals := v }) htarget with hstep | hstep
      · exact hstep
      · rwa [init_of_initialized (by exact hinit)] at hstep
    rcases hassigns with ⟨hafter, hmade⟩ | ⟨hafter, hcleared⟩
    · rcases hnext SIGALRM [.madePending n] l (by rw [hmade, ← hlog]; rfl) with hbit | ⟨d, hd, -⟩
      · rw [hafter, getLsbD_or_bit, decide_eq_false hn, Bool.or_false] at hbit
        exact hv hbit
      · cases List.mem_singleton.mp hd
    · rcases hnext SIGALRM [_] l (by rw [hcleared, ← hlog]; rfl) with hbit | ⟨d, hd, hsignum⟩
      · rw [hafter, getLsbD_andNot_bit, decide_eq_false hn, Bool.not_false, Bool.and_true] at hbit
        exact hv hbit
      · obtain rfl := Event.delivered.inj (List.mem_singleton.mp hd)
        exact hn hsignum

/-- A signal that has been made pending is pending still or has been delivered since, throughout exactly those
    runs in which no store takes back a SIGALRM that has come since its load. -/
theorem notLost_iff_storesAlarm (inputs : List InterruptInput) :
    Always step (fun x => x.state.NotLost) start inputs ↔ Meets step StoresAlarm start inputs :=
  always_iff_meets Sound.step (fun _ h => h.accounted.notLost) storesAlarm_of_notLost Sound.start

/-- An alarm expires while raise(SIGINT) is between its load and its store. -/
theorem alarm_lost : ¬ Always step (fun x => x.state.NotLost) start
    [.input (.call (.alarm 1)), .input (.call (.raise 2)), .input .alarm_callback, .store] := by
  intro h
  rcases h.last SIGALRM [.madePending SIGINT] [] (by decide +kernel) with hbit | ⟨d, hd, -⟩
  · exact absurd hbit (by decide +kernel)
  · cases List.mem_singleton.mp hd

end Interruptible

end Posix9
