import Posix9.CondVar
import Posix9.Lib.Ticks

/-! pthread_cond_timedwait by the clock. `abstime` is a time of day, and the wait compares TickCount with what
    TickCount was at its entry and the seconds of `abstime`, as if those were to pass from then on; it does so
    modulo 2^32 and leaves the nanoseconds out. -/

namespace Posix9

open Runs Ticks

/-! ### The clock -/

/-- `struct timespec`. -/
structure Timespec where
  tv_sec : BitVec 32
  tv_nsec : BitVec 32

def MAC_TO_UNIX_OFFSET : ℕ := 2082844800

/-- time, by the seconds GetDateTime gives. -/
def time (secs : BitVec 32) : BitVec 32 := secs - BitVec.ofNat 32 MAC_TO_UNIX_OFFSET

/-- Ticks since the epoch of GetDateTime. -/
abbrev Moment := ℕ

def GetDateTime (m : Moment) : BitVec 32 := BitVec.ofNat 32 (m / 60)

/-- The seconds of the wall clock since 1970. -/
def wallClock (m : Moment) : ℤ := (m / 60 : ℕ) - MAC_TO_UNIX_OFFSET

/-- `phase` is what it would have shown at the epoch. -/
def TickCount (phase : ℕ) (m : Moment) : ℕ := reading 0x100000000 phase m

/-- While a time_t has room for it, time gives the wall clock. -/
theorem time_eq {m : Moment} (hlow : -0x80000000 ≤ wallClock m) (hhigh : wallClock m < 0x80000000) :
    (time (GetDateTime m)).toInt = wallClock m := by
  rw [wallClock, MAC_TO_UNIX_OFFSET] at hlow hhigh ⊢
  have hoffset : (BitVec.ofNat 32 2082844800).toInt = (2082844800 : ℕ) := by decide
  rw [time, GetDateTime, MAC_TO_UNIX_OFFSET, BitVec.toInt_sub, hoffset, BitVec.toInt_ofNat', Int.bmod_sub_bmod]
  exact Int.bmod_eq_of_le (by omega) (by omega)

/-- The wall clock has got to `abstime`. -/
def Reached (abstime : Timespec) (m : Moment) : Prop :=
  abstime.tv_sec.toInt * 1000000000 + abstime.tv_nsec.toInt ≤ wallClock m * 1000000000

instance (abstime : Timespec) (m : Moment) : Decidable (Reached abstime m) := inferInstanceAs (Decidable (_ ≤ _))

theorem Reached.mono {abstime : Timespec} {m n : Moment} (h : Reached abstime m) (hle : m ≤ n) :
    Reached abstime n := by
  have hdiv : ((m / 60 : ℕ) : ℤ) ≤ (n / 60 : ℕ) := Int.ofNat_le.mpr (Nat.div_le_div_right hle)
  rw [Reached, wallClock] at h ⊢
  omega

theorem exists_reached (abstime : Timespec) : ∃ m, Reached abstime m := by
  refine ⟨60 * (abstime.tv_sec.toInt.natAbs + abstime.tv_nsec.toInt.natAbs + MAC_TO_UNIX_OFFSET), ?_⟩
  rw [Reached, wallClock, Nat.mul_div_cancel_left _ (by decide)]
  omega

namespace SyncState

variable {τ : Type} [DecidableEq τ] {self : τ → ℕ} {s s' : SyncState τ} {t : τ} {w : CondWait} {abstime : Timespec}

/-! ### The law -/

/-- A step at a moment. -/
abbrev TimedInput (τ : Type) := SyncInput τ × Moment

def timedStep (self : τ → ℕ) (s : SyncState τ) (x : TimedInput τ) : SyncState τ := s.step self x.1

/-- From a moment on, and in a call of the thread: its steps go on with the call, by what TickCount shows. -/
def Follows (phase : ℕ) (t : τ) : Moment → List (TimedInput τ) → Prop
  | _, [] => True
  | first, (a, m) :: rest => first ≤ m ∧ (a.thread = t → a = .resume t (TickCount phase m)) ∧ Follows phase t m rest

/-- The wait that a thread tests for in a step. -/
def testing (s : SyncState τ) : SyncInput τ → Option CondWait
  | .call t (.pthread_cond_timedwait c m tv_sec ticks) _ =>
    if s.place t = .program then some ⟨c, m, some (endTicksOf ticks tv_sec), s.signals c⟩ else none
  | .resume t _ =>
    match s.place t with
    | .waiting w => some w
    | _ => none
  | _ => none

/-- A wait of the thread has returned ETIMEDOUT between two states. -/
def TimesOut (s s' : SyncState τ) (t : τ) : Prop :=
  ∃ r, s'.returned = r :: s.returned ∧ r.thread = t ∧ r.value = ETIMEDOUT

/-- The thread returns ETIMEDOUT only once the deadline has been reached; and where it has been, and the thread
    has not been signalled, it leaves the loop with ETIMEDOUT, to return when it has the mutex. -/
structure Punctual (handle : τ → ℕ) (t : τ) (abstime : Timespec) (s : SyncState τ) (x : TimedInput τ) : Prop where
  notEarly : TimesOut s (s.timedStep handle x) t → Reached abstime x.2
  notLate : x.1.thread = t → ∀ w ∈ s.testing x.1, (s.conds w.cond).signaled = 0 → Reached abstime x.2 →
    TimesOut s (s.timedStep handle x) t ∨ (s.timedStep handle x).place t = .locking (.wait w ETIMEDOUT)

/-- The call of pthread_cond_timedwait at a moment; it tests for the first time at another. -/
def timedwait (phase : ℕ) (t : τ) (c m : ℕ) (abstime : Timespec) (entry test : Moment) : TimedInput τ :=
  (.call t (.pthread_cond_timedwait c m abstime.tv_sec.toInt (TickCount phase entry)) (TickCount phase test), test)

/-- A wait that begins at the moment `entry` respects its deadline, whatever has happened before, whenever the
    thread goes on and whatever others do. -/
def RespectsDeadline (self : τ → ℕ) (t : τ) (phase : ℕ) (entry : Moment) (abstime : Timespec) : Prop :=
  ∀ before c m test rest, (run (step self) start before).place t = .program → entry ≤ test →
    Follows phase t test rest →
      Meets (timedStep self) (Punctual self t abstime) (run (step self) start before)
        (timedwait phase t c m abstime entry test :: rest)

/-! ### One test -/

/-- A thread that leaves its loop returns, or waits for the mutex. -/
theorem lock_leaves (self : τ → ℕ) (s : SyncState τ) (t : τ) (w : CondWait) (v : ℤ) :
    (∃ r, (s.pthread_mutex_lock self t (.wait w v)).returned = r :: s.returned ∧ r.thread = t ∧ r.value = v) ∨
      (s.pthread_mutex_lock self t (.wait w v)).place t = .locking (.wait w v) := by
  rw [pthread_mutex_lock]
  split
  · exact .inl ⟨_, rfl, rfl, rfl⟩
  · exact .inr goTo_self

theorem waitLoop_late {endTicks now : ℕ} (hends : w.endTicks = some endTicks)
    (hsignaled : (s.conds w.cond).signaled = 0) (hnow : endTicks ≤ now) :
    TimesOut s (s.waitLoop self t w now) t ∨ (s.waitLoop self t w now).place t = .locking (.wait w ETIMEDOUT) := by
  rw [waitLoop, if_pos hsignaled, hends]
  dsimp only
  rw [if_pos hnow]
  exact lock_leaves self _ t w ETIMEDOUT

theorem waitLoop_waits {endTicks now : ℕ} (hends : w.endTicks = some endTicks)
    (hsignaled : (s.conds w.cond).signaled = 0) (hnow : now < endTicks) :
    s.waitLoop self t w now = s.goTo t (.waiting w) := by
  rw [waitLoop, if_pos hsignaled, hends]
  dsimp only
  rw [if_neg (by omega)]

theorem waitLoop_place (self : τ → ℕ) (s : SyncState τ) (t : τ) (w : CondWait) (now : ℕ) :
    ∃ p, (s.waitLoop self t w now).place = Function.update s.place t p ∧
      ((s.waitLoop self t w now).place t = .waiting w ∨ ∀ w', p ≠ .waiting w') := by
  rcases waitLoop_cases self s t w now with ⟨-, heq⟩ | ⟨x, v, heq, -⟩
  · rw [heq]
    exact ⟨_, rfl, .inl goTo_self⟩
  · rw [heq]
    rcases (lock_outside self (s.setCond w.cond x) t (.wait w v)).place with hplace | ⟨k, -, hplace⟩
    · exact ⟨_, hplace, .inr (by simp)⟩
    · exact ⟨_, hplace, .inr (by simp)⟩

/-- Another thread's step does not move the thread. -/
theorem step_place_of_ne (self : τ → ℕ) (s : SyncState τ) {a : SyncInput τ} (hne : t ≠ a.thread) :
    (s.step self a).place t = s.place t := by
  refine step_induct (J := fun s' => s'.place t = s.place t) a rfl (fun _ _ _ hq => hq) ?_ ?_ ?_ ?_
  · intro s' k hout _ _
    obtain ⟨p, hp, -⟩ := hout.place_eq
    rw [hp, Function.update_of_ne hne]
  · intro s' c hsignals _
    rw [hsignals.place, Function.update_of_ne hne]
  · intro w now _ _ _
    obtain ⟨p, hp, -⟩ := waitLoop_place self (s.enterWait a.thread w) a.thread w now
    rw [hp, Function.update_of_ne hne, enterWait_place, Function.update_of_ne hne]
  · intro w now _
    obtain ⟨p, hp, -⟩ := waitLoop_place self s a.thread w now
    rw [hp, Function.update_of_ne hne]

/-! ### A wait whose value to wait for is 0 -/

/-- The thread is past its loop. -/
def PastLoop (s : SyncState τ) (t : τ) : Prop := ∀ w, s.place t ≠ .waiting w

theorem PastLoop.resume (h : s.PastLoop t) (now : ℕ) : (s.step self (.resume t now)).PastLoop t := by
  intro w
  rw [step]
  dsimp only
  rw [turn]
  rcases hplace : s.place t with _ | k | w'
  · rw [hplace]
    simp
  · rcases (lock_outside self s t k).place with hafter | ⟨k', -, hafter⟩ <;> rw [hafter, Function.update_self] <;> simp
  · exact absurd hplace (h w')

/-- Past the loop nothing is late, and a deadline that has been reached stays so. -/
theorem punctual_of_pastLoop {phase : ℕ} {first : Moment} (hreached : Reached abstime first)
    {rest : List (TimedInput τ)} (hrest : Follows phase t first rest) (h : s.PastLoop t) :
    Meets (timedStep self) (Punctual self t abstime) s rest := by
  induction rest generalizing s first with
  | nil => trivial
  | cons x rest ih =>
    obtain ⟨a, m⟩ := x
    obtain ⟨hle, hown, hrest⟩ := hrest
    have hreached := hreached.mono hle
    refine ⟨⟨fun _ => hreached, fun hthread w hw => ?_⟩, ih hreached hrest ?_⟩
    · rw [hown hthread, testing] at hw
      rcases hplace : s.place t with _ | k | w' <;> rw [hplace] at hw
      · cases hw
      · cases hw
      · exact absurd hplace (h w')
    · by_cases hthread : a.thread = t
      · rw [timedStep, hown hthread]
        exact h.resume _
      · intro w
        rw [timedStep, step_place_of_ne self s (Ne.symm hthread)]
        exact h w

/-- What the call comes to: the loop, entered. -/
theorem turn_timedwait (self : τ → ℕ) {phase : ℕ} {c m : ℕ} {entry test : Moment} (hprogram : s.place t = .program) :
    s.turn self (timedwait phase t c m abstime entry test).1 =
      (s.enterWait t ⟨c, m, some (endTicksOf (TickCount phase entry) abstime.tv_sec.toInt), s.signals c⟩).waitLoop self
        t ⟨c, m, some (endTicksOf (TickCount phase entry) abstime.tv_sec.toInt), s.signals c⟩
        (TickCount phase test) := by
  rw [timedwait, turn, if_pos hprogram]
  rfl

omit [DecidableEq τ] in
theorem testing_timedwait {phase : ℕ} {c m : ℕ} {entry test : Moment} (hprogram : s.place t = .program) :
    s.testing (timedwait phase t c m abstime entry test).1 =
      some ⟨c, m, some (endTicksOf (TickCount phase entry) abstime.tv_sec.toInt), s.signals c⟩ := by
  rw [timedwait, testing, if_pos hprogram]

theorem signaled_enterWait : ((s.enterWait t w).conds w.cond).signaled = (s.conds w.cond).signaled := by
  rw [enterWait_cond]

theorem pastLoop_of_zero {endTicks now : ℕ} (hends : w.endTicks = some endTicks) (hnow : endTicks ≤ now) :
    (s.waitLoop self t w now).PastLoop t := by
  have hlocked : ∀ v x, ((s.setCond w.cond x).pthread_mutex_lock self t (.wait w v)).PastLoop t := by
    intro v x w'
    rcases (lock_outside self (s.setCond w.cond x) t (.wait w v)).place with hplace | ⟨k, -, hplace⟩ <;>
      rw [hplace, Function.update_self] <;> simp
  rw [waitLoop, hends]
  dsimp only
  rw [if_pos hnow]
  split <;> exact hlocked _ _

/-! ### The condition -/

/-- A wait respects its deadline in every run exactly if the ticks of `abstime` bring TickCount to 0 and the
    deadline has been reached when the call is made. -/
theorem respectsDeadline_iff (self : τ → ℕ) (t : τ) (phase : ℕ) (entry : Moment) (abstime : Timespec) :
    RespectsDeadline self t phase entry abstime ↔
      (0x100000000 : ℤ) ∣ TickCount phase entry + abstime.tv_sec.toInt * 60 ∧ Reached abstime entry := by
  have hzero : endTicksOf (TickCount phase entry) abstime.tv_sec.toInt = 0 ↔
      (0x100000000 : ℤ) ∣ TickCount phase entry + abstime.tv_sec.toInt * 60 := by
    rw [endTicksOf, Int.dvd_iff_emod_eq_zero]
    omega
  rw [← hzero]
  constructor
  · intro h
    have hprogram : (start : SyncState τ).place t = .program := rfl
    -- A call whose first test is at `test`, by a thread alone.
    have hpunctual : ∀ test, entry ≤ test →
        Punctual self t abstime start (timedwait phase t 0 0 abstime entry test) := by
      intro test hle
      exact (h [] 0 0 test [] hprogram hle trivial).1
    by_cases hends : endTicksOf (TickCount phase entry) abstime.tv_sec.toInt = 0
    · refine ⟨hends, (hpunctual entry (Nat.le_refl _)).notEarly ?_⟩
      change TimesOut start (start.turn self (timedwait phase t 0 0 abstime entry entry).1) t
      rw [turn_timedwait self hprogram, hends]
      exact ⟨_, rfl, rfl, rfl⟩
    · -- TickCount is 0 again at some time behind the deadline.
      obtain ⟨deadline, hdeadline⟩ := exists_reached abstime
      obtain ⟨test, hle, htick⟩ := exists_reading (M := 0x100000000) (by decide) (by decide : 0 < 0x100000000)
        phase (entry + deadline)
      have hlate : TimesOut start (start.turn self (timedwait phase t 0 0 abstime entry test).1) t ∨
          (start.turn self (timedwait phase t 0 0 abstime entry test).1).place t = _ :=
        (hpunctual test (Nat.le_trans (Nat.le_add_right ..) hle)).notLate rfl _
          (testing_timedwait hprogram) rfl (hdeadline.mono (Nat.le_trans (Nat.le_add_left ..) hle))
      rw [turn_timedwait self hprogram, waitLoop_waits rfl rfl (by rw [TickCount, htick]; omega)] at hlate
      rcases hlate with ⟨r, hreturned, -⟩ | hplace
      · cases hreturned
      · rw [goTo_self] at hplace
        cases hplace
  · rintro ⟨hends, hreached⟩ before c m test rest hprogram hle hrest
    have hreached := hreached.mono hle
    generalize run (step self) start before = s at hprogram ⊢
    refine ⟨⟨fun _ => hreached, fun _ w hw hsignaled _ => ?_⟩, punctual_of_pastLoop hreached hrest ?_⟩
    · obtain rfl := Option.some.inj ((testing_timedwait hprogram).symm.trans hw)
      change TimesOut s (s.turn self (timedwait phase t c m abstime entry test).1) t ∨
        (s.turn self (timedwait phase t c m abstime entry test).1).place t = _
      rw [turn_timedwait self hprogram]
      exact waitLoop_late rfl (signaled_enterWait.trans hsignaled) (by rw [hends]; exact Nat.zero_le _)
    · change (s.turn self (timedwait phase t c m abstime entry test).1).PastLoop t
      rw [turn_timedwait self hprogram]
      exact pastLoop_of_zero (by rw [hends]) (Nat.zero_le _)

/-- On 1 January 2025 a thread waits until a second later, and goes on an hour after that: it has not given up. -/
theorem deadline_missed : ¬ RespectsDeadline handles 0 0 (60 * 3818534400) ⟨1735689601, 0⟩ := by
  intro h
  have hlate := (h [] 0 0 (60 * 3818538000) [] rfl (by decide) trivial).1.notLate rfl _
    (testing_timedwait rfl) rfl (by decide)
  have hreturned : (timedStep handles (run (step handles) start [])
      (timedwait 0 0 0 0 ⟨1735689601, 0⟩ (60 * 3818534400) (60 * 3818538000))).returned = [] := by decide
  have hplace : (timedStep handles (run (step handles) start [])
      (timedwait 0 0 0 0 ⟨1735689601, 0⟩ (60 * 3818534400) (60 * 3818538000))).place 0 =
        .waiting ⟨0, 0, some (endTicksOf (TickCount 0 (60 * 3818534400)) 1735689601), 0⟩ := by decide
  rcases hlate with ⟨r, heq, -⟩ | heq
  · cases heq.symm.trans hreturned
  · cases heq.symm.trans hplace

end SyncState

end Posix9
