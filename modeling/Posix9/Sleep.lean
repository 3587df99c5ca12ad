import Posix9.Lib.Ticks
import Posix9.Signal
import Posix9.Socket
import Posix9.Wire

/-! sleep, usleep and the timeout of select. Each multiplies in 32 bits, adds to what TickCount is and waits until
    TickCount is no longer below that; the product and the sum can wrap, and to wait for ever is to wait for a
    value that TickCount does get to. -/

namespace Posix9

open Ticks

/-! ### usleep -/

/-- The duration in ticks. -/
def usleepTicks (usec : BitVec 32) : BitVec 32 :=
  let ticks := usec * 60 / 1000000
  if ticks = 0 ∧ 0 < usec then 1 else ticks

/-- The end of a round of its loop; `none` is that it goes round again. -/
def usleep (endTicks now : BitVec 32) : Option ℤ := if now < endTicks then none else some 0

/-! ### The law -/

/-- A call that waits until TickCount has got somewhere. -/
inductive TickWait where
  | sleep (seconds : BitVec 32)
  | usleep (usec : BitVec 32)
  | select (timeout : Option (BitVec 32 × BitVec 32))
  deriving DecidableEq

namespace TickWait

/-- Whole ticks in the duration asked for; `none` is for ever. -/
def need : TickWait → Option ℤ
  | .sleep seconds => some (seconds.toNat * 60)
  | .usleep usec => some (usec.toNat * 60 / 1000000)
  | .select (some (tv_sec, tv_usec)) => some ((tv_sec.toInt * 1000000 + tv_usec.toInt) * 60 / 1000000)
  | .select none => none

/-- A call entered at `tickCount` can end by time-out in a round that sees `now`: the loops of sleep and select are
    those of the signal layer and of the socket table, in whatever state these are. -/
def TimesOut (tickCount now : BitVec 32) : TickWait → Prop
  | .sleep seconds => ∃ (s s' : SignalState) (endTicks : ℕ),
    (s.sleep seconds.toNat tickCount.toNat).ctl = .check (.sleep endTicks) ∧
      (s'.testSleep endTicks now.toNat).ctl = .program
  | .usleep usec => Posix9.usleep (tickCount + usleepTicks usec) now = some 0
  | .select timeout => ∃ (ot : OpenTransport) (s : SocketState ot) (nfds : ℤ)
    (readfds writefds exceptfds : Option SocketState.FdSet) (res : SocketState.Selected),
    (s.select ⟨nfds, readfds, writefds, exceptfds, SocketState.selectEndTime tickCount timeout⟩ now).1 = some res ∧
      res.count = 0

/-- However TickCount goes on, the call ends by time-out only once as many ticks have gone by as are in the duration
    asked for. -/
def NeverShort (tickCount : BitVec 32) (w : TickWait) : Prop :=
  ∀ elapsed, w.TimesOut tickCount (tickCount + BitVec.ofNat 32 elapsed) → ∃ ticks, w.need = some ticks ∧ ticks ≤ elapsed

/-- What is waited for. -/
def endTime (tickCount : BitVec 32) : TickWait → BitVec 32
  | .sleep seconds => tickCount + seconds * 60
  | .usleep usec => tickCount + usleepTicks usec
  | .select timeout => SocketState.selectEndTime tickCount timeout

/-- What select adds to TickCount, before the sum wraps. -/
def selectTicks (tv_sec tv_usec : BitVec 32) : ℤ := tv_sec.toInt * 60 + ((tv_usec * 60).sdiv 1000000).toInt

/-- Neither the product nor the sum wraps; or the duration is less than a tick. A negative time of select that the
    sum brings below 0 is taken for a late one. -/
def InRange (tickCount : BitVec 32) : TickWait → Prop
  | .sleep seconds => seconds.toNat = 0 ∨ tickCount.toNat + seconds.toNat * 60 < 0x100000000
  | .usleep usec => usec.toNat * 60 < 1000000 ∨
    usec.toNat * 60 < 0x100000000 ∧ tickCount.toNat + usec.toNat * 60 / 1000000 < 0x100000000
  | .select (some (tv_sec, tv_usec)) => (tv_sec.toInt * 1000000 + tv_usec.toInt) * 60 < 1000000 ∨
    tv_usec.toInt * 60 < 0x80000000 ∧ tickCount.toNat + selectTicks tv_sec tv_usec < 0x100000000 ∨
      tickCount.toNat + selectTicks tv_sec tv_usec < 0
  | .select none => False

/-! ### The loops -/

theorem sleep_ctl (s : SignalState) (tickCount seconds : BitVec 32) {endTicks : ℕ} :
    (s.sleep seconds.toNat tickCount.toNat).ctl = .check (.sleep endTicks) ↔
      (tickCount + seconds * 60).toNat = endTicks := by
  rw [SignalState.sleep, BitVec.toNat_add, BitVec.toNat_mul]
  simp

/-- No signal has the number 0: only the clock ends sleep. -/
theorem testSleep_ends (s : SignalState) (endTicks now : ℕ) :
    (s.testSleep endTicks now).ctl = .program ↔ endTicks ≤ now := by
  have hpending : s.posix9_signal_pending 0 = false := rfl
  rw [SignalState.testSleep, hpending]
  by_cases hends : endTicks ≤ now
  · rw [if_neg (by omega)]
    exact iff_of_true rfl hends
  · rw [if_pos ⟨by omega, rfl⟩]
    exact iff_of_false (by simp) hends

theorem usleep_ends (endTicks now : BitVec 32) : Posix9.usleep endTicks now = some 0 ↔ endTicks ≤ now := by
  rw [Posix9.usleep]
  by_cases hends : now < endTicks
  · rw [if_pos hends]
    exact iff_of_false (by simp) (BitVec.not_le.mpr hends)
  · rw [if_neg hends]
    exact iff_of_true rfl (BitVec.not_lt.mp hends)

theorem select_late {ot : OpenTransport} (s : SocketState ot) {args : SocketState.SelectArgs} {now : BitVec 32}
    {res : SocketState.Selected} (h : (s.select args now).1 = some res) (hcount : res.count = 0) :
    args.endTime ≤ now := by
  rw [SocketState.select] at h
  dsimp only at h
  split at h
  · rename_i hends
    obtain rfl := Option.some.inj h
    exact BitVec.not_lt.mp (hends.resolve_left (by omega))
  · cases h

theorem select_nothing {ot : OpenTransport} (s : SocketState ot) {endTime now : BitVec 32} (h : endTime ≤ now) :
    (s.select ⟨0, none, none, none, endTime⟩ now).1 = some .zero := by
  have hscanned : (List.finRange MAX_SOCKETS).filter (fun i => decide (SocketState.sockFd i < 0)) = [] := by decide
  have hscan : s.selectScan ⟨0, none, none, none, endTime⟩ = (.zero, s) := by
    rw [SocketState.selectScan]
    dsimp only
    rw [hscanned, List.foldl_nil]
  rw [SocketState.select, hscan]
  exact congrArg Prod.fst (if_pos (.inr (BitVec.not_lt.mpr h)))

/-- Each of them ends by time-out once TickCount is not below what it waits for. -/
theorem timesOut_iff (w : TickWait) (tickCount now : BitVec 32) :
    w.TimesOut tickCount now ↔ w.endTime tickCount ≤ now := by
  cases w with
  | sleep seconds =>
    constructor
    · rintro ⟨s, s', endTicks, hctl, hends⟩
      rw [endTime, BitVec.le_def, (sleep_ctl s tickCount seconds).mp hctl]
      exact (testSleep_ends s' endTicks now.toNat).mp hends
    · intro h
      exact ⟨.start, .start, _, (sleep_ctl _ tickCount seconds).mpr rfl, (testSleep_ends _ _ _).mpr h⟩
  | usleep usec => exact usleep_ends _ now
  | select timeout =>
    constructor
    · rintro ⟨ot, s, nfds, readfds, writefds, exceptfds, res, hres, hcount⟩
      exact select_late s hres hcount
    · intro h
      exact ⟨wire, .start Wire.idle, 0, none, none, none, .zero, select_nothing _ h, rfl⟩

theorem elapsed_reading (tickCount : BitVec 32) (elapsed : ℕ) :
    (tickCount + BitVec.ofNat 32 elapsed).toNat = reading 0x100000000 tickCount.toNat elapsed := by
  rw [BitVec.toNat_add, BitVec.toNat_ofNat, Nat.add_mod_mod]
  rfl

/-- Where it waits for something, it is never short exactly if that is far enough ahead. -/
theorem neverShort_of_need {w : TickWait} {ticks : ℤ} (hneed : w.need = some ticks) (tickCount : BitVec 32) :
    w.NeverShort tickCount ↔ ticks ≤ 0 ∨ tickCount.toNat + ticks ≤ (w.endTime tickCount).toNat := by
  have hshort : w.NeverShort tickCount ↔ ∀ elapsed,
      (w.endTime tickCount).toNat ≤ reading 0x100000000 tickCount.toNat elapsed → ticks.toNat ≤ elapsed := by
    refine forall_congr' fun elapsed => ?_
    rw [timesOut_iff, BitVec.le_def, elapsed_reading, hneed]
    refine imp_congr_right fun _ => ?_
    simp
  rw [hshort, never_short_iff tickCount.isLt (w.endTime tickCount).isLt]
  omega

/-- A call that is to wait for ever ends when TickCount gets to its greatest value. -/
theorem not_neverShort_of_forever {w : TickWait} (hneed : w.need = none) (tickCount : BitVec 32) :
    ¬ w.NeverShort tickCount := by
  intro h
  obtain ⟨elapsed, -, hreading⟩ :=
    exists_reading (by decide) (w.endTime tickCount).isLt tickCount.toNat 0
  obtain ⟨ticks, hticks, -⟩ := h elapsed ((timesOut_iff w tickCount _).mpr (by
    rw [BitVec.le_def, elapsed_reading, hreading]))
  rw [hneed] at hticks
  cases hticks

/-! ### The condition -/

theorem toNat_usleepTicks (usec : BitVec 32) : (usleepTicks usec).toNat =
    if usec.toNat * 60 % 0x100000000 / 1000000 = 0 ∧ 0 < usec.toNat then 1
    else usec.toNat * 60 % 0x100000000 / 1000000 := by
  have hticks : (usec * 60 / 1000000).toNat = usec.toNat * 60 % 0x100000000 / 1000000 := by
    rw [BitVec.toNat_udiv, BitVec.toNat_mul]
    rfl
  have hzero : usec * 60 / 1000000 = 0 ↔ usec.toNat * 60 % 0x100000000 / 1000000 = 0 := by
    rw [← hticks]
    exact BitVec.toNat_inj.symm
  have hcase : usec * 60 / 1000000 = 0 ∧ 0 < usec ↔
      usec.toNat * 60 % 0x100000000 / 1000000 = 0 ∧ 0 < usec.toNat := and_congr hzero BitVec.lt_def
  rw [usleepTicks]
  by_cases hnone : usec * 60 / 1000000 = 0 ∧ 0 < usec
  · rw [if_pos hnone, if_pos (hcase.mp hnone)]
    rfl
  · rw [if_neg hnone, if_neg (mt hcase.mpr hnone), hticks]

/-- Where the product does not wrap the ticks are those asked for, and where it does they are too few. -/
theorem usleepTicks_cases (usec : BitVec 32) :
    (usec.toNat * 60 < 0x100000000 ∧
        (1000000 ≤ usec.toNat * 60 → (usleepTicks usec).toNat = usec.toNat * 60 / 1000000)) ∨
      0x100000000 ≤ usec.toNat * 60 ∧ (usleepTicks usec).toNat < usec.toNat * 60 / 1000000 := by
  rw [toNat_usleepTicks]
  by_cases hwraps : usec.toNat * 60 < 0x100000000
  · rw [Nat.mod_eq_of_lt hwraps]
    exact .inl ⟨hwraps, fun htick => if_neg (by omega)⟩
  · have husec := usec.isLt
    refine .inr ⟨by omega, ?_⟩
    split <;> omega

theorem toInt_usecTicks (tv_usec : BitVec 32) :
    ((tv_usec * 60).sdiv 1000000).toInt = (Int.bmod (tv_usec.toInt * 60) 0x100000000).tdiv 1000000 := by
  rw [BitVec.toInt_sdiv_of_ne_or_ne _ _ (.inr (by decide)), BitVec.toInt_mul]
  rfl

theorem tdiv_cases (x : ℤ) :
    0 ≤ x ∧ x.tdiv 1000000 = x / 1000000 ∨ x < 0 ∧ x.tdiv 1000000 = -(-x / 1000000) := by
  rcases Int.lt_or_le x 0 with hneg | hpos
  · refine .inr ⟨hneg, ?_⟩
    rw [← Int.tdiv_eq_ediv_of_nonneg (by omega), Int.neg_tdiv, Int.neg_neg]
  · exact .inl ⟨hpos, Int.tdiv_eq_ediv_of_nonneg hpos⟩

/-- Against the ticks asked for, those of select are not too few exactly if the product does not wrap upwards, and
    they are never far from them. -/
theorem selectTicks_cases (tv_sec tv_usec : BitVec 32) :
    ((tv_sec.toInt * 1000000 + tv_usec.toInt) * 60 / 1000000 ≤ selectTicks tv_sec tv_usec ↔
        tv_usec.toInt * 60 < 0x80000000) ∧
      selectTicks tv_sec tv_usec - (tv_sec.toInt * 1000000 + tv_usec.toInt) * 60 / 1000000 < 0x100000 ∧
      (tv_sec.toInt * 1000000 + tv_usec.toInt) * 60 / 1000000 - selectTicks tv_sec tv_usec < 0x100000 := by
  rw [selectTicks, toInt_usecTicks]
  have hlow := tv_usec.le_toInt
  have hhigh := tv_usec.toInt_lt
  generalize tv_usec.toInt = usec at hlow hhigh ⊢
  generalize tv_sec.toInt = sec
  have hwrapped := Int.bmod_eq_emod (usec * 60) 0x100000000
  generalize Int.bmod (usec * 60) 0x100000000 = x at hwrapped ⊢
  have hticks := tdiv_cases x
  generalize x.tdiv 1000000 = ticks at hticks ⊢
  split at hwrapped <;> omega

theorem toNat_selectEndTime (tickCount tv_sec tv_usec : BitVec 32) :
    ((SocketState.selectEndTime tickCount (some (tv_sec, tv_usec))).toNat : ℤ) =
      (tickCount.toNat + selectTicks tv_sec tv_usec) % 0x100000000 := by
  rw [SocketState.selectEndTime, selectTicks, BitVec.toNat_add, BitVec.toNat_add, BitVec.toNat_mul]
  have hsixty : (60 : BitVec 32).toNat = 60 := rfl
  rw [hsixty, BitVec.toInt_eq_toNat_cond tv_sec, BitVec.toInt_eq_toNat_cond (BitVec.sdiv _ _)]
  generalize (BitVec.sdiv (tv_usec * 60) 1000000).toNat = ticks
  split <;> split <;> omega

/-- From `tickCount` on, a call is never short exactly if what it computes for its duration does not wrap. -/
theorem neverShort_iff (w : TickWait) (tickCount : BitVec 32) : w.NeverShort tickCount ↔ w.InRange tickCount := by
  have hfirst := tickCount.isLt
  cases w with
  | sleep seconds =>
    rw [neverShort_of_need rfl, endTime, InRange, BitVec.toNat_add, BitVec.toNat_mul]
    have hseconds := seconds.isLt
    have hsixty : (60 : BitVec 32).toNat = 60 := rfl
    rw [hsixty]
    omega
  | usleep usec =>
    rw [neverShort_of_need rfl, endTime, InRange, BitVec.toNat_add]
    rcases usleepTicks_cases usec with ⟨hproduct, hticks⟩ | ⟨hproduct, hticks⟩
    · by_cases htick : usec.toNat * 60 < 1000000
      · omega
      · rw [hticks (by omega)]
        omega
    · omega
  | select timeout =>
    rcases timeout with _ | ⟨tv_sec, tv_usec⟩
    · exact iff_of_false (not_neverShort_of_forever rfl tickCount) id
    · rw [neverShort_of_need rfl, endTime, InRange, toNat_selectEndTime]
      obtain ⟨henough, hover, hunder⟩ := selectTicks_cases tv_sec tv_usec
      omega

/-- usleep of 72 seconds waits for 25 ticks. -/
theorem usleep_short : ¬ (TickWait.usleep 72000000).NeverShort 0 := by
  intro h
  obtain ⟨ticks, hneed, hle⟩ := h 25 ((timesOut_iff (.usleep 72000000) 0 _).mpr (by decide))
  obtain rfl := Option.some.inj hneed
  revert hle
  decide

end TickWait

end Posix9
