import Posix9.Lib.Segments

/-! The Gregorian calendar: dates and times of day, and the days and seconds since the start of a year. -/

namespace Calendar

open Segments

def isLeap (year : ℕ) : Bool := year % 4 = 0 && (year % 100 ≠ 0 || year % 400 = 0)

def yearLength (year : ℕ) : ℕ := if isLeap year then 366 else 365

/-- Months are counted from 0. -/
def monthLength (year month : ℕ) : ℕ :=
  match month with
  | 1 => if isLeap year then 29 else 28
  | 3 | 5 | 8 | 10 => 30
  | _ => 31

theorem yearLength_pos (year : ℕ) : 0 < yearLength year := by
  rw [yearLength]
  split <;> decide

theorem monthLength_bounds (year month : ℕ) : 0 < monthLength year month ∧ monthLength year month ≤ 31 := by
  unfold monthLength
  split
  · split <;> decide
  all_goals decide

theorem start_twelve (year : ℕ) : start (monthLength year) 12 = yearLength year := by
  simp only [start, monthLength, yearLength]
  split <;> rfl

/-! ### Dates -/

/-- A date that the calendar has; months and days are counted from 0. -/
structure Date where
  year : ℕ
  month : ℕ
  day : ℕ
  month_lt : month < 12
  day_lt : day < monthLength year month
  deriving DecidableEq

namespace Date

variable {base : ℕ} {d e : Date}

/-- The days since the first of the year. -/
def dayOfYear (d : Date) : ℕ := start (monthLength d.year) d.month + d.day

theorem dayOfYear_lt (d : Date) : d.dayOfYear < yearLength d.year := by
  rw [dayOfYear, ← start_twelve]
  have hle : start (monthLength d.year) d.month + _ ≤ start (monthLength d.year) 12 := start_add_le d.month_lt
  have hday := d.day_lt
  omega

/-- The days since the first day of `base`, of a date that is not before it. -/
def days (base : ℕ) (d : Date) : ℕ := start (fun k => yearLength (base + k)) (d.year - base) + d.dayOfYear

theorem yearLength_sub (h : base ≤ d.year) : yearLength (base + (d.year - base)) = yearLength d.year := by
  rw [Nat.add_sub_cancel' h]

theorem days_lt_iff (hd : base ≤ d.year) (he : base ≤ e.year) : d.days base < e.days base ↔
    d.year < e.year ∨ d.year = e.year ∧ (d.month < e.month ∨ d.month = e.month ∧ d.day < e.day) := by
  rw [days, days, lt_iff (by simpa only [yearLength_sub hd] using d.dayOfYear_lt)
    (by simpa only [yearLength_sub he] using e.dayOfYear_lt)]
  have hyear : d.year = e.year → (d.dayOfYear < e.dayOfYear ↔
      d.month < e.month ∨ d.month = e.month ∧ d.day < e.day) := by
    intro hyear
    rw [dayOfYear, dayOfYear, hyear]
    exact lt_iff (hyear ▸ d.day_lt) e.day_lt
  constructor
  · rintro (h | ⟨h, hday⟩)
    · exact .inl (by omega)
    · have hyear' : d.year = e.year := by omega
      exact .inr ⟨hyear', (hyear hyear').mp hday⟩
  · rintro (h | ⟨h, hday⟩)
    · exact .inl (by omega)
    · exact .inr ⟨by omega, (hyear h).mpr hday⟩

theorem ext_fields (hyear : d.year = e.year) (hmonth : d.month = e.month) (hday : d.day = e.day) : d = e := by
  cases d
  cases e
  cases hyear
  cases hmonth
  cases hday
  rfl

/-- The year a day lies in, counted from `base`, and the day of the year. -/
def yearOf (base n : ℕ) : ℕ × ℕ := locate (fun k => yearLength (base + k)) n n

/-- The month a day of the year lies in, and the day of the month. -/
def monthOf (year n : ℕ) : ℕ × ℕ := locate (monthLength year) n n

theorem yearOf_spec (base n : ℕ) :
    start (fun k => yearLength (base + k)) (yearOf base n).1 + (yearOf base n).2 = n ∧
      (yearOf base n).2 < yearLength (base + (yearOf base n).1) :=
  locate_spec (fun _ => yearLength_pos _) (Nat.le_refl n)

theorem monthOf_spec {year n : ℕ} (hn : n < yearLength year) :
    start (monthLength year) (monthOf year n).1 + (monthOf year n).2 = n ∧
      (monthOf year n).2 < monthLength year (monthOf year n).1 ∧ (monthOf year n).1 < 12 := by
  obtain ⟨hsum, hplace⟩ := locate_spec (fun m => (monthLength_bounds year m).1) (Nat.le_refl n)
  refine ⟨hsum, hplace, ?_⟩
  by_contra hlate
  have hle : start (monthLength year) 12 ≤ start (monthLength year) (monthOf year n).1 :=
    start_le (Nat.not_lt.mp hlate)
  rw [start_twelve] at hle
  have hsum : start (monthLength year) (monthOf year n).1 + (monthOf year n).2 = n := hsum
  omega

/-- The date `n` days after the first day of `base`. -/
def ofDays (base n : ℕ) : Date where
  year := base + (yearOf base n).1
  month := (monthOf (base + (yearOf base n).1) (yearOf base n).2).1
  day := (monthOf (base + (yearOf base n).1) (yearOf base n).2).2
  month_lt := (monthOf_spec (yearOf_spec base n).2).2.2
  day_lt := (monthOf_spec (yearOf_spec base n).2).2.1

theorem base_le_ofDays (base n : ℕ) : base ≤ (ofDays base n).year := Nat.le_add_right _ _

theorem days_ofDays (base n : ℕ) : (ofDays base n).days base = n := by
  have hyear := (yearOf_spec base n).1
  have hmonth := (monthOf_spec (yearOf_spec base n).2).1
  rw [days, dayOfYear, ofDays]
  dsimp only
  rw [Nat.add_sub_cancel_left, hmonth, hyear]

end Date

/-! ### Times of day -/

/-- A second of a day. -/
structure Time extends Date where
  hour : ℕ
  minute : ℕ
  second : ℕ
  hour_lt : hour < 24
  minute_lt : minute < 60
  second_lt : second < 60
  deriving DecidableEq

namespace Time

variable {base : ℕ} {t u : Time}

def secondOfDay (t : Time) : ℕ := t.hour * 3600 + t.minute * 60 + t.second

/-- The seconds since the start of `base`. -/
def seconds (base : ℕ) (t : Time) : ℕ := t.days base * 86400 + t.secondOfDay

theorem secondOfDay_lt (t : Time) : t.secondOfDay < 86400 := by
  have hhour := t.hour_lt
  have hminute := t.minute_lt
  have hsecond := t.second_lt
  rw [secondOfDay]
  omega

/-- The order of two times as their fields are compared from the year on. -/
def Before (t u : Time) : Prop :=
  t.year < u.year ∨ t.year = u.year ∧ (t.month < u.month ∨ t.month = u.month ∧ (t.day < u.day ∨ t.day = u.day ∧
    (t.hour < u.hour ∨ t.hour = u.hour ∧ (t.minute < u.minute ∨ t.minute = u.minute ∧ t.second < u.second))))

theorem seconds_lt_iff (ht : base ≤ t.year) (hu : base ≤ u.year) : t.seconds base < u.seconds base ↔ Before t u := by
  have hdays := Date.days_lt_iff ht hu
  have hdays' := Date.days_lt_iff hu ht
  have htday := t.secondOfDay_lt
  have huday := u.secondOfDay_lt
  have hclock : t.secondOfDay < u.secondOfDay ↔
      t.hour < u.hour ∨ t.hour = u.hour ∧ (t.minute < u.minute ∨ t.minute = u.minute ∧ t.second < u.second) := by
    have := t.minute_lt
    have := t.second_lt
    have := u.minute_lt
    have := u.second_lt
    rw [secondOfDay, secondOfDay]
    omega
  rw [seconds, seconds, Before]
  omega

theorem eq_of_seconds_eq (ht : base ≤ t.year) (hu : base ≤ u.year) (h : t.seconds base = u.seconds base) : t = u := by
  have hlt := (seconds_lt_iff ht hu).not.mp (by omega)
  have hgt := (seconds_lt_iff hu ht).not.mp (by omega)
  rw [Before] at hlt hgt
  have hdate : t.toDate = u.toDate := Date.ext_fields (by omega) (by omega) (by omega)
  obtain ⟨hhour, hminute, hsecond⟩ : t.hour = u.hour ∧ t.minute = u.minute ∧ t.second = u.second := by omega
  cases t
  cases u
  cases hdate
  cases hhour
  cases hminute
  cases hsecond
  rfl

/-- The time `n` seconds after the start of `base`. -/
def ofSeconds (base n : ℕ) : Time where
  toDate := .ofDays base (n / 86400)
  hour := n % 86400 / 3600
  minute := n % 3600 / 60
  second := n % 60
  hour_lt := by omega
  minute_lt := by omega
  second_lt := by omega

theorem base_le_ofSeconds (base n : ℕ) : base ≤ (ofSeconds base n).year := Date.base_le_ofDays _ _

theorem seconds_ofSeconds (base n : ℕ) : (ofSeconds base n).seconds base = n := by
  rw [seconds, secondOfDay]
  change (Date.ofDays base (n / 86400)).days base * 86400 + _ = n
  rw [Date.days_ofDays]
  change n / 86400 * 86400 + (n % 86400 / 3600 * 3600 + n % 3600 / 60 * 60 + n % 60) = n
  omega

theorem ofSeconds_seconds (h : base ≤ t.year) : ofSeconds base (t.seconds base) = t :=
  eq_of_seconds_eq (base_le_ofSeconds _ _) h (seconds_ofSeconds _ _)

end Time

end Calendar
