import Posix9.Deadline
import Posix9.Lib.Calendar
import Posix9.Strftime

/-! posix9_misc.c: localtime, gmtime, mktime and ctime, and the lines syslog of os9_platform.c writes. SecondsToDate
    and DateToSeconds are not part of the library, so they are a parameter; they count from the start of 1904. -/

namespace Posix9

open Calendar Decimal Memory

/-! ### The Toolbox -/

/-- Its fields are shorts. -/
structure DateTimeRec where
  year : BitVec 16
  month : BitVec 16
  day : BitVec 16
  hour : BitVec 16
  minute : BitVec 16
  second : BitVec 16
  dayOfWeek : BitVec 16

structure DateUtils where
  SecondsToDate : BitVec 32 → DateTimeRec
  DateToSeconds : DateTimeRec → BitVec 32

/-- A time as a record, with its months and days from 1 on. -/
def dateTimeRec (t : Calendar.Time) (dayOfWeek : BitVec 16) : DateTimeRec where
  year := BitVec.ofNat 16 t.year
  month := BitVec.ofNat 16 (t.month + 1)
  day := BitVec.ofNat 16 (t.day + 1)
  hour := BitVec.ofNat 16 t.hour
  minute := BitVec.ofNat 16 t.minute
  second := BitVec.ofNat 16 t.second
  dayOfWeek

/-- The time a number of seconds stands for. -/
def macTime (secs : BitVec 32) : Calendar.Time := .ofSeconds 1904 secs.toNat

/-- From 1 for a Sunday; 1904 began with a Friday. -/
def macDayOfWeek (t : Calendar.Time) : ℕ := (t.days 1904 + 5) % 7 + 1

/-- SecondsToDate follows the calendar, and DateToSeconds goes back from it whatever the day of the week. -/
structure DateUtils.Lawful (du : DateUtils) : Prop where
  to_date : ∀ secs,
    du.SecondsToDate secs = dateTimeRec (macTime secs) (BitVec.ofNat 16 (macDayOfWeek (macTime secs)))
  to_seconds : ∀ (t : Calendar.Time) dayOfWeek, 1904 ≤ t.year → t.seconds 1904 < 2 ^ 32 →
    du.DateToSeconds (dateTimeRec t dayOfWeek) = BitVec.ofNat 32 (t.seconds 1904)

/-- One that counts itself. -/
def calendarUtils : DateUtils where
  SecondsToDate secs := dateTimeRec (macTime secs) (BitVec.ofNat 16 (macDayOfWeek (macTime secs)))
  DateToSeconds r :=
    let dayOfYear := Segments.start (monthLength r.year.toNat) (r.month.toNat - 1) + (r.day.toNat - 1)
    let days := Segments.start (fun k => yearLength (1904 + k)) (r.year.toNat - 1904) + dayOfYear
    BitVec.ofNat 32 (days * 86400 + (r.hour.toNat * 3600 + r.minute.toNat * 60 + r.second.toNat))

/-! ### posix9_misc.c -/

/-- `struct tm`. -/
structure BrokenDown where
  tm_sec : ℤ
  tm_min : ℤ
  tm_hour : ℤ
  tm_mday : ℤ
  tm_mon : ℤ
  tm_year : ℤ
  tm_wday : ℤ
  tm_yday : ℤ
  tm_isdst : ℤ
  deriving DecidableEq

variable (du : DateUtils)

/-- The seconds since 1904 of a time_t. -/
def macSeconds (timep : BitVec 32) : BitVec 32 := timep + BitVec.ofNat 32 MAC_TO_UNIX_OFFSET

def localtime : Option (BitVec 32) → Option BrokenDown
  | none => none
  | some timep =>
    let dt := du.SecondsToDate (macSeconds timep)
    some {
      tm_sec := dt.second.toInt
      tm_min := dt.minute.toInt
      tm_hour := dt.hour.toInt
      tm_mday := dt.day.toInt
      tm_mon := dt.month.toInt - 1
      tm_year := dt.year.toInt - 1900
      tm_wday := dt.dayOfWeek.toInt - 1
      tm_yday := 0
      tm_isdst := 0 }

def gmtime (timep : Option (BitVec 32)) : Option BrokenDown := localtime du timep

def mktime : Option BrokenDown → BitVec 32
  | none => -1
  | some tm =>
    let dt : DateTimeRec := {
      second := BitVec.ofInt 16 tm.tm_sec
      minute := BitVec.ofInt 16 tm.tm_min
      hour := BitVec.ofInt 16 tm.tm_hour
      day := BitVec.ofInt 16 tm.tm_mday
      month := BitVec.ofInt 16 (tm.tm_mon + 1)
      year := BitVec.ofInt 16 (tm.tm_year + 1900)
      dayOfWeek := BitVec.ofInt 16 (tm.tm_wday + 1) }
    time (du.DateToSeconds dt)

def ctimeDays : List CStr := ["Sun", "Mon", "Tue", "Wed", "Thu", "Fri", "Sat"].map String.toList

def ctimeMonths : List CStr :=
  ["Jan", "Feb", "Mar", "Apr", "May", "Jun", "Jul", "Aug", "Sep", "Oct", "Nov", "Dec"].map String.toList

/-- `%2d`. -/
def sprintfSpace (width : ℕ) (n : ℤ) : CStr := (Tm.sprintf0 0 n).leftpad width ' '

/-- `sizeof(buf)` in ctime. -/
def CTIME_SIZE : ℕ := 26

/-- What its sprintf writes to `buf`. -/
def ctimeText (tm : BrokenDown) : CStr :=
  (ctimeDays.getD tm.tm_wday.toNat []).take 3 ++ ' ' :: (ctimeMonths.getD tm.tm_mon.toNat []).take 3 ++
    ' ' :: sprintfSpace 2 tm.tm_mday ++ ' ' :: Tm.sprintf0 2 tm.tm_hour ++ ':' :: Tm.sprintf0 2 tm.tm_min ++
    ':' :: Tm.sprintf0 2 tm.tm_sec ++ ' ' :: Tm.sprintf0 0 (tm.tm_year + 1900) ++ ['\n']

/-- What is in `buf` before its NUL. -/
def ctime (timep : Option (BitVec 32)) : Option CStr := (localtime du timep).map ctimeText

/-! ### os9_platform.c -/

def LOG_EMERG : ℤ := 0
def LOG_ALERT : ℤ := 1
def LOG_CRIT : ℤ := 2
def LOG_ERR : ℤ := 3
def LOG_WARNING : ℤ := 4
def LOG_NOTICE : ℤ := 5
def LOG_INFO : ℤ := 6
def LOG_DEBUG : ℤ := 7

/-- `level`. -/
def logLevel (priority : ℤ) : CStr :=
  if priority = LOG_EMERG then "EMERG".toList
  else if priority = LOG_ALERT then "ALERT".toList
  else if priority = LOG_CRIT then "CRIT".toList
  else if priority = LOG_ERR then "ERROR".toList
  else if priority = LOG_WARNING then "WARN".toList
  else if priority = LOG_NOTICE then "NOTICE".toList
  else if priority = LOG_INFO then "INFO".toList
  else if priority = LOG_DEBUG then "DEBUG".toList
  else "???".toList

/-- The line syslog writes to the log file, where GetDateTime gives `secs`; `buf` is the message. -/
def syslog (secs : BitVec 32) (log_ident : CStr) (priority : ℤ) (buf : CStr) : Option CStr :=
  (localtime du (some (time secs))).map fun tm =>
    Tm.sprintf0 4 (tm.tm_year + 1900) ++ '-' :: Tm.sprintf0 2 (tm.tm_mon + 1) ++ '-' :: Tm.sprintf0 2 tm.tm_mday ++
      ' ' :: Tm.sprintf0 2 tm.tm_hour ++ ':' :: Tm.sprintf0 2 tm.tm_min ++ ':' :: Tm.sprintf0 2 tm.tm_sec ++
      ' ' :: log_ident ++ '[' :: logLevel priority ++ "]: ".toList ++ buf ++ ['\n']

/-! ### localtime and mktime -/

variable {du : DateUtils} {t u : Calendar.Time}

theorem seconds_macTime (secs : BitVec 32) : (macTime secs).seconds 1904 = secs.toNat :=
  Calendar.Time.seconds_ofSeconds _ _

theorem macTime_seconds (h : 1904 ≤ t.year) (hlt : t.seconds 1904 < 2 ^ 32) :
    macTime (BitVec.ofNat 32 (t.seconds 1904)) = t := by
  rw [macTime, BitVec.toNat_ofNat, Nat.mod_eq_of_lt hlt, Calendar.Time.ofSeconds_seconds h]

/-- 32 bits of seconds do not last through 2040. -/
theorem year_bounds (h : 1904 ≤ t.year) (hlt : t.seconds 1904 < 2 ^ 32) : t.year ≤ 2040 := by
  let last : Calendar.Time :=
    ⟨⟨2041, 0, 0, by decide, by decide⟩, 0, 0, 0, by decide, by decide, by decide⟩
  have hlast : t.seconds 1904 < last.seconds 1904 := hlt.trans (by decide +kernel)
  have hbefore := (Calendar.Time.seconds_lt_iff h (by decide)).mp hlast
  rw [Calendar.Time.Before] at hbefore
  have hyear : last.year = 2041 ∧ last.month = 0 ∧ last.day = 0 ∧ last.hour = 0 ∧ last.minute = 0 ∧
    last.second = 0 := ⟨rfl, rfl, rfl, rfl, rfl, rfl⟩
  omega

theorem macTime_year (secs : BitVec 32) : 1904 ≤ (macTime secs).year ∧ (macTime secs).year ≤ 2040 :=
  ⟨Calendar.Time.base_le_ofSeconds _ _,
    year_bounds (Calendar.Time.base_le_ofSeconds _ _) ((seconds_macTime secs).trans_lt secs.isLt)⟩

theorem toInt_short {n : ℕ} (h : n < 2 ^ 15) : (BitVec.ofNat 16 n).toInt = n := by
  rw [BitVec.toInt_ofNat', Int.bmod_eq_of_le (by omega) (by omega)]

/-- The fields of a time, as localtime gives them. -/
def brokenDown (t : Calendar.Time) : BrokenDown where
  tm_sec := t.second
  tm_min := t.minute
  tm_hour := t.hour
  tm_mday := (t.day : ℤ) + 1
  tm_mon := t.month
  tm_year := (t.year : ℤ) - 1900
  tm_wday := ((t.days 1904 + 5) % 7 : ℕ)
  tm_yday := 0
  tm_isdst := 0

theorem localtime_eq (hdu : du.Lawful) (timep : BitVec 32) :
    localtime du (some timep) = some (brokenDown (macTime (macSeconds timep))) := by
  rw [localtime, hdu.to_date]
  generalize ht : macTime (macSeconds timep) = t
  have hyear : t.year ≤ 2040 := ht ▸ (macTime_year _).2
  have hmonth := t.month_lt
  have hday := t.day_lt.trans_le (monthLength_bounds _ _).2
  have hhour := t.hour_lt
  have hminute := t.minute_lt
  have hsecond := t.second_lt
  simp only [dateTimeRec, macDayOfWeek, brokenDown, Option.some.injEq, BrokenDown.mk.injEq]
  refine ⟨toInt_short (by omega), toInt_short (by omega), toInt_short (by omega), ?_, ?_, ?_, ?_, trivial, trivial⟩
  · rw [toInt_short (by omega)]
    rfl
  · rw [toInt_short (by omega)]
    omega
  · rw [toInt_short (by omega)]
  · rw [toInt_short (by omega)]
    omega

theorem time_macSeconds (timep : BitVec 32) : time (macSeconds timep) = timep := BitVec.add_sub_cancel _ _

theorem macSeconds_time (secs : BitVec 32) : macSeconds (time secs) = secs := BitVec.sub_add_cancel _ _

/-- mktime of the fields of a time; it looks at no others. -/
theorem mktime_eq (hdu : du.Lawful) (h : 1904 ≤ t.year) (hlt : t.seconds 1904 < 2 ^ 32) (tm_wday tm_yday tm_isdst : ℤ) :
    mktime du (some { brokenDown t with tm_wday, tm_yday, tm_isdst }) =
      time (BitVec.ofNat 32 (t.seconds 1904)) := by
  rw [mktime, ← hdu.to_seconds t (BitVec.ofInt 16 (tm_wday + 1)) h hlt]
  simp only [brokenDown, dateTimeRec, sub_add_cancel]
  rfl

/-- mktime takes what localtime gives back to the time, for every time; and localtime gives the fields of every date
    and time of day whose seconds have 32 bits back from what mktime makes of them, with the day of the week. -/
theorem localtime_mktime (hdu : du.Lawful) : (∀ timep, mktime du (localtime du (some timep)) = timep) ∧
    ∀ t : Calendar.Time, 1904 ≤ t.year → t.seconds 1904 < 2 ^ 32 → ∀ tm_wday tm_yday tm_isdst,
      localtime du (some (mktime du (some { brokenDown t with tm_wday, tm_yday, tm_isdst }))) =
        some (brokenDown t) := by
  constructor
  · intro timep
    have hlow := (macTime_year (macSeconds timep)).1
    have hsecs := seconds_macTime (macSeconds timep)
    have hmktime := mktime_eq hdu hlow (hsecs.trans_lt (macSeconds timep).isLt)
      (brokenDown (macTime (macSeconds timep))).tm_wday 0 0
    rw [hsecs, BitVec.ofNat_toNat, BitVec.setWidth_eq, time_macSeconds] at hmktime
    rw [localtime_eq hdu]
    exact hmktime
  · intro t h hlt tm_wday tm_yday tm_isdst
    rw [mktime_eq hdu h hlt, localtime_eq hdu, macSeconds_time, macTime_seconds h hlt]

theorem calendarUtils_lawful : calendarUtils.Lawful where
  to_date _ := rfl
  to_seconds t dayOfWeek h hlt := by
    have hyear := year_bounds h hlt
    have hmonth := t.month_lt
    have hday := t.day_lt.trans_le (monthLength_bounds _ _).2
    have hhour := t.hour_lt
    have hminute := t.minute_lt
    have hsecond := t.second_lt
    have hshort : ∀ {n : ℕ}, n < 2 ^ 16 → (BitVec.ofNat 16 n).toNat = n := fun hn => Nat.mod_eq_of_lt hn
    simp only [calendarUtils, dateTimeRec]
    rw [hshort (n := t.year) (by omega), hshort (n := t.month + 1) (by omega), hshort (n := t.day + 1) (by omega),
      hshort (n := t.hour) (by omega), hshort (n := t.minute) (by omega), hshort (n := t.second) (by omega),
      Nat.add_sub_cancel, Nat.add_sub_cancel]
    rfl

/-- The first second and the last of a 32-bit time_t, and a leap day. -/
theorem localtime_mktime_calendar : mktime calendarUtils (localtime calendarUtils (some 0x80000000)) = 0x80000000 ∧
    localtime calendarUtils (some (mktime calendarUtils (some
      { brokenDown ⟨⟨2000, 1, 28, by decide, by decide⟩, 12, 0, 0, by decide, by decide, by decide⟩ with
        tm_wday := 0, tm_yday := 59, tm_isdst := 1 }))) =
      some (brokenDown ⟨⟨2000, 1, 28, by decide, by decide⟩, 12, 0, 0, by decide, by decide, by decide⟩) :=
  ⟨(localtime_mktime calendarUtils_lawful).1 _,
    (localtime_mktime calendarUtils_lawful).2 _ (by decide) (by decide +kernel) 0 59 1⟩

/-! ### ctime -/

theorem sprintf0_natCast (width n : ℕ) : Tm.sprintf0 width n = padded width n :=
  Tm.sprintf0_of_nonneg (Int.natCast_nonneg n) width

theorem length_two {n : ℕ} (h : n < 100) : (Tm.sprintf0 2 n).length = 2 := by
  rw [sprintf0_natCast]
  exact length_padded (by decide) h

theorem length_name {names : List CStr} (h : ∀ name ∈ names, name.length = 3) {i : ℕ} (hi : i < names.length) :
    ((names.getD i []).take 3).length = 3 := by
  rw [List.getD_eq_getElem?_getD, List.getElem?_eq_getElem hi, Option.getD_some, List.length_take,
    h _ (List.getElem_mem hi), Nat.min_self]

theorem length_mday {n : ℕ} (h : n < 100) : (sprintfSpace 2 n).length = 2 := by
  have hle : (Tm.sprintf0 0 n).length ≤ 2 := by
    rw [sprintf0_natCast]
    exact length_padded_le (by decide) h (by decide)
  rw [sprintfSpace, List.length_leftpad]
  omega

theorem length_year {n : ℕ} (hlow : 1000 ≤ n) (hhigh : n < 10000) : (Tm.sprintf0 0 n).length = 4 := by
  have hle := (Nat.length_toDigits_le_iff (b := 10) (k := 4) (by decide) (by decide)).mpr hhigh
  have hlt := (Nat.length_toDigits_le_iff (b := 10) (k := 3) (by decide) (by decide)).not.mpr (Nat.not_lt.mpr hlow)
  rw [sprintf0_natCast, padded_eq, List.length_append, List.length_replicate]
  omega

theorem length_ctimeText (hlow : 1000 ≤ t.year) (hhigh : t.year < 10000) : (ctimeText (brokenDown t)).length = 25 := by
  have hwday : ((ctimeDays.getD ((t.days 1904 + 5) % 7) []).take 3).length = 3 :=
    length_name (by decide) (Nat.mod_lt _ (by decide))
  have hmon : ((ctimeMonths.getD t.month []).take 3).length = 3 := length_name (by decide) t.month_lt
  have hday := t.day_lt.trans_le (monthLength_bounds _ _).2
  have hmday : (sprintfSpace 2 ((t.day : ℤ) + 1)).length = 2 := length_mday (n := t.day + 1) (by omega)
  have hyear : (Tm.sprintf0 0 ((t.year : ℤ) - 1900 + 1900)).length = 4 := by
    rw [Int.sub_add_cancel]
    exact length_year hlow hhigh
  have hhour := length_two (n := t.hour) (t.hour_lt.trans (by decide))
  have hmin := length_two (n := t.minute) (t.minute_lt.trans (by decide))
  have hsec := length_two (n := t.second) (t.second_lt.trans (by decide))
  simp only [ctimeText, brokenDown, Int.toNat_natCast, List.length_append, List.length_cons, List.length_nil, hwday,
    hmon, hmday, hyear, hhour, hmin, hsec]

/-- Whatever the time, ctime makes a text that just fits its buffer, with the NUL. -/
theorem ctime_fits (hdu : du.Lawful) (timep : BitVec 32) :
    ∃ text, ctime du (some timep) = some text ∧ text.length + 1 = CTIME_SIZE := by
  obtain ⟨hlow, hhigh⟩ := macTime_year (macSeconds timep)
  refine ⟨_, congrArg (Option.map ctimeText) (localtime_eq hdu timep), ?_⟩
  rw [length_ctimeText (by omega) (by omega)]
  rfl

theorem ctime_fits_calendar : ∃ text, ctime calendarUtils (some 0x80000000) = some text ∧
    text.length + 1 = CTIME_SIZE := ctime_fits calendarUtils_lawful _

/-! ### syslog -/

/-- The fields of a time as syslog writes them, each of a width of its own. -/
def timestamp (t : Calendar.Time) : CStr :=
  padded 4 t.year ++ '-' :: padded 2 (t.month + 1) ++ '-' :: padded 2 (t.day + 1) ++ ' ' :: padded 2 t.hour ++
    ':' :: padded 2 t.minute ++ ':' :: padded 2 t.second

/-- Texts that begin with numerals of one width are in the order of the numbers or, where these are the same, of what
    is behind them. -/
theorem numeral_lt_iff {width m n : ℕ} (hw : 0 < width) (hm : m < 10 ^ width) (hn : n < 10 ^ width) (x y : CStr) :
    padded width m ++ x < padded width n ++ y ↔ m < n ∨ m = n ∧ x < y := by
  have hsame : padded width m = padded width n ↔ m = n := by
    refine ⟨fun h => ?_, congrArg _⟩
    have hlt := (padded_lt_iff hw hm hn).not.mp (h ▸ List.lt_irrefl _)
    have hgt := (padded_lt_iff hw hn hm).not.mp (h ▸ List.lt_irrefl _)
    omega
  rw [append_lt_append_iff ((length_padded hw hm).trans (length_padded hw hn).symm), padded_lt_iff hw hm hn, hsame]

theorem cons_lt_cons_self (c : Char) (x y : CStr) : c :: x < c :: y ↔ x < y := by
  rw [List.cons_lt_cons_iff]
  exact ⟨fun h => h.elim (fun hc => absurd hc (Char.lt_irrefl c)) And.right, fun h => .inr ⟨rfl, h⟩⟩

theorem timestamp_lt (ht : t.year < 10000) (hu : u.year < 10000) (h : Calendar.Time.Before t u) (x y : CStr) :
    timestamp t ++ x < timestamp u ++ y := by
  have htwo : ∀ {n : ℕ}, n < 60 → n < 10 ^ 2 := fun hn => hn.trans (by decide)
  have htday := t.day_lt.trans_le (monthLength_bounds _ _).2
  have huday := u.day_lt.trans_le (monthLength_bounds _ _).2
  have htmonth := t.month_lt
  have humonth := u.month_lt
  simp only [timestamp, List.append_assoc, List.cons_append]
  rw [numeral_lt_iff (by decide) ht hu, cons_lt_cons_self,
    numeral_lt_iff (by decide) (htwo (by omega)) (htwo (by omega)), cons_lt_cons_self,
    numeral_lt_iff (by decide) (htwo (by omega)) (htwo (by omega)), cons_lt_cons_self,
    numeral_lt_iff (by decide) (htwo (t.hour_lt.trans (by decide))) (htwo (u.hour_lt.trans (by decide))),
    cons_lt_cons_self, numeral_lt_iff (by decide) (htwo t.minute_lt) (htwo u.minute_lt), cons_lt_cons_self,
    numeral_lt_iff (by decide) (htwo t.second_lt) (htwo u.second_lt), Nat.add_lt_add_iff_right,
    Nat.add_right_cancel_iff, Nat.add_lt_add_iff_right, Nat.add_right_cancel_iff]
  rw [Calendar.Time.Before] at h
  tauto

theorem syslog_eq (hdu : du.Lawful) (secs : BitVec 32) (log_ident : CStr) (priority : ℤ) (buf : CStr) :
    syslog du secs log_ident priority buf = some (timestamp (macTime secs) ++
      (' ' :: log_ident ++ '[' :: logLevel priority ++ "]: ".toList ++ buf ++ ['\n'])) := by
  have hmday (d : ℕ) : Tm.sprintf0 2 ((d : ℤ) + 1) = padded 2 (d + 1) := sprintf0_natCast 2 (d + 1)
  rw [syslog, localtime_eq hdu, macSeconds_time, Option.map_some]
  simp only [brokenDown, timestamp, Int.sub_add_cancel, sprintf0_natCast, hmday, List.append_assoc, List.cons_append]

/-- Whatever they say, two lines that syslog writes at different seconds are in lexicographic order as they are in
    time. -/
theorem syslog_sorted (hdu : du.Lawful) {secs secs' : BitVec 32} (h : secs < secs') (log_ident log_ident' : CStr)
    (priority priority' : ℤ) (buf buf' : CStr) : ∃ line line', syslog du secs log_ident priority buf = some line ∧
      syslog du secs' log_ident' priority' buf' = some line' ∧ line < line' := by
  obtain ⟨hlow, hhigh⟩ := macTime_year secs
  obtain ⟨hlow', hhigh'⟩ := macTime_year secs'
  have hbefore : Calendar.Time.Before (macTime secs) (macTime secs') := by
    rw [← Calendar.Time.seconds_lt_iff hlow hlow', seconds_macTime, seconds_macTime]
    exact h
  exact ⟨_, _, syslog_eq hdu .., syslog_eq hdu .., timestamp_lt (by omega) (by omega) hbefore _ _⟩

theorem syslog_sorted_calendar : ∃ line line',
    syslog calendarUtils 0 "dropbear".toList LOG_INFO "starting".toList = some line ∧
      syslog calendarUtils 0xFFFFFFFF "dropbear".toList LOG_ERR "".toList = some line' ∧ line < line' :=
  syslog_sorted calendarUtils_lawful (by decide) ..

end Posix9
