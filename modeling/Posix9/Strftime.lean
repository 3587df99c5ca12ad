import Mathlib.Algebra.Group.Int.Defs
import Mathlib.Algebra.Group.Nat.Defs
import Posix9.Bounds
import Posix9.Environment
import Posix9.Lib.Decimal
import Posix9.Lib.Memory

/-! posix9_misc.c: strftime. It stops where the buffer is full and returns what it has written; what is behind a
    `%` is taken for a conversion whatever it is, the NUL too. -/

namespace Posix9

open Decimal Memory

/-- The fields of struct tm that strftime reads, in their ranges. -/
structure Tm where
  tm_sec : ℤ
  tm_min : ℤ
  tm_hour : ℤ
  tm_mday : ℤ
  tm_mon : ℤ
  tm_year : ℤ
  tm_wday : ℤ
  sec : 0 ≤ tm_sec ∧ tm_sec ≤ 60
  min : 0 ≤ tm_min ∧ tm_min ≤ 59
  hour : 0 ≤ tm_hour ∧ tm_hour ≤ 23
  mday : 1 ≤ tm_mday ∧ tm_mday ≤ 31
  mon : 0 ≤ tm_mon ∧ tm_mon ≤ 11
  year : 0 ≤ tm_year + 1900 ∧ tm_year + 1900 < 2 ^ 31
  wday : 0 ≤ tm_wday ∧ tm_wday ≤ 6

namespace Tm

def days : List CStr := ["Sunday".toList, "Monday".toList, "Tuesday".toList, "Wednesday".toList, "Thursday".toList,
  "Friday".toList, "Saturday".toList]

def months : List CStr := ["January".toList, "February".toList, "March".toList, "April".toList, "May".toList,
  "June".toList, "July".toList, "August".toList, "September".toList, "October".toList, "November".toList,
  "December".toList]

/-- `sprintf(temp, "%0<width>d", n)`. -/
def sprintf0 (width : ℕ) (n : ℤ) : CStr :=
  if n < 0 then '-' :: padded (width - 1) n.natAbs else padded width n.natAbs

/-- The string in `temp` behind the switch on `*p`. -/
def temp (tm : Tm) : Char → CStr
  | 'Y' => sprintf0 4 (tm.tm_year + 1900)
  | 'y' => sprintf0 2 (tm.tm_year.tmod 100)
  | 'm' => sprintf0 2 (tm.tm_mon + 1)
  | 'd' => sprintf0 2 tm.tm_mday
  | 'H' => sprintf0 2 tm.tm_hour
  | 'M' => sprintf0 2 tm.tm_min
  | 'S' => sprintf0 2 tm.tm_sec
  | 'A' => days.getD tm.tm_wday.toNat []
  | 'a' => (days.getD tm.tm_wday.toNat []).take 3
  | 'B' => months.getD tm.tm_mon.toNat []
  | 'b' => (months.getD tm.tm_mon.toNat []).take 3
  | '%' => ['%']
  -- `temp[1] = *p` may be the NUL
  | c => ['%', c].takeWhile (· ≠ NUL)

/-- The loop: the places of `format` it reads, and what goes through `*out++`. `room` is `end - out`, and 0 where
    `end` is below `s`. -/
def strftimeLoop (tm : Tm) (format : ℕ → Char) : (rounds p room : ℕ) → List ℕ × CStr
  | 0, _, _ => ([], [])
  | rounds + 1, p, room =>
    if format p = NUL ∨ room = 0 then ([p], [])
    else if format p ≠ '%' then
      let (reads, out) := strftimeLoop tm format rounds (p + 1) (room - 1)
      (p :: reads, format p :: out)
    else
      let t := (tm.temp (format (p + 1))).take room
      let (reads, out) := strftimeLoop tm format rounds (p + 2) (room - t.length)
      (p :: (p + 1) :: reads, t ++ out)

structure Strftime where
  reads : List ℕ
  accesses : List Access
  returned : ℕ

/-- `format` is the memory from the first character of the format on. A round writes a character, so that there are
    at most `max` rounds. -/
def strftime (max : ℕ) (format : ℕ → Char) (tm : Tm) : Strftime :=
  let (reads, out) := tm.strftimeLoop format (max + 1) 0 (max - 1)
  ⟨reads, storeAll 0 out ++ [.store out.length NUL], out.length⟩

/-! ### The law -/

/-- A format is made of characters that stand for themselves, conversions, and perhaps a `%` at its end. -/
inductive Piece where
  | plain (c : Char)
  | conversion (c : Char)
  | percent
  deriving DecidableEq

def pieces : CStr → List Piece
  | [] => []
  | [c] => [if c = '%' then .percent else .plain c]
  | c :: d :: p => if c = '%' then .conversion d :: pieces p else .plain c :: pieces (d :: p)

/-- What a conversion stands for; the year has two digits as its last. -/
def text (tm : Tm) : Char → CStr
  | 'Y' => padded 4 (tm.tm_year + 1900).toNat
  | 'y' => padded 2 ((tm.tm_year + 1900).toNat % 100)
  | 'm' => padded 2 (tm.tm_mon + 1).toNat
  | 'd' => padded 2 tm.tm_mday.toNat
  | 'H' => padded 2 tm.tm_hour.toNat
  | 'M' => padded 2 tm.tm_min.toNat
  | 'S' => padded 2 tm.tm_sec.toNat
  | 'A' => days.getD tm.tm_wday.toNat []
  | 'a' => (days.getD tm.tm_wday.toNat []).take 3
  | 'B' => months.getD tm.tm_mon.toNat []
  | 'b' => (months.getD tm.tm_mon.toNat []).take 3
  | '%' => ['%']
  | c => ['%', c]

def Piece.text (tm : Tm) : Piece → CStr
  | .plain c => [c]
  | .conversion c => tm.text c
  | .percent => ['%']

/-- The complete expansion of a format. -/
def expansion (tm : Tm) (format : CStr) : CStr := (pieces format).flatMap (Piece.text tm)

/-- The memory a format stands in, with anything behind its NUL. -/
def inMemory (format : CString) (behind : ℕ → Char) : ℕ → Char := write behind 0 (format.chars ++ [NUL])

/-- strftime reads up to the NUL and writes inside the buffer; an expansion that fits is written and its length
    returned, and another has it return 0. -/
structure Expands (tm : Tm) (max : ℕ) (format : CString) (o : Strftime) : Prop where
  reads : ∀ i ∈ o.reads, i ≤ format.chars.length
  inside : ∀ (i : ℤ) (c : Char), .store i c ∈ o.accesses → 0 ≤ i ∧ i < max
  fits : (tm.expansion format.chars).length < max →
    o.returned = (tm.expansion format.chars).length ∧ ∀ mem, ReadsAs (memAfter mem o.accesses) (tm.expansion format.chars)
  too_long : max ≤ (tm.expansion format.chars).length → o.returned = 0

/-- The expansion fits with its NUL, no `%` ends the format, and a year of two digits is asked for of a year from
    1900 on, or of one that begins a century. -/
structure Serves (tm : Tm) (max : ℕ) (format : CStr) : Prop where
  fits : (tm.expansion format).length < max
  paired : .percent ∉ pieces format
  century : .conversion 'y' ∈ pieces format → 0 ≤ tm.tm_year ∨ 100 ∣ tm.tm_year

/-! ### The pieces of a format -/

variable {tm : Tm} {c d : Char} {q : CStr} {format : CString} {max room rounds p : ℕ}

theorem pieces_plain (h : c ≠ '%') (q : CStr) : pieces (c :: q) = .plain c :: pieces q := by
  cases q with
  | nil => exact congrArg (· :: []) (if_neg h)
  | cons d q => rw [pieces, if_neg h]

theorem pieces_conversion (d : Char) (q : CStr) : pieces ('%' :: d :: q) = .conversion d :: pieces q := if_pos rfl

theorem mem_of_mem_pieces {piece : Piece} (h : piece ∈ pieces q) (hc : piece = .conversion c) : c ∈ q := by
  subst hc
  induction q using pieces.induct with
  | case1 => cases h
  | case2 d =>
    rw [pieces, List.mem_singleton] at h
    split at h <;> cases h
  | case3 d q ih =>
    rw [pieces_conversion, List.mem_cons] at h
    rcases h with h | h
    · cases h
      simp
    · exact List.mem_cons_of_mem _ (List.mem_cons_of_mem _ (ih h))
  | case4 d d' q hne ih =>
    rw [pieces_plain hne, List.mem_cons] at h
    rcases h with h | h
    · cases h
    · exact List.mem_cons_of_mem _ (ih h)

/-! ### What the switch leaves in temp -/

theorem sprintf0_of_nonneg {n : ℤ} (h : 0 ≤ n) (width : ℕ) : sprintf0 width n = padded width n.toNat := by
  rw [sprintf0, if_neg (Int.not_lt.mpr h)]
  congr 1
  omega

theorem length_sprintf0_le {width : ℕ} {n : ℤ} (hn : n.natAbs < 2 ^ 31) (hwidth : width ≤ 10) :
    (sprintf0 width n).length ≤ 11 := by
  have hpadded : ∀ w ≤ 10, (padded w n.natAbs).length ≤ 10 := fun w hw => length_padded_le (by decide) (by omega) hw
  rw [sprintf0]
  split
  · exact Nat.succ_le_succ (hpadded _ (by omega))
  · exact Nat.le_succ_of_le (hpadded _ hwidth)

theorem sprintf0_ne_nil (width : ℕ) (n : ℤ) : sprintf0 width n ≠ [] := by
  rw [sprintf0]
  split
  · exact List.cons_ne_nil _ _
  · exact padded_ne_nil width _

theorem name_bounds {names : List CStr} (h : ∀ name ∈ names, 3 ≤ name.length ∧ name.length ≤ 9) {i : ℕ}
    (hi : i < names.length) : 3 ≤ (names.getD i []).length ∧ (names.getD i []).length ≤ 9 := by
  rw [List.getD_eq_getElem?_getD, List.getElem?_eq_getElem hi, Option.getD_some]
  exact h _ (List.getElem_mem hi)

theorem day_bounds (tm : Tm) : 3 ≤ (days.getD tm.tm_wday.toNat []).length ∧
    (days.getD tm.tm_wday.toNat []).length ≤ 9 := by
  have hwday := tm.wday
  exact name_bounds (by decide) (show tm.tm_wday.toNat < 7 by omega)

theorem month_bounds (tm : Tm) : 3 ≤ (months.getD tm.tm_mon.toNat []).length ∧
    (months.getD tm.tm_mon.toNat []).length ≤ 9 := by
  have hmon := tm.mon
  exact name_bounds (by decide) (show tm.tm_mon.toNat < 12 by omega)

/-- Some character is in temp, and no more than temp has room for. -/
theorem temp_bounds (tm : Tm) (c : Char) : 0 < (tm.temp c).length ∧ (tm.temp c).length < 32 := by
  have hnumber : ∀ {width : ℕ} {n : ℤ}, n.natAbs < 2 ^ 31 → width ≤ 10 →
      0 < (sprintf0 width n).length ∧ (sprintf0 width n).length < 32 := by
    intro width n hn hwidth
    have hle := length_sprintf0_le hn hwidth
    exact ⟨List.length_pos_of_ne_nil (sprintf0_ne_nil width n), by omega⟩
  have hday := day_bounds tm
  have hmonth := month_bounds tm
  have hyear := tm.year
  rw [temp.eq_def]
  split
  case h_1 => exact hnumber (by omega) (by decide)
  case h_2 =>
    refine hnumber ?_ (by decide)
    rw [Int.natAbs_tmod]
    exact Nat.lt_of_lt_of_le (Nat.mod_lt _ (by decide)) (by decide)
  case h_3 => exact hnumber (by have := tm.mon; omega) (by decide)
  case h_4 => exact hnumber (by have := tm.mday; omega) (by decide)
  case h_5 => exact hnumber (by have := tm.hour; omega) (by decide)
  case h_6 => exact hnumber (by have := tm.min; omega) (by decide)
  case h_7 => exact hnumber (by have := tm.sec; omega) (by decide)
  case h_8 => omega
  case h_9 =>
    rw [List.length_take]
    omega
  case h_10 => omega
  case h_11 =>
    rw [List.length_take]
    omega
  case h_12 => decide
  case h_13 =>
    rw [List.takeWhile_cons_of_pos (by decide)]
    have hle := (List.takeWhile_prefix (l := [c]) (· ≠ NUL)).length_le
    rw [List.length_cons]
    rw [List.length_singleton] at hle
    omega

/-! ### The loop -/

/-- What goes out for a piece. -/
def Piece.temp (tm : Tm) : Piece → CStr
  | .plain c => [c]
  | .conversion c => tm.temp c
  | .percent => tm.temp NUL

theorem Piece.temp_pos (tm : Tm) (piece : Piece) : 0 < (piece.temp tm).length := by
  cases piece with
  | plain c => exact Nat.one_pos
  | conversion c => exact (temp_bounds tm c).1
  | percent => exact (temp_bounds tm NUL).1

/-- What goes out for a format if the buffer is large enough. -/
def output (tm : Tm) (q : CStr) : CStr := (pieces q).flatMap (Piece.temp tm)

theorem output_cons {piece : Piece} {q' : CStr} (h : pieces q = piece :: pieces q') :
    tm.output q = piece.temp tm ++ tm.output q' := by
  rw [output, h, List.flatMap_cons]
  rfl

theorem output_pos (tm : Tm) (h : pieces q ≠ []) : 0 < (tm.output q).length := by
  obtain ⟨piece, ps, hps⟩ := List.exists_cons_of_ne_nil h
  have hpos := Piece.temp_pos tm piece
  rw [output, hps, List.flatMap_cons, List.length_append]
  omega

variable {cells : ℕ → Char}

theorem loop_plain (hcell : cells p = c) (hnul : c ≠ NUL) (hne : c ≠ '%') (hroom : room ≠ 0) :
    tm.strftimeLoop cells (rounds + 1) p room = (p :: (tm.strftimeLoop cells rounds (p + 1) (room - 1)).1,
      c :: (tm.strftimeLoop cells rounds (p + 1) (room - 1)).2) := by
  rw [strftimeLoop, hcell, if_neg (not_or.mpr ⟨hnul, hroom⟩), if_pos hne]

theorem loop_percent (hcell : cells p = '%') (hroom : room ≠ 0) :
    tm.strftimeLoop cells (rounds + 1) p room =
      (p :: (p + 1) :: (tm.strftimeLoop cells rounds (p + 2) (room - (tm.temp (cells (p + 1))).length)).1,
        (tm.temp (cells (p + 1))).take room ++
          (tm.strftimeLoop cells rounds (p + 2) (room - (tm.temp (cells (p + 1))).length)).2) := by
  have hcut : room - ((tm.temp (cells (p + 1))).take room).length = room - (tm.temp (cells (p + 1))).length := by
    rw [List.length_take]
    omega
  have hnul : '%' ≠ NUL := by decide
  rw [strftimeLoop, hcell, if_neg (not_or.mpr ⟨hnul, hroom⟩), if_neg (not_not.mpr rfl)]
  dsimp only
  rw [hcut]

/-- Before its end a format has no NUL. -/
theorem eq_nil_of_cell (hat : HoldsAt cells p (q ++ [NUL])) (hnul : NUL ∉ q) (hcell : cells p = NUL) : q = [] := by
  rcases q with _ | ⟨c, q⟩
  · rfl
  · have hc := (holdsAt_cons.mp hat).1
    exact absurd (hcell.symm.trans hc ▸ List.mem_cons_self) hnul

theorem mem_reads (hrounds : 0 < rounds) : p ∈ (tm.strftimeLoop cells rounds p room).1 := by
  obtain ⟨rounds, rfl⟩ := Nat.exists_eq_succ_of_ne_zero (Nat.ne_of_gt hrounds)
  rw [Nat.succ_eq_add_one, strftimeLoop]
  split
  · exact List.mem_singleton_self p
  · dsimp only
    split <;> exact List.mem_cons_self

/-- A round with room takes the first piece of the format: what follows it is read from where it ends, with the room
    that what went out for it has left. -/
theorem loop_step (tm : Tm) (hat : HoldsAt cells p (q ++ [NUL])) (hnul : NUL ∉ q) (hq : q ≠ []) (hone : q ≠ ['%'])
    (hroom : room ≠ 0) :
    ∃ piece n q' reads, piece ≠ .percent ∧ pieces q = piece :: pieces q' ∧ q.length = n + q'.length ∧
      (∀ i ∈ reads, i < p + n) ∧ HoldsAt cells (p + n) (q' ++ [NUL]) ∧ NUL ∉ q' ∧
      ∀ rounds, tm.strftimeLoop cells (rounds + 1) p room =
        (reads ++ (tm.strftimeLoop cells rounds (p + n) (room - (piece.temp tm).length)).1,
          (piece.temp tm).take room ++ (tm.strftimeLoop cells rounds (p + n) (room - (piece.temp tm).length)).2) := by
  obtain ⟨c, q, rfl⟩ := List.exists_cons_of_ne_nil hq
  obtain ⟨hcell, hrest⟩ := holdsAt_cons.mp hat
  obtain ⟨hc, hnul'⟩ := not_or.mp (fun h => hnul (List.mem_cons.mpr h))
  rcases eq_or_ne c '%' with rfl | hne
  · obtain ⟨d, q, rfl⟩ := List.exists_cons_of_ne_nil fun hnil => hone (congrArg _ hnil)
    obtain ⟨hcell', hrest'⟩ := holdsAt_cons.mp hrest
    refine ⟨.conversion d, 2, q, [p, p + 1], by simp, pieces_conversion d q, Nat.add_comm _ 2, fun i hi => ?_, hrest',
      fun h => hnul' (List.mem_cons_of_mem d h), fun rounds => ?_⟩
    · rcases List.mem_pair.mp hi with rfl | rfl <;> omega
    · rw [loop_percent hcell hroom, hcell']
      rfl
  · refine ⟨.plain c, 1, q, [p], by simp, pieces_plain hne q, Nat.add_comm _ 1, fun i hi => ?_, hrest, hnul',
      fun rounds => ?_⟩
    · rw [List.mem_singleton.mp hi]
      exact Nat.lt_succ_self p
    · rw [loop_plain hcell (Ne.symm hc) hne hroom, show Piece.temp tm (.plain c) = [c] from rfl,
        List.take_of_length_le (Nat.one_le_iff_ne_zero.mpr hroom)]
      rfl

/-- Up to a `%` at the end, the loop writes what is to go out as far as there is room, and reads up to the NUL. -/
theorem loop_written (tm : Tm) (hat : HoldsAt cells p (q ++ [NUL])) (hnul : NUL ∉ q) (hrounds : room < rounds)
    (hpaired : .percent ∈ pieces q → room < (tm.output q).length) :
    (tm.strftimeLoop cells rounds p room).2 = (tm.output q).take room ∧
      ∀ i ∈ (tm.strftimeLoop cells rounds p room).1, i ≤ p + q.length := by
  induction rounds generalizing p q room with
  | zero => cases hrounds
  | succ rounds ih =>
    by_cases hend : cells p = NUL ∨ room = 0
    · rw [strftimeLoop, if_pos hend]
      refine ⟨?_, fun i hi => ?_⟩
      · rcases hend with hcell | rfl
        · rw [eq_nil_of_cell hat hnul hcell]
          exact List.take_nil.symm
        · exact List.take_zero.symm
      · rw [List.mem_singleton.mp hi]
        exact Nat.le_add_right p _
    obtain ⟨hcell, hroom⟩ := not_or.mp hend
    have hq : q ≠ [] := by
      rintro rfl
      exact hcell (holdsAt_singleton.mp hat)
    have hone : q ≠ ['%'] := by
      rintro rfl
      -- the `%` at the end would have to be reached without room
      exact hroom (Nat.lt_one_iff.mp (hpaired (List.mem_singleton_self _)))
    obtain ⟨piece, n, q', reads, -, hpieces, hlen, hreads, hat', hnul', hloop⟩ := loop_step tm hat hnul hq hone hroom
    have htemp := piece.temp_pos tm
    have hrounds' : room - (piece.temp tm).length < rounds := by omega
    rw [output_cons hpieces, hpieces, List.length_append] at hpaired
    obtain ⟨hwritten, hbehind⟩ := ih hat' hnul' hrounds' fun hmem => by
      have hlt := hpaired (List.mem_cons_of_mem _ hmem)
      have hpos := output_pos tm (List.ne_nil_of_mem hmem)
      omega
    rw [hloop, output_cons hpieces, List.take_append, hwritten]
    refine ⟨rfl, fun i hi => ?_⟩
    rcases List.mem_append.mp hi with hi | hi
    · have hlt := hreads i hi
      omega
    · have hle := hbehind i hi
      omega

/-- A `%` at the end that is reached has the loop go on behind the NUL. -/
theorem loop_reads_past (tm : Tm) (hat : HoldsAt cells p (q ++ [NUL])) (hnul : NUL ∉ q) (hrounds : room < rounds)
    (hpercent : .percent ∈ pieces q) (hfits : (tm.output q).length ≤ room) :
    p + q.length + 1 ∈ (tm.strftimeLoop cells rounds p room).1 := by
  induction rounds generalizing p q room with
  | zero => cases hrounds
  | succ rounds ih =>
    have hpos := output_pos tm (List.ne_nil_of_mem hpercent)
    have hroom : room ≠ 0 := by omega
    have hq : q ≠ [] := by
      rintro rfl
      cases hpercent
    by_cases hone : q = ['%']
    · subst hone
      rw [loop_percent (holdsAt_cons.mp hat).1 hroom]
      exact List.mem_cons_of_mem _ (List.mem_cons_of_mem _ (mem_reads (by omega)))
    obtain ⟨piece, n, q', reads, hpiece, hpieces, hlen, -, hat', hnul', hloop⟩ := loop_step tm hat hnul hq hone hroom
    have htemp := piece.temp_pos tm
    have hrounds' : room - (piece.temp tm).length < rounds := by omega
    rw [output_cons hpieces, List.length_append] at hfits
    rw [hpieces, List.mem_cons] at hpercent
    have hpast := ih hat' hnul' hrounds' (hpercent.resolve_left (Ne.symm hpiece)) (by omega)
    rw [hloop, hlen]
    exact List.mem_append_right _ (by rwa [← Nat.add_assoc])

/-! ### What goes out and the expansion -/

/-- From 1900 on, and where a century begins, `%` gives the two last digits of the year. -/
theorem tmod_year (h : 0 ≤ tm.tm_year ∨ 100 ∣ tm.tm_year) :
    tm.tm_year.tmod 100 = ((tm.tm_year + 1900).toNat % 100 : ℕ) := by
  have hyear := tm.year
  rcases h with h | h
  · rw [Int.tmod_eq_emod_of_nonneg h]
    omega
  · rw [Int.tmod_eq_zero_of_dvd h]
    omega

theorem temp_eq_text (hc : c ≠ NUL) (h : c = 'y' → 0 ≤ tm.tm_year ∨ 100 ∣ tm.tm_year) : tm.temp c = tm.text c := by
  rw [temp.eq_def, text.eq_def]
  split
  case h_1 => exact sprintf0_of_nonneg tm.year.1 4
  case h_2 =>
    have hmod := tmod_year (h rfl)
    rw [sprintf0_of_nonneg (by omega), hmod]
    rfl
  case h_3 => exact sprintf0_of_nonneg (by have := tm.mon; omega) 2
  case h_4 => exact sprintf0_of_nonneg (by have := tm.mday; omega) 2
  case h_5 => exact sprintf0_of_nonneg tm.hour.1 2
  case h_6 => exact sprintf0_of_nonneg tm.min.1 2
  case h_7 => exact sprintf0_of_nonneg tm.sec.1 2
  case h_13 =>
    have hpercent : '%' ≠ NUL := by decide
    simp [hc, hpercent]
  all_goals rfl

/-- Before 1900 the remainder is negative. -/
theorem temp_minus (h : ¬ (0 ≤ tm.tm_year ∨ 100 ∣ tm.tm_year)) : ∃ t, tm.temp 'y' = '-' :: t := by
  obtain ⟨hneg, hdvd⟩ := not_or.mp h
  have hmod : tm.tm_year.tmod 100 < 0 := by
    have hopposite := Int.neg_tmod (-tm.tm_year) 100
    have hpos : (-tm.tm_year).tmod 100 = -tm.tm_year % 100 := Int.tmod_eq_emod_of_nonneg (by omega)
    rw [Int.neg_neg] at hopposite
    omega
  exact ⟨_, if_pos hmod⟩

theorem text_year (tm : Tm) : ∃ d t, tm.text 'y' = d :: t ∧ d ≠ '-' := by
  obtain ⟨d, t, hdt⟩ := List.exists_cons_of_ne_nil (padded_ne_nil 2 ((tm.tm_year + 1900).toNat % 100))
  refine ⟨d, t, hdt, ?_⟩
  rintro rfl
  have hdigit := isDigit_of_mem_padded (hdt ▸ List.mem_cons_self)
  exact absurd hdigit (by decide)

theorem output_eq_expansion (hnul : NUL ∉ q) (h : .conversion 'y' ∈ pieces q → 0 ≤ tm.tm_year ∨ 100 ∣ tm.tm_year) :
    tm.output q = tm.expansion q := by
  refine List.flatMap_congr fun piece hpiece => ?_
  cases piece with
  | plain c => rfl
  | percent => rfl
  | conversion c =>
    refine temp_eq_text (fun hc => hnul ?_) fun hc => h (hc ▸ hpiece)
    exact hc ▸ mem_of_mem_pieces hpiece rfl

/-- An expansion that comes out whole has no `-` for the first digit of a year. -/
theorem century_of_take {ps : List Piece} (hnul : .conversion NUL ∉ ps) (hroom : (ps.flatMap (Piece.text tm)).length ≤ room)
    (h : (ps.flatMap (Piece.temp tm)).take room = ps.flatMap (Piece.text tm)) (hmem : .conversion 'y' ∈ ps) :
    0 ≤ tm.tm_year ∨ 100 ∣ tm.tm_year := by
  by_contra hbad
  induction ps generalizing room with
  | nil => cases hmem
  | cons piece ps ih =>
    rw [List.flatMap_cons, List.flatMap_cons] at h
    rw [List.flatMap_cons, List.length_append] at hroom
    obtain ⟨hnul₁, hnul₂⟩ := not_or.mp (fun hc => hnul (List.mem_cons.mpr hc))
    by_cases hyear : piece = .conversion 'y'
    · subst hyear
      obtain ⟨t, ht⟩ := temp_minus hbad
      obtain ⟨d, u, hu, hd⟩ := text_year tm
      change (tm.temp 'y' ++ _).take room = tm.text 'y' ++ _ at h
      change (tm.text 'y').length + _ ≤ room at hroom
      rw [hu, List.length_cons] at hroom
      rw [ht, hu, List.cons_append, List.cons_append, List.take_cons (by omega)] at h
      exact hd (List.cons.inj h).1.symm
    · have hsame : piece.temp tm = piece.text tm := by
        cases piece with
        | plain c => rfl
        | percent => rfl
        | conversion c =>
          exact temp_eq_text (fun hc => hnul₁ (hc ▸ rfl)) fun hc => absurd (congrArg Piece.conversion hc) hyear
      rw [hsame, List.take_append, List.take_of_length_le (by omega), List.append_cancel_left_eq] at h
      exact ih hnul₂ (by omega) h ((List.mem_cons.mp hmem).resolve_left fun heq => hyear heq.symm)

/-! ### Just the formats that are served -/

theorem inMemory_holdsAt (format : CString) (behind : ℕ → Char) :
    HoldsAt (inMemory format behind) 0 (format.chars ++ [NUL]) := holdsAt_write _ _ _

/-- What the accesses leave is what has gone out. -/
theorem strftime_reads (max : ℕ) (cells : ℕ → Char) (tm : Tm) (mem : ℤ → Char) :
    ReadsAs (memAfter mem (strftime max cells tm).accesses) (tm.strftimeLoop cells (max + 1) 0 (max - 1)).2 :=
  (puts_storeAll _).reads mem

theorem readsAs_unique {mem : ℤ → Char} {s t : CStr} (hs : ReadsAs mem s) (ht : ReadsAs mem t)
    (hlen : s.length = t.length) : s = t :=
  List.ext_getElem hlen fun k hk hk' => (hs.chars k hk).symm.trans (ht.chars k hk')

theorem store_nul_mem (max : ℕ) (cells : ℕ → Char) (tm : Tm) :
    .store (strftime max cells tm).returned NUL ∈ (strftime max cells tm).accesses :=
  List.mem_append_right _ (List.mem_singleton_self _)

theorem store_le {i : ℤ} {cells : ℕ → Char} (h : .store i c ∈ (strftime max cells tm).accesses) :
    0 ≤ i ∧ i ≤ (strftime max cells tm).returned := by
  rcases List.mem_append.mp h with h | h
  · exact (puts_storeAll _).stores i c h
  · obtain ⟨rfl, -⟩ := Access.store.inj (List.mem_singleton.mp h)
    exact ⟨Int.natCast_nonneg _, Int.le_refl _⟩

/-- Where the expansion fits and no `%` ends the format, all of what goes out does go out. -/
theorem expands_of_serves (h : Serves tm max format.chars) (behind : ℕ → Char) :
    Expands tm max format (strftime max (inMemory format behind) tm) := by
  have hsame := output_eq_expansion format.no_nul h.century
  have hfits := h.fits
  have hrounds : max - 1 < max + 1 := by omega
  obtain ⟨hwritten, hreads⟩ := loop_written tm (inMemory_holdsAt format behind) format.no_nul hrounds
    fun hmem => absurd hmem h.paired
  rw [hsame, List.take_of_length_le (by omega)] at hwritten
  have hreturned : (strftime max (inMemory format behind) tm).returned = (tm.expansion format.chars).length :=
    congrArg List.length hwritten
  refine ⟨fun i hi => ?_, fun i c hi => ?_, fun _ => ⟨hreturned, fun mem => ?_⟩, fun hlong => ?_⟩
  · rw [← Nat.zero_add format.chars.length]
    exact hreads i hi
  · have hle := store_le hi
    omega
  · rw [← hwritten]
    exact strftime_reads max _ tm mem
  · omega

/-- A buffer of one byte gets the NUL. -/
theorem expands_one (tm : Tm) (format : CString) (behind : ℕ → Char) :
    Expands tm 1 format (strftime 1 (inMemory format behind) tm) := by
  have hloop : tm.strftimeLoop (inMemory format behind) (1 + 1) 0 (1 - 1) = ([0], []) := if_pos (.inr rfl)
  have hreturned : (strftime 1 (inMemory format behind) tm).returned = 0 := by
    rw [strftime, hloop]
    rfl
  refine ⟨fun i hi => ?_, fun i c hi => ?_, fun hfits => ?_, fun _ => hreturned⟩
  · rw [strftime, hloop] at hi
    rw [List.mem_singleton.mp hi]
    exact Nat.zero_le _
  · have hle := store_le hi
    omega
  · have hnil := List.eq_nil_of_length_eq_zero (Nat.lt_one_iff.mp hfits)
    rw [hnil]
    refine ⟨hreturned, fun mem => ?_⟩
    have hreads := strftime_reads 1 (inMemory format behind) tm mem
    rwa [hloop] at hreads

/-- With room for a character some character of a format goes out. -/
theorem returned_pos (tm : Tm) (hmax : 1 < max) (hformat : format.chars ≠ []) (behind : ℕ → Char) :
    0 < (strftime max (inMemory format behind) tm).returned := by
  obtain ⟨c, q, hcq⟩ := List.exists_cons_of_ne_nil hformat
  have hat := inMemory_holdsAt format behind
  have hnul := format.no_nul
  rw [hcq] at hat hnul
  have hcell := (holdsAt_cons.mp hat).1
  have hroom : max - 1 ≠ 0 := by omega
  change 0 < (tm.strftimeLoop (inMemory format behind) (max + 1) 0 (max - 1)).2.length
  rcases eq_or_ne c '%' with rfl | hne
  · rw [loop_percent hcell hroom, List.length_append, List.length_take]
    have htemp := (temp_bounds tm (inMemory format behind (0 + 1))).1
    omega
  · rw [loop_plain hcell (fun hc => hnul (hc ▸ List.mem_cons_self)) hne hroom, List.length_cons]
    exact Nat.succ_pos _

theorem serves_of_expands {behind : ℕ → Char} (h : Expands tm max format (strftime max (inMemory format behind) tm))
    (hmax : max ≠ 1) : Serves tm max format.chars := by
  have hinside := (h.inside _ _ (store_nul_mem max (inMemory format behind) tm)).2
  have hfits : (tm.expansion format.chars).length < max := by
    by_contra hlong
    have hzero := h.too_long (Nat.not_lt.mp hlong)
    have hformat : format.chars ≠ [] := by
      intro hnil
      rw [hnil] at hlong
      exact hlong (show 0 < max by omega)
    have hmax' : 1 < max := by omega
    have hpos := returned_pos tm hmax' hformat behind
    omega
  obtain ⟨hlen, hreads⟩ := h.fits hfits
  have hwritten : (tm.strftimeLoop (inMemory format behind) (max + 1) 0 (max - 1)).2 = tm.expansion format.chars :=
    readsAs_unique (strftime_reads max _ tm fun _ => NUL) (hreads _) hlen
  have hat := inMemory_holdsAt format behind
  have hnul : .conversion NUL ∉ pieces format.chars := fun hmem => format.no_nul (mem_of_mem_pieces hmem rfl)
  have hcentury : (tm.output format.chars).take (max - 1) = tm.expansion format.chars →
      .conversion 'y' ∈ pieces format.chars → 0 ≤ tm.tm_year ∨ 100 ∣ tm.tm_year :=
    fun htake => century_of_take hnul (Nat.le_sub_one_of_lt hfits) htake
  have hrounds : max - 1 < max + 1 := by omega
  have hpaired : .percent ∉ pieces format.chars := by
    intro hpercent
    by_cases hout : (tm.output format.chars).length ≤ max - 1
    · -- the `%` is reached, and the character behind the NUL read
      have hpast := loop_reads_past tm hat format.no_nul hrounds hpercent hout
      have hle := h.reads _ hpast
      omega
    · obtain ⟨htake, -⟩ := loop_written tm hat format.no_nul hrounds fun _ => Nat.not_le.mp hout
      rw [hwritten] at htake
      have hsame := output_eq_expansion format.no_nul (hcentury htake.symm)
      rw [hsame] at hout
      omega
  obtain ⟨htake, -⟩ := loop_written tm hat format.no_nul hrounds fun hmem => absurd hmem hpaired
  exact ⟨hfits, hpaired, hcentury (htake.symm.trans hwritten)⟩

/-- strftime does what is asked of it just for buffers of one byte and for formats it serves. -/
theorem expands_iff_serves (tm : Tm) (max : ℕ) (format : CString) :
    (∀ behind, Expands tm max format (strftime max (inMemory format behind) tm)) ↔
      max = 1 ∨ Serves tm max format.chars := by
  constructor
  · intro h
    by_cases hmax : max = 1
    · exact .inl hmax
    · exact .inr (serves_of_expands (h fun _ => NUL) hmax)
  · rintro (rfl | h) behind
    · exact expands_one tm format behind
    · exact expands_of_serves h behind

def noon : Tm where
  tm_sec := 0
  tm_min := 0
  tm_hour := 12
  tm_mday := 24
  tm_mon := 0
  tm_year := 84
  tm_wday := 2
  sec := by decide
  min := by decide
  hour := by decide
  mday := by decide
  mon := by decide
  year := by decide
  wday := by decide

example : (strftime 20 (inMemory ⟨"%a %d %b %Y".toList, by decide⟩ fun _ => 'z') noon).accesses =
    storeAll 0 "Tue 24 Jan 1984".toList ++ [.store 15 NUL] := by decide +kernel

/-- `strftime(s, 3, "%Y", tm)` returns 2, with "19" in `s`. -/
theorem strftime_cuts : ¬ ∀ (tm : Tm) (max : ℕ) (format : CString) (behind : ℕ → Char),
    Expands tm max format (strftime max (inMemory format behind) tm) := by
  intro h
  have hlong := (h noon 3 ⟨"%Y".toList, by decide⟩ fun _ => NUL).too_long (by decide +kernel)
  exact absurd hlong (by decide +kernel)

end Tm

end Posix9
