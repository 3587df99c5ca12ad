import Mathlib.Data.List.TakeWhile
import Mathlib.Data.Nat.Find
import Posix9.Lib.Fields
import Posix9.Types

/-! os9_platform.c: os9_verify_password, which reads the password file by 255 characters at a time. -/

namespace Posix9.Password

open Fields

variable {file rest line l tail username password pass : CStr} {j k n : ℕ}

/-! ### fgets -/

/-- Up to `room` characters, to the end of the line at the most, and what is left of the file. -/
def readLine : ℕ → CStr → CStr × CStr
  | 0, file => ([], file)
  | _ + 1, [] => ([], [])
  | room + 1, c :: file =>
    if c = '\n' then (['\n'], file)
    else (c :: (readLine room file).1, (readLine room file).2)

/-- `fgets(line, size, fp)`: none is NULL. -/
def fgets (size : ℕ) (file : CStr) : Option (CStr × CStr) :=
  if file = [] then none else some (readLine (size - 1) file)

theorem readLine_append (n : ℕ) (file : CStr) : (readLine n file).1 ++ (readLine n file).2 = file := by
  induction n generalizing file with
  | zero => rfl
  | succ n ih =>
    cases file with
    | nil => rfl
    | cons c file =>
      rw [readLine]
      split
      · rename_i hc
        rw [hc]
        rfl
      · rw [List.cons_append, ih]

theorem length_fgets (h : fgets 256 file = some (line, rest)) : rest.length < file.length := by
  rw [fgets] at h
  split at h
  · cases h
  · rename_i hne
    obtain ⟨c, file, rfl⟩ := List.exists_cons_of_ne_nil hne
    obtain ⟨-, rfl⟩ := Prod.mk.inj (Option.some.inj h)
    have hlen := congrArg List.length (readLine_append 254 file)
    rw [List.length_append] at hlen
    change (readLine (254 + 1) (c :: file)).2.length < _
    rw [readLine, List.length_cons]
    split
    · exact Nat.lt_succ_self _
    · dsimp only
      omega

/-! ### os9_verify_password -/

/-- `file_user` and `file_pass` of a line without its newline, if it has a colon. -/
def parse (line : CStr) : Option (CStr × CStr) :=
  if ':' ∈ line then some (line.takeWhile (· ≠ ':'), (line.dropWhile (· ≠ ':')).tail) else none

/-- The loop. Beside the result, the text read before the piece it has returned at, if it has returned at
    one; a record. `before` is what has been read so far. -/
def verifyLoop (username password before file : CStr) : ℤ × Option CStr :=
  match _h : fgets 256 file with
  | none => (0, none)
  | some (line, rest) =>
    match parse (line.takeWhile (· ≠ '\n')) with
    | none => verifyLoop username password (before ++ line) rest
    | some (file_user, file_pass) =>
      if file_user = username then (if file_pass = password then 1 else 0, some before)
      else verifyLoop username password (before ++ line) rest
  termination_by file.length
  decreasing_by all_goals exact length_fgets ‹_›

/-- `passwd` is what the password file holds, none where fopen does not find it. -/
def os9_verify_password (passwd : Option CStr) (username password : CStr) : ℤ × Option CStr :=
  match passwd with
  | none => (if username = "root".toList then 1 else 0, none)
  | some file => verifyLoop username password [] file

/-! ### The law -/

/-- The password a line gives the user, if it is the entry of the user. -/
def passwordIn (username line : CStr) : Option CStr :=
  (parse line).bind fun entry => if entry.1 = username then some entry.2 else none

/-- The password of the first entry of the user among some lines. -/
def passwordOf (username : CStr) (lines : List CStr) : Option CStr :=
  lines.findSome? (passwordIn username)

def lines (file : CStr) : List CStr := file.splitOn '\n'

def AtLineStart (before : CStr) : Prop := before = [] ∨ before.getLast? = some '\n'

/-- The user is let in with the password of the first line that is the user's entry and with no other, and
    what has acted as an entry begins a line. -/
structure ReadsLines (passwd username : CStr) : Prop where
  accepts : ∀ password, '\n' ∉ password →
    ((os9_verify_password (some passwd) username password).1 = 1 ↔
      passwordOf username (lines passwd) = some password)
  starts : ∀ password before, '\n' ∉ password →
    (os9_verify_password (some passwd) username password).2 = some before → AtLineStart before

/-- The `k`-th piece of a line. -/
def piece (line : CStr) (k : ℕ) : CStr := (line.drop (255 * k)).take 255

/-- Up to the first entry of the user no line has a piece behind its first that would be one, and that entry
    has 255 characters at the most. -/
def PiecesHarmless (username : CStr) : List CStr → Prop
  | [] => True
  | line :: lines =>
    if (passwordIn username line).isSome then line.length ≤ 255
    else (∀ k, 0 < k → passwordIn username (piece line k) = none) ∧ PiecesHarmless username lines

/-! ### What is read -/

theorem readLine_of_le (hl : '\n' ∉ l) (hn : n ≤ l.length) (tail : CStr) :
    readLine n (l ++ tail) = (l.take n, l.drop n ++ tail) := by
  induction n generalizing l with
  | zero => rfl
  | succ n ih =>
    cases l with
    | nil => exact absurd hn (Nat.not_succ_le_zero n)
    | cons c l =>
      obtain ⟨hc, hl⟩ := List.ne_and_not_mem_of_not_mem_cons hl
      rw [List.cons_append, readLine, if_neg (Ne.symm hc), ih hl (Nat.le_of_succ_le_succ hn)]
      rfl

theorem readLine_of_lt (hl : '\n' ∉ l) (hn : l.length < n) (rest : CStr) :
    readLine n (l ++ '\n' :: rest) = (l ++ ['\n'], rest) := by
  induction l generalizing n with
  | nil =>
    obtain ⟨n, rfl⟩ := Nat.exists_eq_succ_of_ne_zero (Nat.ne_of_gt hn)
    rfl
  | cons c l ih =>
    obtain ⟨n, rfl⟩ := Nat.exists_eq_succ_of_ne_zero (Nat.ne_of_gt (Nat.zero_lt_of_lt hn))
    obtain ⟨hc, hl⟩ := List.ne_and_not_mem_of_not_mem_cons hl
    rw [List.cons_append, readLine, if_neg (Ne.symm hc), ih hl (Nat.lt_of_succ_lt_succ hn)]
    rfl

theorem readLine_last (hl : '\n' ∉ l) (hn : l.length ≤ n) : readLine n l = (l, []) := by
  induction l generalizing n with
  | nil => cases n <;> rfl
  | cons c l ih =>
    obtain ⟨n, rfl⟩ := Nat.exists_eq_succ_of_ne_zero (Nat.ne_of_gt (Nat.zero_lt_of_lt hn))
    obtain ⟨hc, hl⟩ := List.ne_and_not_mem_of_not_mem_cons hl
    rw [readLine, if_neg (Ne.symm hc), ih hl (Nat.le_of_succ_le_succ hn)]

theorem length_readLine (n : ℕ) (file : CStr) : (readLine n file).1.length ≤ n := by
  induction n generalizing file with
  | zero => exact Nat.le_refl 0
  | succ n ih =>
    cases file with
    | nil => exact Nat.zero_le _
    | cons c file =>
      rw [readLine]
      split
      · simp
      · simp [ih]

theorem takeWhile_line (hl : '\n' ∉ l) : l.takeWhile (· ≠ '\n') = l := by
  refine List.takeWhile_eq_self_iff.mpr fun c hc => ?_
  have hne : c ≠ '\n' := fun h => hl (h ▸ hc)
  simpa using hne

theorem takeWhile_newline (hl : '\n' ∉ l) : (l ++ ['\n']).takeWhile (· ≠ '\n') = l := by
  rw [List.takeWhile_append_of_pos fun c hc => ?_]
  · simp
  · have hne : c ≠ '\n' := fun h => hl (h ▸ hc)
    simpa using hne

/-! ### Entries -/

/-- What stands around the first colon. -/
theorem parse_append (huser : ':' ∉ username) (pass : CStr) :
    parse (username ++ ':' :: pass) = some (username, pass) := by
  have hno : ∀ c ∈ username, decide (c ≠ ':') = true := fun c hc => by
    have hne : c ≠ ':' := fun h => huser (h ▸ hc)
    simpa using hne
  rw [parse, if_pos (by simp), List.takeWhile_append_of_pos hno, List.dropWhile_append_of_pos hno]
  simp

theorem passwordIn_eq_some : passwordIn username line = some pass ↔
    ':' ∉ username ∧ line = username ++ ':' :: pass := by
  rw [passwordIn]
  constructor
  · intro h
    by_cases hcolon : ':' ∈ line
    · obtain ⟨user, rest, rfl, huser⟩ := List.eq_append_cons_of_mem hcolon
      rw [parse_append huser] at h
      obtain ⟨rfl, rfl⟩ : user = username ∧ rest = pass := by simpa using h
      exact ⟨huser, rfl⟩
    · rw [parse, if_neg hcolon] at h
      cases h
  · rintro ⟨huser, rfl⟩
    rw [parse_append huser]
    simp

theorem passwordIn_long (h : 255 ≤ username.length) (hlen : line.length ≤ 255) :
    passwordIn username line = none := by
  rw [Option.eq_none_iff_forall_ne_some]
  intro pass hpass
  obtain ⟨-, rfl⟩ := passwordIn_eq_some.mp hpass
  simp at hlen
  omega

theorem passwordIn_nil (username : CStr) : passwordIn username [] = none := rfl

/-! ### The loop -/

theorem verifyLoop_nil (before : CStr) : verifyLoop username password before [] = (0, none) := by
  rw [verifyLoop]
  rfl

/-- A piece is the user's entry, or is passed over. -/
theorem verifyLoop_piece (before : CStr) (h : fgets 256 file = some (line, rest)) :
    verifyLoop username password before file =
      match passwordIn username (line.takeWhile (· ≠ '\n')) with
      | some pass => (if pass = password then 1 else 0, some before)
      | none => verifyLoop username password (before ++ line) rest := by
  rw [verifyLoop, passwordIn]
  split
  · rename_i hnone
    rw [hnone] at h
    cases h
  · rename_i line' rest' hsome
    obtain ⟨rfl, rfl⟩ : line' = line ∧ rest' = rest := by simpa using hsome.symm.trans h
    cases hparse : parse (line'.takeWhile (· ≠ '\n')) with
    | none => rfl
    | some entry =>
      rw [Option.bind_some]
      dsimp only
      split <;> rfl

theorem fgets_of_le (hl : '\n' ∉ l) (hlen : 255 ≤ l.length) (tail : CStr) :
    fgets 256 (l ++ tail) = some (l.take 255, l.drop 255 ++ tail) := by
  rw [fgets, if_neg, readLine_of_le hl hlen]
  intro hnil
  rw [(List.append_eq_nil_iff.mp hnil).1] at hlen
  exact absurd hlen (by decide)

/-- The end of a line and what is behind it: a newline and the other lines, or nothing. -/
def Ends (tail rest : CStr) : Prop := tail = '\n' :: rest ∨ (tail = [] ∧ rest = [])

/-- A piece that begins a line and is the user's entry. -/
theorem verifyLoop_hit (before : CStr) (hl : '\n' ∉ l) (htail : Ends tail rest)
    (hpass : passwordIn username (l.take 255) = some pass) :
    verifyLoop username password before (l ++ tail) = (if pass = password then 1 else 0, some before) := by
  have hread : ∃ line rest', fgets 256 (l ++ tail) = some (line, rest') ∧
      line.takeWhile (· ≠ '\n') = l.take 255 := by
    have htake : '\n' ∉ l.take 255 := fun h => hl (List.mem_of_mem_take h)
    by_cases hlen : 255 ≤ l.length
    · exact ⟨_, _, fgets_of_le hl hlen tail, takeWhile_line htake⟩
    · have hwhole : l.take 255 = l := List.take_of_length_le (by omega)
      have hne : l ≠ [] := by
        rintro rfl
        cases hpass
      rw [hwhole]
      rcases htail with rfl | ⟨rfl, rfl⟩
      · refine ⟨l ++ ['\n'], rest, ?_, takeWhile_newline hl⟩
        rw [fgets, if_neg (by simp), readLine_of_lt hl (by omega)]
      · refine ⟨l, [], ?_, takeWhile_line hl⟩
        rw [List.append_nil, fgets, if_neg hne, readLine_last hl (by omega)]
  obtain ⟨line, rest', hfgets, hline⟩ := hread
  rw [verifyLoop_piece before hfgets, hline, hpass]

/-- Pieces of a line that are not the user's entry. -/
theorem verifyLoop_advance (before : CStr) (hl : '\n' ∉ l)
    (hnone : ∀ k < j, passwordIn username (piece l k) = none) (hj : 255 * j ≤ l.length) (tail : CStr) :
    verifyLoop username password before (l ++ tail) =
      verifyLoop username password (before ++ l.take (255 * j)) (l.drop (255 * j) ++ tail) := by
  induction j generalizing l before with
  | zero => simp
  | succ j ih =>
    have hfirst : passwordIn username (l.take 255) = none := hnone 0 (Nat.succ_pos j)
    have hrest : ∀ k < j, passwordIn username (piece (l.drop 255) k) = none := by
      intro k hk
      have hpiece : piece (l.drop 255) k = piece l (k + 1) := by
        rw [piece, piece, List.drop_drop, Nat.mul_succ, Nat.add_comm]
      rw [hpiece]
      exact hnone (k + 1) (Nat.succ_lt_succ hk)
    have htake : l.take (255 * (j + 1)) = l.take 255 ++ (l.drop 255).take (255 * j) := by
      rw [Nat.mul_succ, Nat.add_comm, List.take_add]
    rw [verifyLoop_piece before (fgets_of_le hl (by omega) tail),
      takeWhile_line fun h => hl (List.mem_of_mem_take h), hfirst]
    dsimp only
    rw [ih (before ++ l.take 255) (fun h => hl (List.mem_of_mem_drop h)) hrest (by rw [List.length_drop]; omega),
      htake, List.append_assoc, List.drop_drop, Nat.mul_succ, Nat.add_comm]

/-- The last piece of a line. -/
theorem verifyLoop_last (before : CStr) (hl : '\n' ∉ l) (hlen : l.length < 255) (htail : Ends tail rest)
    (hnone : passwordIn username l = none) :
    verifyLoop username password before (l ++ tail) =
      verifyLoop username password (before ++ l ++ ['\n']) rest := by
  rcases htail with rfl | ⟨rfl, rfl⟩
  · have hread : fgets 256 (l ++ '\n' :: rest) = some (l ++ ['\n'], rest) := by
      rw [fgets, if_neg (by simp), readLine_of_lt hl (by omega)]
    rw [verifyLoop_piece before hread, takeWhile_newline hl, hnone]
    simp
  · rw [List.append_nil, verifyLoop_nil]
    rcases List.eq_nil_or_concat l with rfl | hne
    · exact verifyLoop_nil before
    · have hread : fgets 256 l = some (l, []) := by
        rw [fgets, if_neg, readLine_last hl (by omega)]
        obtain ⟨init, c, rfl⟩ := hne
        simp
      rw [verifyLoop_piece before hread, takeWhile_line hl, hnone]
      exact verifyLoop_nil _

/-- A line without a piece that is the user's entry. -/
theorem verifyLoop_skip (before : CStr) (hl : '\n' ∉ l) (htail : Ends tail rest)
    (hnone : ∀ k, passwordIn username (piece l k) = none) :
    verifyLoop username password before (l ++ tail) =
      verifyLoop username password (before ++ l ++ ['\n']) rest := by
  have hlen : (l.drop (255 * (l.length / 255))).length < 255 := by
    rw [List.length_drop]
    omega
  have hpiece := hnone (l.length / 255)
  rw [piece, List.take_of_length_le (Nat.le_of_lt hlen)] at hpiece
  rw [verifyLoop_advance before hl (fun k _ => hnone k) (Nat.mul_div_le l.length 255) tail,
    verifyLoop_last _ (fun h => hl (List.mem_of_mem_drop h)) hlen htail hpiece]
  congr 2
  rw [List.append_assoc, List.take_append_drop]

/-- A user whose name is longer than a piece has no entry. -/
theorem verifyLoop_long (h : 255 ≤ username.length) (before file : CStr) :
    verifyLoop username password before file = (0, none) := by
  by_cases hfile : file = []
  · rw [hfile, verifyLoop_nil]
  · have hread : fgets 256 file = some (readLine 255 file) := if_neg hfile
    have hpiece : passwordIn username ((readLine 255 file).1.takeWhile (· ≠ '\n')) = none :=
      passwordIn_long h (Nat.le_trans (List.takeWhile_prefix _).length_le (length_readLine 255 file))
    rw [verifyLoop_piece before hread, hpiece]
    exact verifyLoop_long h _ _
  termination_by file.length
  decreasing_by exact length_fgets hread

/-! ### The law holds where no piece does harm -/

/-- The law for the lines that are left, behind some that have been read. -/
structure Reads (username before file : CStr) (ls : List CStr) : Prop where
  accepts : ∀ password, '\n' ∉ password →
    ((verifyLoop username password before file).1 = 1 ↔ passwordOf username ls = some password)
  starts : ∀ password at_, '\n' ∉ password →
    (verifyLoop username password before file).2 = some at_ → AtLineStart at_

theorem passwordOf_cons (l : CStr) (ls : List CStr) :
    passwordOf username (l :: ls) = (passwordIn username l).or (passwordOf username ls) := by
  rw [passwordOf, List.findSome?_cons]
  cases passwordIn username l <;> rfl

/-- An entry in the first piece of a line is one in the line. -/
theorem passwordIn_of_take (h : passwordIn username (l.take n) = some pass) :
    passwordIn username l = some (pass ++ l.drop n) := by
  obtain ⟨huser, htake⟩ := passwordIn_eq_some.mp h
  refine passwordIn_eq_some.mpr ⟨huser, ?_⟩
  calc
    l = l.take n ++ l.drop n := (List.take_append_drop n l).symm
    _ = (username ++ ':' :: pass) ++ l.drop n := by rw [htake]
    _ = username ++ ':' :: (pass ++ l.drop n) := by simp

theorem not_atLineStart (before : CStr) (hl : '\n' ∉ l) (hn : 0 < n) (hlen : n < l.length) :
    ¬ AtLineStart (before ++ l.take n) := by
  have hne : l.take n ≠ [] := by
    intro hnil
    have hzero := congrArg List.length hnil
    rw [List.length_take, List.length_nil] at hzero
    omega
  rintro (hnil | hlast)
  · exact hne (List.append_eq_nil_iff.mp hnil).2
  · rw [List.getLast?_append_of_ne_nil _ hne] at hlast
    exact hl (List.mem_of_mem_take (List.mem_of_getLast? hlast))

/-- The first line is the user's entry. -/
theorem reads_entry {before : CStr} {ls : List CStr} (hl : '\n' ∉ l) (htail : Ends tail rest)
    (hstart : AtLineStart before) (hentry : passwordIn username l = some pass) :
    Reads username before (l ++ tail) (l :: ls) ↔ l.length ≤ 255 := by
  have hspec : passwordOf username (l :: ls) = some pass := by
    rw [passwordOf_cons, hentry]
    rfl
  have hpass : '\n' ∉ pass := by
    obtain ⟨-, rfl⟩ := passwordIn_eq_some.mp hentry
    exact fun h => hl (by simp [h])
  constructor
  · intro h
    by_contra hlong
    cases hfirst : passwordIn username (l.take 255) with
    | some short =>
      have hcut : pass = short ++ l.drop 255 :=
        Option.some.inj (hentry.symm.trans (passwordIn_of_take hfirst))
      have hshort : '\n' ∉ short := fun hmem => hpass (hcut ▸ List.mem_append_left _ hmem)
      have haccepts := (h.accepts short hshort).mp (by rw [verifyLoop_hit before hl htail hfirst, if_pos rfl])
      have hlen := congrArg List.length (hcut.symm.trans (Option.some.inj (hspec.symm.trans haccepts)))
      rw [List.length_append, List.length_drop] at hlen
      omega
    | none =>
      -- the name leaves no room for a colon in a piece
      have huser : 255 ≤ username.length := by
        by_contra hlt
        obtain ⟨hcolon, rfl⟩ := passwordIn_eq_some.mp hentry
        have htake : (username ++ ':' :: pass).take 255 = username ++ ':' :: pass.take (254 - username.length) := by
          rw [List.take_append, List.take_of_length_le (by omega),
            show 255 - username.length = 254 - username.length + 1 by omega, List.take_succ_cons]
        rw [htake, passwordIn_eq_some.mpr ⟨hcolon, rfl⟩] at hfirst
        cases hfirst
      have haccepts := (h.accepts pass hpass).mpr hspec
      rw [verifyLoop_long huser] at haccepts
      cases haccepts
  · intro hlen
    have hfirst : passwordIn username (l.take 255) = some pass := by rwa [List.take_of_length_le hlen]
    refine ⟨fun password _ => ?_, fun password at_ _ hat => ?_⟩
    · rw [verifyLoop_hit before hl htail hfirst, hspec, Option.some_inj]
      split <;> simp_all
    · rw [verifyLoop_hit before hl htail hfirst] at hat
      exact Option.some.inj hat ▸ hstart

/-- The first line is not the user's entry. -/
theorem reads_other {before : CStr} {ls : List CStr} (hl : '\n' ∉ l) (htail : Ends tail rest)
    (hentry : passwordIn username l = none) :
    Reads username before (l ++ tail) (l :: ls) ↔
      (∀ k, 0 < k → passwordIn username (piece l k) = none) ∧
        Reads username (before ++ l ++ ['\n']) rest ls := by
  have hfirst : passwordIn username (piece l 0) = none := by
    rw [Option.eq_none_iff_forall_ne_some]
    intro short hshort
    have hline : passwordIn username l = some (short ++ l.drop 255) := passwordIn_of_take hshort
    rw [hentry] at hline
    cases hline
  have hspec : passwordOf username (l :: ls) = passwordOf username ls := by
    rw [passwordOf_cons, hentry]
    rfl
  by_cases hnone : ∀ k, passwordIn username (piece l k) = none
  · have hloop : ∀ password, verifyLoop username password before (l ++ tail) =
        verifyLoop username password (before ++ l ++ ['\n']) rest :=
      fun password => verifyLoop_skip before hl htail hnone
    refine ⟨fun h => ⟨fun k _ => hnone k, ?_⟩, fun h => ?_⟩
    · refine ⟨fun password hpassword => ?_, fun password at_ hpassword hat => ?_⟩
      · rw [← hloop, ← hspec]
        exact h.accepts password hpassword
      · exact h.starts password at_ hpassword (by rwa [hloop])
    · refine ⟨fun password hpassword => ?_, fun password at_ hpassword hat => ?_⟩
      · rw [hloop, hspec]
        exact h.2.accepts password hpassword
      · exact h.2.starts password at_ hpassword (by rwa [← hloop])
  · refine iff_of_false (fun h => ?_) fun h => hnone fun k => ?_
    · -- the least piece that is an entry is the one the loop returns at
      push Not at hnone
      have hleast := Nat.find_spec hnone
      have hbelow : ∀ k < Nat.find hnone, passwordIn username (piece l k) = none :=
        fun k hk => not_not.mp (Nat.find_min hnone hk)
      generalize Nat.find hnone = j at hleast hbelow
      obtain ⟨pass, hpass⟩ := Option.ne_none_iff_exists'.mp hleast
      have hj : j ≠ 0 := by
        rintro rfl
        exact hleast hfirst
      have hlen : 255 * j < l.length := by
        by_contra hge
        rw [piece, List.drop_eq_nil_of_le (Nat.not_lt.mp hge), List.take_nil] at hleast
        exact hleast (passwordIn_nil username)
      have hloop : (verifyLoop username [] before (l ++ tail)).2 = some (before ++ l.take (255 * j)) := by
        rw [verifyLoop_advance before hl hbelow (Nat.le_of_lt hlen),
          verifyLoop_hit _ (fun h => hl (List.mem_of_mem_drop h)) htail hpass]
      exact not_atLineStart before hl (by omega) hlen (h.starts [] _ (List.not_mem_nil) hloop)
    · rcases Nat.eq_zero_or_pos k with rfl | hk
      · exact hfirst
      · exact h.1 k hk

theorem reads_iff {before : CStr} {ls : List CStr} (hls : ∀ l ∈ ls, '\n' ∉ l) (hstart : AtLineStart before)
    (hfile : (file = [] ∧ ls = []) ∨ lines file = ls) :
    Reads username before file ls ↔ PiecesHarmless username ls := by
  induction ls generalizing before file with
  | nil =>
    obtain ⟨rfl, -⟩ : file = [] ∧ _ := hfile.resolve_right (List.splitOn_ne_nil '\n' file)
    refine iff_of_true ⟨fun password _ => ?_, fun password at_ _ hat => ?_⟩ trivial
    · rw [verifyLoop_nil]
      exact iff_of_false (by decide : ¬ (0 : ℤ) = 1) (by simp [passwordOf])
    · rw [verifyLoop_nil] at hat
      cases hat
  | cons l ls ih =>
    have hsplit : file.splitOn '\n' = l :: ls := hfile.resolve_left fun h => List.cons_ne_nil _ _ h.2
    have hends : ∃ tail rest, file = l ++ tail ∧ Ends tail rest ∧
        ((rest = [] ∧ ls = []) ∨ lines rest = ls) := by
      rcases eq_of_splitOn hsplit with ⟨rfl, rfl⟩ | ⟨rest, rfl, hrest⟩
      · exact ⟨[], [], (List.append_nil _).symm, .inr ⟨rfl, rfl⟩, .inl ⟨rfl, rfl⟩⟩
      · exact ⟨'\n' :: rest, rest, rfl, .inl rfl, .inr hrest⟩
    obtain ⟨tail, rest, rfl, htail, hrest⟩ := hends
    have hl := hls l List.mem_cons_self
    rw [PiecesHarmless]
    cases hentry : passwordIn username l with
    | some pass =>
      rw [if_pos Option.isSome_some]
      exact reads_entry hl htail hstart hentry
    | none =>
      have hnext : AtLineStart (before ++ l ++ ['\n']) := .inr (by simp)
      rw [if_neg (by simp), reads_other hl htail hentry,
        ih (fun m hm => hls m (List.mem_cons_of_mem _ hm)) hnext hrest]

/-- The password check reads whole lines exactly where no piece of a line does harm. -/
theorem readsLines_iff_piecesHarmless (passwd username : CStr) :
    ReadsLines passwd username ↔ PiecesHarmless username (lines passwd) := by
  have hreads : ReadsLines passwd username ↔ Reads username [] passwd (lines passwd) :=
    ⟨fun h => ⟨h.accepts, h.starts⟩, fun h => ⟨h.accepts, h.starts⟩⟩
  rw [hreads]
  exact reads_iff (fun l hl => not_mem_field hl) (.inl rfl) (.inr rfl)

/-- One line of 264 characters; the last nine, read as a piece of their own, let root in. -/
def smuggled : CStr := "alice:".toList ++ List.replicate 249 'x' ++ "root:evil\n".toList

theorem smuggled_accepted : ¬ ReadsLines smuggled "root".toList := by
  intro h
  have haccepts := h.accepts "evil".toList (by decide)
  have hresult : (os9_verify_password (some smuggled) "root".toList "evil".toList).1 = 1 := by
    decide +kernel
  have hspec : passwordOf "root".toList (lines smuggled) = none := by decide +kernel
  rw [hspec] at haccepts
  cases haccepts.mp hresult

end Posix9.Password
