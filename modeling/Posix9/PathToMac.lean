import Posix9.Navigation

/-! posix9_path_to_mac against the reading of POSIX paths.

    The loop of posix9_path_to_mac is first followed field by field (`colonFields`), which leaves one
    list recursion to compare with the moves of the path. -/

namespace Posix9
open Fields Walk

/-! ### Room in the buffer -/

theorem skipSlashes_length_le (p : CStr) : (skipSlashes p).length ≤ p.length :=
  (List.dropWhile_sublist _).length_le

theorem skipSlash_sublist (p : CStr) : (skipSlash p).Sublist p := by
  unfold skipSlash
  split <;> simp

theorem skipSlash_length_le (p : CStr) : (skipSlash p).length ≤ p.length :=
  (skipSlash_sublist p).length_le

theorem atDotDot_length {p : CStr} (h : atDotDot p = true) : 2 ≤ p.length := by
  unfold atDotDot at h
  split at h <;> simp_all

attribute [local simp] toMacLoop

@[simp] theorem toMacLoop_nil (room : ℕ) : toMacLoop room [] = [] := by
  cases room <;> rfl

theorem toMacLoop_up (room : ℕ) {p : CStr} (h : atDotDot (skipSlashes p) = true) :
    toMacLoop (room + 1) ('/' :: p) =
      ':' :: ':' :: toMacLoop (room - 1) (skipSlash ((skipSlashes p).drop 2)) := by
  cases room <;> simp [h]

theorem toMacLoop_sep (room : ℕ) {p : CStr} (h : atDotDot (skipSlashes p) = false) :
    toMacLoop (room + 1) ('/' :: p) = ':' :: toMacLoop room (skipSlashes p) := by
  cases room <;> simp [h]

theorem toMacLoop_char (room : ℕ) {c : Char} (p : CStr) (hc : c ≠ '/') :
    toMacLoop (room + 1) (c :: p) = c :: toMacLoop room p := by
  cases room <;> simp [hc]

/-- Induction along the loop: out of room, at the end of the path, at a separator in front of `..`,
    at another separator, at any other character. -/
theorem toMacLoop_rec {motive : ℕ → CStr → Prop} (full : ∀ p, motive 0 p)
    (done : ∀ room, motive (room + 1) [])
    (up : ∀ room p, atDotDot (skipSlashes p) = true →
      motive (room - 1) (skipSlash ((skipSlashes p).drop 2)) → motive (room + 1) ('/' :: p))
    (sep : ∀ room p, atDotDot (skipSlashes p) = false →
      motive room (skipSlashes p) → motive (room + 1) ('/' :: p))
    (char : ∀ room c p, c ≠ '/' → motive room p → motive (room + 1) (c :: p)) :
    ∀ room p, motive room p := by
  intro room
  induction room using Nat.strongRecOn with
  | ind room ih =>
    intro p
    rcases room with _ | room
    · exact full p
    rcases p with _ | ⟨c, p⟩
    · exact done room
    rcases eq_or_ne c '/' with rfl | hc
    · cases hdd : atDotDot (skipSlashes p) with
      | true => exact up room p hdd (ih _ (by omega) _)
      | false => exact sep room p hdd (ih _ (by omega) _)
    · exact char room c p hc (ih _ (by omega) _)

/-- The loop writes no more than it reads. -/
theorem toMacLoop_length_le (room : ℕ) (p : CStr) : (toMacLoop room p).length ≤ p.length := by
  induction room, p using toMacLoop_rec with
  | full => simp
  | done => simp
  | up room p hdd ih =>
    have h2 := atDotDot_length hdd
    have hs := skipSlashes_length_le p
    have hd := skipSlash_length_le ((skipSlashes p).drop 2)
    rw [toMacLoop_up room hdd]
    simp only [List.length_drop, List.length_cons] at *
    omega
  | sep room p hdd ih =>
    have hs := skipSlashes_length_le p
    rw [toMacLoop_sep room hdd]
    simp only [List.length_cons]
    omega
  | char room c p hc ih =>
    rw [toMacLoop_char room p hc]
    simpa using ih

/-- With more room the loop writes at least as much, and it stops early only when its room is used
    up. -/
theorem toMacLoop_more (room : ℕ) (p : CStr) :
    ∀ more, room ≤ more → toMacLoop room p <+: toMacLoop more p ∧
      (toMacLoop room p = toMacLoop more p ∨ room ≤ (toMacLoop room p).length) := by
  induction room, p using toMacLoop_rec with
  | full => simp
  | done => simp
  | up room p hdd ih =>
    rintro (_ | more) hmore
    · omega
    obtain ⟨hpre, hstop⟩ := ih (more - 1) (by omega)
    rw [toMacLoop_up room hdd, toMacLoop_up more hdd]
    refine ⟨by simpa using hpre, hstop.imp (fun h => by rw [h]) fun h => ?_⟩
    simp only [List.length_cons]
    omega
  | sep room p hdd ih =>
    rintro (_ | more) hmore
    · omega
    obtain ⟨hpre, hstop⟩ := ih more (by omega)
    rw [toMacLoop_sep room hdd, toMacLoop_sep more hdd]
    exact ⟨by simpa using hpre, hstop.imp (fun h => by rw [h]) fun h => by simpa using h⟩
  | char room c p hc ih =>
    rintro (_ | more) hmore
    · omega
    obtain ⟨hpre, hstop⟩ := ih more (by omega)
    rw [toMacLoop_char room p hc, toMacLoop_char more p hc]
    exact ⟨by simpa using hpre, hstop.imp (fun h => by rw [h]) fun h => by simpa using h⟩

/-- All that the loop would write of a path: room for the path's length never stops it. -/
def toMacWhole (p : CStr) : CStr := toMacLoop p.length p

theorem toMacLoop_of_length_le {room : ℕ} {p : CStr} (h : p.length ≤ room) :
    toMacLoop room p = toMacWhole p := by
  obtain ⟨hpre, hstop⟩ := toMacLoop_more p.length p room h
  have hle := toMacLoop_length_le room p
  rcases hstop with heq | hfull
  · exact heq.symm
  · exact (hpre.eq_of_length_le (by omega)).symm

/-- A loop that is stopped early has used up its room. -/
theorem toMacLoop_eq_or_full (room : ℕ) (p : CStr) :
    toMacLoop room p = toMacWhole p ∨
      (toMacLoop room p <+: toMacWhole p ∧ room ≤ (toMacLoop room p).length) := by
  rcases Nat.le_total p.length room with h | h
  · exact .inl (toMacLoop_of_length_le h)
  · obtain ⟨hpre, hstop⟩ := toMacLoop_more room p p.length h
    exact hstop.imp id fun hfull => ⟨hpre, hfull⟩

@[simp] theorem toMacWhole_nil : toMacWhole [] = [] := rfl

theorem toMacWhole_up {p : CStr} (h : atDotDot (skipSlashes p) = true) :
    toMacWhole ('/' :: p) = ':' :: ':' :: toMacWhole (skipSlash ((skipSlashes p).drop 2)) := by
  have h2 := atDotDot_length h
  have hs := skipSlashes_length_le p
  have hd := skipSlash_length_le ((skipSlashes p).drop 2)
  rw [toMacWhole, List.length_cons, toMacLoop_up _ h, toMacLoop_of_length_le]
  simp only [List.length_drop] at hd
  omega

theorem toMacWhole_sep {p : CStr} (h : atDotDot (skipSlashes p) = false) :
    toMacWhole ('/' :: p) = ':' :: toMacWhole (skipSlashes p) := by
  rw [toMacWhole, List.length_cons, toMacLoop_sep _ h,
    toMacLoop_of_length_le (skipSlashes_length_le p)]

theorem toMacWhole_char {c : Char} (p : CStr) (hc : c ≠ '/') :
    toMacWhole (c :: p) = c :: toMacWhole p := by
  rw [toMacWhole, List.length_cons, toMacLoop_char _ _ hc, toMacWhole]

/-! ### The loop, field by field -/

/-- The fields the loop writes for components that each have a slash in front: slashes in a row count
    once, and `..` is written as an empty field whose slash is then taken from the next component. -/
def colonFields : List CStr → List CStr
  | [] => []
  | [c] => if c = dotdot then [[], []] else [c]
  | c :: c' :: cs =>
    if c = dotdot then [] :: c' :: colonFields cs
    else if c = [] then colonFields (c' :: cs)
    else c :: colonFields (c' :: cs)

section

attribute [local simp] colonFields

@[simp] theorem colonFields_empty (c : CStr) (cs : List CStr) :
    colonFields ([] :: c :: cs) = colonFields (c :: cs) := by
  simp [dotdot]

@[simp] theorem colonFields_dotdot (c : CStr) (cs : List CStr) :
    colonFields (dotdot :: c :: cs) = [] :: c :: colonFields cs := by
  simp

theorem colonFields_name {c : CStr} (hne : c ≠ []) (hdd : c ≠ dotdot) (cs : List CStr) :
    colonFields (c :: cs) = c :: colonFields cs := by
  cases cs <;> simp [hne, hdd]

end

theorem colonFields_skip (p : CStr) :
    colonFields (p.splitOn '/') = colonFields ((skipSlashes p).splitOn '/') := by
  induction p with
  | nil => rfl
  | cons c p ih =>
    rcases eq_or_ne c '/' with rfl | hc
    · obtain ⟨h, t, ht⟩ := exists_fields '/' p
      rw [splitOn_cons_self, ht, colonFields_empty, ← ht, ih]
      simp [skipSlashes]
    · simp [skipSlashes, hc]

theorem atDotDot_iff (p : CStr) : atDotDot p = true ↔ ∃ t, p.splitOn '/' = dotdot :: t := by
  constructor
  · intro h
    unfold atDotDot at h
    split at h
    · exact ⟨[], by decide⟩
    · rename_i r
      exact ⟨r.splitOn '/', splitOn_cons_of_ne (by decide)
        (splitOn_cons_of_ne (by decide) (splitOn_cons_self '/' r))⟩
    · simp at h
  · rintro ⟨t, ht⟩
    rcases eq_of_splitOn ht with ⟨rfl, -⟩ | ⟨rest, rfl, -⟩ <;> rfl

/-- What is left behind a first component and its slash. -/
theorem skip_component {p f : CStr} {t : List CStr} (h : p.splitOn '/' = f :: t) :
    (t = [] ∧ skipSlash (p.drop f.length) = []) ∨
      (skipSlash (p.drop f.length)).splitOn '/' = t := by
  rcases eq_of_splitOn h with ⟨rfl, rfl⟩ | ⟨rest, rfl, hrest⟩
  · exact .inl ⟨rfl, by simp [skipSlash]⟩
  · exact .inr (by simpa [skipSlash] using hrest)

/-- Past the slashes an empty component can only be the end of the path. -/
theorem skipSlashes_fields {p : CStr} {t : List CStr}
    (h : (skipSlashes p).splitOn '/' = [] :: t) : t = [] := by
  rcases eq_of_splitOn h with ⟨-, rfl⟩ | ⟨rest, hrest, -⟩
  · rfl
  · have hhead := List.head?_dropWhile_not (· == '/') p
    rw [show p.dropWhile (· == '/') = '/' :: rest from hrest] at hhead
    simp at hhead

/-- The loop turns the components of a path into the fields of `colonFields`; the first component has
    no slash in front and is copied. -/
theorem toMacWhole_fields {p h : CStr} {t : List CStr} (hp : ':' ∉ p)
    (hfields : p.splitOn '/' = h :: t) : (toMacWhole p).splitOn ':' = h :: colonFields t := by
  induction hn : p.length using Nat.strongRecOn generalizing p h t with
  | ind n ih =>
    rcases p with _ | ⟨c, p⟩
    · obtain ⟨rfl, rfl⟩ : [] = h ∧ [] = t := by simpa using hfields
      rfl
    have hcp : c ≠ ':' ∧ ':' ∉ p := by simpa [eq_comm] using hp
    rcases eq_or_ne c '/' with rfl | hc
    · obtain ⟨rfl, rfl⟩ : [] = h ∧ p.splitOn '/' = t := by simpa using hfields
      obtain ⟨h', t', ht'⟩ := exists_fields '/' (skipSlashes p)
      have hskip : ':' ∉ skipSlashes p := fun hm => hcp.2 ((List.dropWhile_sublist _).mem hm)
      have hlen := skipSlashes_length_le p
      rw [List.length_cons] at hn
      rw [colonFields_skip, ht']
      cases hdd : atDotDot (skipSlashes p) with
      | true =>
        obtain ⟨t₁, ht₁⟩ := (atDotDot_iff _).mp hdd
        obtain ⟨rfl, rfl⟩ : h' = dotdot ∧ t' = t₁ := by simpa [ht'] using ht₁
        rw [toMacWhole_up hdd]
        rcases skip_component ht' with ⟨rfl, hrest⟩ | hrest <;>
          rw [show dotdot.length = 2 from rfl] at hrest
        · rw [hrest]
          rfl
        · obtain ⟨g, gs, hg⟩ := exists_fields '/' (skipSlash ((skipSlashes p).drop 2))
          have hlt := skipSlash_length_le ((skipSlashes p).drop 2)
          have h2 := atDotDot_length hdd
          rw [List.length_drop] at hlt
          have hcolon : ':' ∉ skipSlash ((skipSlashes p).drop 2) := fun hm =>
            hskip (List.mem_of_mem_drop ((skipSlash_sublist _).mem hm))
          rw [splitOn_cons_self, splitOn_cons_self, ih _ (by omega) hcolon hg rfl, ← hrest, hg,
            colonFields_dotdot]
      | false =>
        rw [toMacWhole_sep hdd, splitOn_cons_self, ih _ (by omega) hskip ht' rfl]
        rcases eq_or_ne h' [] with rfl | hh
        · rw [skipSlashes_fields ht']
          rfl
        · have hne : h' ≠ dotdot := by
            rintro rfl
            simp [(atDotDot_iff _).mpr ⟨t', ht'⟩] at hdd
          rw [colonFields_name hh hne]
    · obtain ⟨g, gs, hg⟩ := exists_fields '/' p
      obtain ⟨rfl, rfl⟩ : c :: g = h ∧ gs = t := by
        simpa [splitOn_cons_of_ne hc hg] using hfields
      rw [toMacWhole_char p hc]
      exact splitOn_cons_of_ne hcp.1 (ih p.length (by simp at hn; omega) hcp.2 hg rfl)

/-- `/Volumes/` in front is the component `Volumes`. -/
theorem splitOn_volumes {p : CStr} (h : volumesPrefix.isPrefixOf p = true) :
    p.splitOn '/' = "Volumes".toList :: (p.drop 8).splitOn '/' := by
  obtain ⟨q, rfl⟩ := List.isPrefixOf_iff_prefix.mp h
  exact List.splitOn_append_cons_self_of_not_mem (show '/' ∉ "Volumes".toList by decide) q

/-! ### Fields against moves -/

theorem colonFields_ne_nil {cs : List CStr} (h : cs ≠ []) : colonFields cs ≠ [] := by
  fun_induction colonFields cs <;> simp_all

theorem ofFields_up_colonFields (c : CStr) (cs : List CStr) :
    ofFields ([] :: colonFields (c :: cs)) = .up :: ofFields (colonFields (c :: cs)) := by
  obtain ⟨f, fs, hf⟩ := List.exists_cons_of_ne_nil (colonFields_ne_nil (List.cons_ne_nil c cs))
  rw [hf, ofFields_up]

/-- Fields written behind a separator make one move more at most, never one less. -/
theorem length_ofFields_colonFields (c : CStr) (cs : List CStr) :
    (ofFields (colonFields cs)).length ≤ (ofFields (c :: colonFields cs)).length := by
  cases c with
  | cons x xs => simp
  | nil =>
    cases h : colonFields cs with
    | nil => simp
    | cons f fs => simp

/-- The translator never loses a move. -/
theorem length_posixMoves_le (cs : List CStr) :
    (posixMoves cs).length ≤ (ofFields (colonFields cs)).length ∧
      ∀ c, (posixMoves (c :: cs)).length ≤ (ofFields (c :: colonFields cs)).length := by
  have behind : ∀ cs, (posixMoves cs).length ≤ (ofFields (colonFields cs)).length →
      ∀ c, (posixMoves (c :: cs)).length ≤ (ofFields (c :: colonFields cs)).length := by
    intro cs h c
    rcases eq_or_ne c [] with rfl | hc
    · exact Nat.le_trans (by simpa using h) (length_ofFields_colonFields [] cs)
    · have hone : (posixMoves (c :: cs)).length ≤ (posixMoves cs).length + 1 := by
        unfold posixMoves
        rw [List.filterMap_cons]
        split <;> simp
      rw [ofFields_down hc, List.length_cons]
      omega
  suffices h : (posixMoves cs).length ≤ (ofFields (colonFields cs)).length from ⟨h, behind cs h⟩
  fun_induction colonFields cs with
  | case1 => simp
  | case2 => simp
  | case3 c hc =>
    by_cases hne : c = []
    · simp [hne]
    · exact behind [] (by simp [colonFields]) c
  | case4 c cs ih => simpa using behind cs ih c
  | case5 c cs hdd ih => simpa using ih
  | case6 c c' cs hdd hne ih => exact behind (c' :: cs) ih c

/-- Where the translator follows the path. `fresh` says that the separator in front of the component
    has been written already: behind the root, a leading `.` and every `..`. There an empty component
    counts as a move up and `.` and `..` are copied; elsewhere only `.` is copied. -/
def navigableFrom : Bool → List CStr → Bool
  | _, [] => true
  | fresh, c :: cs =>
    if c = [] then (if fresh then cs.isEmpty else navigableFrom false cs)
    else if c = dot then false
    else if c = dotdot then !fresh && navigableFrom true cs
    else navigableFrom false cs

theorem ofFields_colonFields_iff (cs : List CStr) :
    (ofFields (colonFields cs) = posixMoves cs ↔ navigableFrom false cs = true) ∧
      ∀ c, (ofFields (c :: colonFields cs) = posixMoves (c :: cs) ↔
        navigableFrom true (c :: cs) = true) := by
  have longer : ∀ (m : Move) cs, m :: ofFields (colonFields cs) ≠ posixMoves cs := by
    intro m cs h
    have hlen := (length_posixMoves_le cs).1
    rw [← h, List.length_cons] at hlen
    omega
  have behind : ∀ cs, (ofFields (colonFields cs) = posixMoves cs ↔ navigableFrom false cs = true) →
      ∀ c, (ofFields (c :: colonFields cs) = posixMoves (c :: cs) ↔
        navigableFrom true (c :: cs) = true) := by
    intro cs h c
    rcases eq_or_ne c [] with rfl | hne
    · cases cs with
      | nil => simp [colonFields, navigableFrom]
      | cons c' cs =>
        rw [ofFields_up_colonFields, posixMoves_empty]
        simp [longer, navigableFrom]
    rcases eq_or_ne c dot with rfl | hd
    · rw [ofFields_dot, posixMoves_dot]
      simp [longer, navigableFrom, dot_ne_nil]
    rcases eq_or_ne c dotdot with rfl | hdd
    · rw [ofFields_dotdot, posixMoves_dotdot]
      simp [navigableFrom, dotdot_ne_nil, dotdot_ne_dot]
    · rw [ofFields_down hne, posixMoves_name hne hd hdd]
      simp [navigableFrom, hne, hd, hdd, h]
  suffices h : ofFields (colonFields cs) = posixMoves cs ↔ navigableFrom false cs = true from
    ⟨h, behind cs h⟩
  fun_induction colonFields cs with
  | case1 => simp [navigableFrom]
  | case2 => simp [navigableFrom, dotdot_ne_nil, dotdot_ne_dot]
  | case3 c hdd =>
    by_cases hne : c = []
    · simp [hne, navigableFrom]
    rcases eq_or_ne c dot with rfl | hd
    · rw [ofFields_dot]
      simp [navigableFrom, dot_ne_nil]
    · rw [ofFields_down hne, posixMoves_name hne hd hdd]
      simp [navigableFrom, hne, hd, hdd]
  | case4 c cs ih =>
    rw [ofFields_up, posixMoves_dotdot]
    simpa [navigableFrom, dotdot_ne_nil, dotdot_ne_dot] using behind cs ih c
  | case5 c cs hdd ih => simpa [navigableFrom] using ih
  | case6 c c' cs hdd hne ih =>
    rcases eq_or_ne c dot with rfl | hd
    · rw [ofFields_dot, posixMoves_dot]
      simp [longer, navigableFrom, dot_ne_nil]
    · rw [ofFields_down hne, posixMoves_name hne hd hdd]
      simpa [navigableFrom, hne, hd, hdd] using ih

/-! ### The stripped colon and the buffer -/

/-- Only a colon behind another character is stripped. -/
theorem stripColon_cases (s : CStr) :
    stripColon s = s ∨ ∃ x c, c ≠ ':' ∧ s = x ++ [c] ++ [':'] ∧ stripColon s = x ++ [c] := by
  unfold stripColon
  split
  · rename_i c x hrev
    have hs : s = x.reverse ++ [c] ++ [':'] := by
      rw [← List.reverse_reverse s, hrev]
      simp
    split
    · exact .inl rfl
    · rename_i hc
      exact .inr ⟨x.reverse, c, hc, hs, by rw [hs]; simp⟩
  · exact .inl rfl

theorem stripColon_of_ne (x : CStr) {c : Char} (hc : c ≠ ':') :
    stripColon (x ++ [c]) = x ++ [c] := by
  unfold stripColon
  split
  · rename_i hrev
    simp [hc] at hrev
  · rfl

/-- The stripped colon is no move. -/
theorem macSteps_stripColon (s : CStr) : macSteps (stripColon s) = macSteps s := by
  rcases stripColon_cases s with h | ⟨x, c, hc, rfl, h⟩
  · rw [h]
  · obtain ⟨init, last, hfields, hlast⟩ := splitOn_concat_of_ne x hc
    rw [h, macSteps, macSteps, splitOn_concat_self, hfields]
    cases init with
    | nil => simp
    | cons f init =>
      simp only [List.cons_append, List.tail_cons]
      exact (ofFields_concat_nil init hlast).symm

/-- All that posix9_path_to_mac would write: this buffer never stops the loop. -/
def wholeMacPath (default_volume : VolumeName) (posix_path : CStr) : CStr :=
  posix9_path_to_mac default_volume posix_path
    (default_volume.name.length + posix_path.length + 2)

theorem toMacStart_length (dv : VolumeName) (p : CStr) :
    (toMacStart dv p).1.length + (toMacStart dv p).2.length ≤ dv.name.length + p.length + 1 := by
  unfold toMacStart
  split
  · split <;> simp <;> omega
  · split
    · have h := skipSlash_length_le (p.drop 1)
      rw [List.length_drop] at h
      simp only [List.length_cons, List.length_nil]
      omega
    · split
      · rename_i hdd
        have h2 := atDotDot_length hdd
        have h := skipSlash_length_le (p.drop 2)
        rw [List.length_drop] at h
        simp only [List.length_cons, List.length_nil]
        omega
      · simp only [List.length_cons, List.length_nil]
        omega

theorem wholeMacPath_eq (dv : VolumeName) {p : CStr} (hp : p ≠ []) :
    wholeMacPath dv p = stripColon ((toMacStart dv p).1 ++ toMacWhole (toMacStart dv p).2) := by
  have h := toMacStart_length dv p
  simp only [wholeMacPath, posix9_path_to_mac, if_neg hp]
  rw [toMacLoop_of_length_le]
  omega

/-- A buffer that holds the result with its NUL receives all of it. -/
theorem posix9_path_to_mac_of_fits (dv : VolumeName) (p : CStr) {dst_size : ℕ}
    (hfit : (wholeMacPath dv p).length < dst_size) :
    posix9_path_to_mac dv p dst_size = wholeMacPath dv p := by
  rcases eq_or_ne p [] with rfl | hp
  · rfl
  rw [wholeMacPath_eq dv hp] at hfit ⊢
  simp only [posix9_path_to_mac, if_neg hp]
  generalize (toMacStart dv p).1 = out at *
  generalize (toMacStart dv p).2 = rest at *
  rcases toMacLoop_eq_or_full (dst_size - 1 - out.length) rest with heq | ⟨hpre, hfull⟩
  · rw [heq]
  -- the loop stopped one character short: the colon that is stripped anyway
  rcases stripColon_cases (out ++ toMacWhole rest) with hs | ⟨x, c, hc, hx, hs⟩
  · rw [hs, List.length_append] at hfit
    rw [hpre.eq_of_length_le (by omega)]
  · have hlen := congrArg List.length hx
    rw [hs] at hfit
    simp only [List.length_append, List.length_singleton] at hfit hlen
    have hle := hpre.length_le
    rcases Nat.lt_or_ge (toMacLoop (dst_size - 1 - out.length) rest).length
      (toMacWhole rest).length with hlt | hge
    · have hout : out ++ toMacLoop (dst_size - 1 - out.length) rest = x ++ [c] := by
        have hpre' : out ++ toMacLoop (dst_size - 1 - out.length) rest <+:
            x ++ [c] ++ [':'] := hx ▸ (List.prefix_append_right_inj out).mpr hpre
        refine List.prefix_of_prefix_length_le hpre' (List.prefix_append _ _) ?_
          |>.eq_of_length ?_ <;> simp <;> omega
      rw [hout, hs, stripColon_of_ne x hc]
    · rw [hpre.eq_of_length_le hge]

/-! ### Navigation -/

theorem atDot_iff (p : CStr) : atDot p = true ↔ ∃ t, p.splitOn '/' = dot :: t := by
  constructor
  · intro h
    unfold atDot at h
    split at h
    · exact ⟨[], by decide⟩
    · rename_i r
      exact ⟨r.splitOn '/', splitOn_cons_of_ne (by decide) (splitOn_cons_self '/' r)⟩
    · simp at h
  · rintro ⟨t, ht⟩
    rcases eq_of_splitOn ht with ⟨rfl, -⟩ | ⟨rest, rfl, -⟩ <;> rfl

/-- The paths posix9_path_to_mac follows: no `.` but a leading one, and behind the root slash of a
    path on the default volume, behind the leading `.` and behind every `..` neither a further slash
    nor another `..`. -/
def navigable : CStr → Bool
  | '/' :: p =>
    if volumesPrefix.isPrefixOf p then navigableFrom false ((p.drop 8).splitOn '/').tail
    else navigableFrom true (p.splitOn '/')
  | p =>
    if (p.splitOn '/').head? = some dot then navigableFrom true (p.splitOn '/').tail
    else navigableFrom false (p.splitOn '/')

section Relative

variable {c : Char} {p h : CStr} {t : List CStr}

theorem posixSteps_rel (hc : c ≠ '/') (ht : (c :: p).splitOn '/' = h :: t) :
    posixSteps (c :: p) = posixMoves (h :: t) := by
  unfold posixSteps
  split
  · simp_all
  · rw [ht]

theorem navigable_rel (hc : c ≠ '/') (ht : (c :: p).splitOn '/' = h :: t) :
    navigable (c :: p) = if h = dot then navigableFrom true t else navigableFrom false (h :: t) := by
  unfold navigable
  split
  · simp_all
  · simp [ht]

theorem toMacStart_rel (dv : VolumeName) (hc : c ≠ '/') (ht : (c :: p).splitOn '/' = h :: t) :
    toMacStart dv (c :: p) =
      if h = dot then ([':'], skipSlash ((c :: p).drop 1))
      else if h = dotdot then ([':', ':'], skipSlash ((c :: p).drop 2))
      else ([':'], c :: p) := by
  have hd : atDot (c :: p) = true ↔ h = dot := by simp [atDot_iff, ht]
  have hdd : atDotDot (c :: p) = true ↔ h = dotdot := by simp [atDotDot_iff, ht]
  unfold toMacStart
  split
  · simp_all
  · simp only [hd, hdd]

/-- The first component of a relative path is not empty. -/
theorem head_ne_nil (hc : c ≠ '/') (ht : (c :: p).splitOn '/' = h :: t) : h ≠ [] := by
  rintro rfl
  rcases eq_of_splitOn ht with ⟨h, -⟩ | ⟨rest, h, -⟩ <;> simp_all

end Relative

/-- What the translator writes behind a leading colon for the components `t` that follow a consumed
    slash, when there are any. -/
theorem macSteps_behind {rest : CStr} {t : List CStr} (hrest : ':' ∉ rest)
    (ht : (t = [] ∧ rest = []) ∨ rest.splitOn '/' = t) :
    ofFields ((toMacWhole rest).splitOn ':') = posixMoves t ↔ navigableFrom true t = true := by
  rcases ht with ⟨rfl, rfl⟩ | rfl
  · simp [navigableFrom]
  · obtain ⟨h, t, ht⟩ := exists_fields '/' rest
    rw [toMacWhole_fields hrest ht, ht]
    exact (ofFields_colonFields_iff t).2 h

/-- posix9_path_to_mac keeps the moves of a path exactly when the path is `navigable`. -/
theorem posix9_path_to_mac_steps (default_volume : VolumeName) (posix_path : CStr)
    (hcolon : ':' ∉ posix_path) (dst_size : ℕ)
    (hfit : (wholeMacPath default_volume posix_path).length < dst_size) :
    macSteps (posix9_path_to_mac default_volume posix_path dst_size) = posixSteps posix_path ↔
      navigable posix_path = true := by
  rw [posix9_path_to_mac_of_fits default_volume posix_path hfit]
  rcases posix_path with _ | ⟨c, p⟩
  · simp [wholeMacPath, posix9_path_to_mac, macSteps, posixSteps, navigable, navigableFrom, dot]
  rw [wholeMacPath_eq default_volume (by simp), macSteps_stripColon]
  have hp : ':' ∉ p := fun h => hcolon (List.mem_cons_of_mem _ h)
  rcases eq_or_ne c '/' with rfl | hc
  · simp only [toMacStart, posixSteps, navigable]
    split
    · obtain ⟨h, t, ht⟩ := exists_fields '/' (p.drop 8)
      rw [List.nil_append, macSteps, toMacWhole_fields (fun hm => hp (List.mem_of_mem_drop hm)) ht, ht]
      exact (ofFields_colonFields_iff t).1
    · rw [macSteps, List.append_assoc, List.singleton_append,
        List.splitOn_append_cons_self_of_not_mem default_volume.no_colon, List.tail_cons]
      exact macSteps_behind hp (.inr rfl)
  obtain ⟨h, t, ht⟩ := exists_fields '/' (c :: p)
  have hskip : ∀ n, ':' ∉ skipSlash ((c :: p).drop n) := fun n hm =>
    hcolon (List.mem_of_mem_drop ((skipSlash_sublist _).mem hm))
  rw [posixSteps_rel hc ht, navigable_rel hc ht, toMacStart_rel default_volume hc ht]
  rcases eq_or_ne h dot with rfl | hd
  · simp only [if_true, List.singleton_append]
    rw [posixMoves_dot, macSteps_colon]
    exact macSteps_behind (hskip 1) (skip_component ht)
  rcases eq_or_ne h dotdot with rfl | hdd
  · simp only [if_neg hd, if_true, List.cons_append, List.nil_append]
    rw [posixMoves_dotdot, macSteps_colon, splitOn_cons_self]
    obtain ⟨f, fs, hf⟩ := exists_fields ':' (toMacWhole (skipSlash ((c :: p).drop 2)))
    rw [hf, ofFields_up, ← hf]
    simpa [navigableFrom, dotdot_ne_nil, dotdot_ne_dot] using
      macSteps_behind (hskip 2) (skip_component ht)
  · have hne := head_ne_nil hc ht
    simp only [if_neg hd, if_neg hdd, List.singleton_append]
    rw [macSteps_colon, toMacWhole_fields hcolon ht, ofFields_down hne,
      posixMoves_name hne hd hdd]
    simpa [navigableFrom, hne, hd, hdd] using (ofFields_colonFields_iff t).1

/-- The translation of `foo/../bar`, run as the theorem says. -/
theorem posix9_path_to_mac_steps_sibling :
    macSteps (posix9_path_to_mac macintoshHD "foo/../bar".toList 256) =
      posixSteps "foo/../bar".toList :=
  (posix9_path_to_mac_steps macintoshHD "foo/../bar".toList (by decide) 256
    (by decide +kernel)).mpr (by decide +kernel)

/-- `../../a` goes up twice; its translation `::..:a` goes up once and down into a child named `..`. -/
theorem posix9_path_to_mac_loses_dotdot :
    ':' ∉ "../../a".toList ∧ (wholeMacPath macintoshHD "../../a".toList).length < 256 ∧
      macSteps (posix9_path_to_mac macintoshHD "../../a".toList 256) ≠
        posixSteps "../../a".toList := by
  decide +kernel

end Posix9
