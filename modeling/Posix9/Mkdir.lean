import Posix9.Truncation

/-! The parent mkdir creates a directory in. mkdir cuts the pathname of posix9_path_to_mac at its last colon, and
    what stands in front of it is a pathname of its own only where that colon does nothing but separate. -/

namespace Posix9
open Fields Walk
open DirState (parentPath)

/-! ### Pathnames and the File Manager -/

/-- The rules a File Manager resolves pathnames by: the tree of its directories and where walks start, both as they
    are in a state. HGetVol gives the default directory. -/
structure FileManager.Catalog.Pathnames {fm : FileManager} (cat : fm.Catalog) where
  tree : fm.State → Walk.Catalog CStr (ℤ × ℤ)
  root : fm.State → Start → Option (ℤ × ℤ)
  resolves : ∀ (mac_path : CStr) (mac : fm.State), mac_path ≠ [] → mac_path.length ≤ 255 →
    directoryOf cat.toInfo mac_path mac = macResolve (tree mac) (root mac) mac_path
  default : ∀ (mac : fm.State) (dir : ℤ × ℤ), root mac .default = some dir → (cat.HGetVol mac).2.2 = dir

/-- The name a Mac pathname ends in. -/
def macLeaf (mac_path : CStr) : Option CStr :=
  match (macDenotes mac_path).2.getLast? with
  | some (.down name) => some name
  | _ => none

/-- The directory the object of a Mac pathname is in: where the walk leads without its last move. -/
def macContainer {δ : Type*} (tree : Walk.Catalog CStr δ) (root : Start → Option δ) (mac_path : CStr) : Option δ :=
  (root (macDenotes mac_path).1).bind (tree.follow · (macDenotes mac_path).2.dropLast)

/-- Whatever is on the disks, mkdir asks for a directory of the name its pathname ends in, in the container the
    pathname designates. -/
def CreatesInContainer (default_volume : VolumeName) (path : CStr) : Prop :=
  let mac_path := posix9_path_to_mac default_volume path POSIX9_PATH_MAX
  ∃ leaf, macLeaf mac_path = some leaf ∧
    ∀ (fm : FileManager) (cat : fm.Catalog) (rules : cat.Pathnames) (s : DirState fm) (dir : ℤ × ℤ),
      macContainer (rules.tree s.mac) (rules.root s.mac) mac_path = some dir →
      s.mkdir cat default_volume path =
        (s.initFor cat default_volume path).dirCreate cat dir.1 dir.2 (c_to_pstr leaf)

/-! ### The condition -/

/-- The last of these components that is not empty. -/
def lastOf (cs : List CStr) : CStr := (cs.reverse.find? (· ≠ [])).getD []

/-- The last component of a POSIX path; slashes behind it do not count. -/
def lastName (path : CStr) : CStr := lastOf (path.splitOn '/')

/-- What the translation has in front of the last component: no colon, the leading colon only, the name of a volume
    and its colon, a colon that goes up, or the colon behind another name. Of `/Volumes/` it has no component. -/
inductive Ahead where | nothing | leading | volume | up | name | missing
  deriving DecidableEq

/-- The colon, if there is one, is a separator only. -/
def Ahead.separates : Ahead → Bool
  | .nothing | .leading | .name => true
  | .volume | .up | .missing => false

/-- What the translation has in front of the last of these components, behind `a`. `fresh` says that the separator
    in front of the first one has been written already: an empty component is then one more colon, and `..` a name. -/
def aheadOfLast : Bool → Ahead → List CStr → Ahead
  | _, a, [] => a
  | fresh, a, c :: cs =>
    if cs.all List.isEmpty then a
    else if fresh then aheadOfLast false (if c = [] then .up else .name) cs
    else if c = dotdot then aheadOfLast true .up cs
    else if c = [] then aheadOfLast false a cs
    else aheadOfLast false .name cs

def leafPlace : CStr → Ahead
  | '/' :: p =>
    if volumesPrefix.isPrefixOf p then
      match (p.drop 8).splitOn '/' with
      | [] => .missing
      | v :: cs =>
        if cs.all List.isEmpty then if v = [] then .missing else .nothing
        else aheadOfLast false (if v = [] then .leading else .volume) cs
    else aheadOfLast true .volume (p.splitOn '/')
  | p =>
    match p.splitOn '/' with
    | [] => .leading
    | c :: cs =>
      if c = dot then aheadOfLast true .leading cs
      else if c = dotdot then aheadOfLast true .up cs
      else aheadOfLast true .leading (c :: cs)

example : leafPlace "a/x".toList = .name ∧ leafPlace "../x".toList = .up ∧ leafPlace "/x".toList = .volume ∧
    leafPlace "./x".toList = .leading ∧ leafPlace "/Volumes/x".toList = .nothing := by decide +kernel

/-! ### The fields of the translation -/

/-- What is in front of the last field, by the fields there. -/
def Ahead.of : List CStr → Ahead
  | [] => .nothing
  | [v] => if v = [] then .leading else .volume
  | _ :: f :: fs => if (f :: fs).getLast? = some [] then .up else .name

theorem Ahead.of_concat {fs : List CStr} (hfs : fs ≠ []) (f : CStr) :
    Ahead.of (fs ++ [f]) = if f = [] then .up else .name := by
  rcases fs with _ | ⟨g, gs⟩
  · exact absurd rfl hfs
  obtain ⟨h, hs, hgs⟩ : ∃ h hs, gs ++ [f] = h :: hs := List.exists_cons_of_ne_nil (by simp)
  rw [List.cons_append, hgs, Ahead.of, ← hgs, List.getLast?_concat]
  simp

/-- The fields behind a separator that has been written, or that has not. -/
def fieldsBehind : Bool → List CStr → List CStr
  | true, [] => []
  | true, c :: cs => c :: colonFields cs
  | false, cs => colonFields cs

section

variable {leaf : CStr} {slashes : List CStr}

theorem colonFields_slashes (h : slashes.all List.isEmpty = true) :
    colonFields slashes = if slashes = [] then [] else [[]] := by
  induction slashes with
  | nil => rfl
  | cons c cs ih =>
    obtain ⟨hc, hcs⟩ := Bool.and_eq_true_iff.mp (by simpa using h : (c.isEmpty && cs.all List.isEmpty) = true)
    obtain rfl := List.isEmpty_iff.mp hc
    rcases cs with _ | ⟨d, ds⟩
    · rfl
    · rw [colonFields_empty, ih hcs]
      simp

/-- Slashes behind the last name are one empty field. -/
theorem fields_ahead (hleaf : leaf ≠ []) (hdd : leaf ≠ dotdot) (hslashes : slashes.all List.isEmpty = true)
    (cs : List CStr) : ∀ (fresh : Bool) (pre : List CStr), pre ≠ [] → ∃ fs,
      pre ++ fieldsBehind fresh (cs ++ leaf :: slashes) = fs ++ leaf :: (if slashes = [] then [] else [[]]) ∧
      Ahead.of fs = aheadOfLast fresh (Ahead.of pre) (cs ++ leaf :: slashes) := by
  have hmore : ∀ cs, (cs ++ leaf :: slashes).all List.isEmpty = false := by
    intro cs
    simp [hleaf]
  induction cs with
  | nil =>
    intro fresh pre _
    refine ⟨pre, ?_, ?_⟩
    · cases fresh
      · rw [List.nil_append, fieldsBehind, colonFields_name hleaf hdd, colonFields_slashes hslashes]
      · rw [List.nil_append, fieldsBehind, colonFields_slashes hslashes]
    · rw [List.nil_append, aheadOfLast, if_pos hslashes]
  | cons c cs ih =>
    intro fresh pre hpre
    obtain ⟨d, ds, hrest⟩ : ∃ d ds, cs ++ leaf :: slashes = d :: ds := List.exists_cons_of_ne_nil (by simp)
    rw [List.cons_append, aheadOfLast, hmore cs]
    simp only [Bool.false_eq_true, if_false]
    have hnext : ∀ (fresh' : Bool) (f : CStr), ∃ fs,
        pre ++ f :: fieldsBehind fresh' (cs ++ leaf :: slashes) =
          fs ++ leaf :: (if slashes = [] then [] else [[]]) ∧
        Ahead.of fs = aheadOfLast fresh' (if f = [] then .up else .name) (cs ++ leaf :: slashes) := by
      intro fresh' f
      obtain ⟨fs, hfs, hof⟩ := ih fresh' (pre ++ [f]) (by simp)
      rw [Ahead.of_concat hpre] at hof
      rw [List.append_assoc, List.singleton_append] at hfs
      exact ⟨fs, hfs, hof⟩
    cases fresh with
    | true =>
      rw [if_pos rfl]
      exact hnext false c
    | false =>
      simp only [Bool.false_eq_true, if_false]
      rcases eq_or_ne c dotdot with rfl | hc
      · rw [if_pos rfl, fieldsBehind, hrest, colonFields_dotdot, ← hrest]
        have hup := hnext true []
        rw [if_pos rfl, hrest] at hup
        rw [hrest]
        exact hup
      rw [if_neg hc]
      rcases eq_or_ne c [] with rfl | hne
      · rw [if_pos rfl, fieldsBehind, hrest, colonFields_empty, ← hrest]
        exact ih false pre hpre
      · rw [if_neg hne, fieldsBehind, colonFields_name hne hc]
        have hname := hnext false c
        rw [if_neg hne] at hname
        exact hname

theorem lastOf_cons (c : CStr) (cs : List CStr) :
    lastOf (c :: cs) = if cs.all List.isEmpty then c else lastOf cs := by
  rw [lastOf, lastOf, List.reverse_cons, List.find?_append]
  by_cases hcs : cs.all List.isEmpty = true
  · have hnone : cs.reverse.find? (· ≠ []) = none := by
      rw [List.find?_eq_none]
      intro d hd
      simpa using List.all_eq_true.mp hcs d (List.mem_reverse.mp hd)
    rw [if_pos hcs, hnone, Option.none_or]
    by_cases hc : c = [] <;> simp [hc]
  · rw [if_neg hcs]
    obtain ⟨d, hd, hne⟩ : ∃ d ∈ cs, d ≠ [] := by simpa using hcs
    rcases hfind : cs.reverse.find? (· ≠ []) with _ | leaf
    · rw [List.find?_eq_none] at hfind
      exact absurd (hfind d (List.mem_reverse.mpr hd)) (by simpa using hne)
    · rfl

/-- What stands in front of the last name and behind it. -/
theorem lastOf_fields {cs : List CStr} (h : lastOf cs ≠ []) :
    ∃ front slashes, slashes.all List.isEmpty = true ∧ cs = front ++ lastOf cs :: slashes := by
  induction cs with
  | nil => exact absurd rfl h
  | cons c cs ih =>
    rw [lastOf_cons] at h ⊢
    split
    · exact ⟨[], cs, ‹_›, rfl⟩
    · rw [if_neg ‹_›] at h
      obtain ⟨front, slashes, hslashes, hcs⟩ := ih h
      exact ⟨c :: front, slashes, hslashes, by rw [List.cons_append, ← hcs]⟩

theorem lastOf_slashes {cs : List CStr} (h : cs.all List.isEmpty = true) : lastOf cs = [] := by
  cases cs with
  | nil => rfl
  | cons c cs =>
    rw [List.all_cons, Bool.and_eq_true] at h
    rw [lastOf_cons, if_pos h.2, List.isEmpty_iff.mp h.1]

end

/-- The fields `text` has behind `fs` are the last name and an empty one at most. -/
def EndsInName (text name : CStr) (place : Ahead) : Prop :=
  ∃ fs e, (e = [] ∨ e = [[]]) ∧ text.splitOn ':' = fs ++ name :: e ∧ Ahead.of fs = place

section

variable {dv : VolumeName} {p : CStr}

/-- The loop behind a start that is already written. -/
theorem endsInName_started {pre : List CStr} {start rest : CStr} (hpre : pre ≠ []) (hcolon : ':' ∉ rest)
    (hleaf : lastOf (rest.splitOn '/') ≠ []) (hdd : lastOf (rest.splitOn '/') ≠ dotdot)
    (hwrite : (start ++ toMacWhole rest).splitOn ':' = pre ++ (toMacWhole rest).splitOn ':') :
    EndsInName (start ++ toMacWhole rest) (lastOf (rest.splitOn '/'))
      (aheadOfLast true (Ahead.of pre) (rest.splitOn '/')) := by
  obtain ⟨front, slashes, hslashes, hcs⟩ := lastOf_fields hleaf
  obtain ⟨fs, hfs, hof⟩ := fields_ahead hleaf hdd hslashes front true pre hpre
  obtain ⟨h, t, ht⟩ := exists_fields '/' rest
  rw [← hcs] at hfs hof
  refine ⟨fs, if slashes = [] then [] else [[]], by split <;> simp, ?_, hof⟩
  rw [hwrite, ← hfs, ht, toMacWhole_fields hcolon ht, fieldsBehind]

theorem lastName_root (p : CStr) : lastName ('/' :: p) = lastOf (p.splitOn '/') := by
  rw [lastName, splitOn_cons_self, lastOf_cons]
  split
  · exact (lastOf_slashes ‹_›).symm
  · rfl

theorem endsInName_volumes (hcolon : ':' ∉ p) (hvol : volumesPrefix.isPrefixOf p = true)
    (hleaf : lastName ('/' :: p) ≠ []) (hdd : lastName ('/' :: p) ≠ dotdot)
    (hplace : leafPlace ('/' :: p) ≠ .missing) :
    EndsInName (toMacWhole (p.drop 8)) (lastName ('/' :: p)) (leafPlace ('/' :: p)) := by
  have hrest : ':' ∉ p.drop 8 := fun hm => hcolon (List.mem_of_mem_drop hm)
  obtain ⟨v, cs, hv⟩ := exists_fields '/' (p.drop 8)
  have hname : lastName ('/' :: p) = if (v :: cs).all List.isEmpty then "Volumes".toList
      else if cs.all List.isEmpty then v else lastOf cs := by
    rw [lastName_root, splitOn_volumes hvol, hv, lastOf_cons, lastOf_cons]
  have hstart : leafPlace ('/' :: p) =
      if cs.all List.isEmpty then if v = [] then .missing else .nothing
      else aheadOfLast false (if v = [] then .leading else .volume) cs := by
    rw [leafPlace, if_pos hvol, hv]
  rw [hstart] at hplace ⊢
  rw [hname] at hleaf hdd ⊢
  by_cases hcs : cs.all List.isEmpty = true
  · have hne : v ≠ [] := by
      intro h
      rw [if_pos hcs, if_pos h] at hplace
      exact hplace rfl
    have hall : ¬ (v :: cs).all List.isEmpty = true := by simp [hne]
    rw [if_pos hcs, if_neg hne, if_neg hall, if_pos hcs]
    refine ⟨[], if cs = [] then [] else [[]], by split <;> simp, ?_, rfl⟩
    rw [toMacWhole_fields hrest hv, colonFields_slashes hcs, List.nil_append]
  · have hall : ¬ (v :: cs).all List.isEmpty = true := by
      rw [List.all_cons, Bool.and_eq_true]
      exact fun h => hcs h.2
    rw [if_neg hall, if_neg hcs] at hleaf hdd ⊢
    rw [if_neg hcs]
    obtain ⟨front, slashes, hslashes, hfront⟩ := lastOf_fields hleaf
    obtain ⟨fs, hfs, hof⟩ := fields_ahead hleaf hdd hslashes front false [v] (by simp)
    rw [← hfront] at hfs hof
    refine ⟨fs, if slashes = [] then [] else [[]], by split <;> simp, ?_, hof⟩
    rw [toMacWhole_fields hrest hv]
    exact hfs

theorem endsInName_root (hcolon : ':' ∉ p) (hvol : ¬ volumesPrefix.isPrefixOf p = true)
    (hleaf : lastName ('/' :: p) ≠ []) (hdd : lastName ('/' :: p) ≠ dotdot) :
    EndsInName (dv.name ++ [':'] ++ toMacWhole p) (lastName ('/' :: p)) (leafPlace ('/' :: p)) := by
  have hstart : leafPlace ('/' :: p) = aheadOfLast true (Ahead.of [dv.name]) (p.splitOn '/') := by
    rw [leafPlace, if_neg hvol, Ahead.of, if_neg dv.ne_nil]
  rw [lastName_root] at hleaf hdd ⊢
  rw [hstart]
  refine endsInName_started (by simp) hcolon hleaf hdd ?_
  rw [List.append_assoc, List.singleton_append, List.splitOn_append_cons_self_of_not_mem dv.no_colon]
  rfl

theorem endsInName_relative {c : Char} (hc : c ≠ '/') (hcolon : ':' ∉ c :: p) (hleaf : lastName (c :: p) ≠ [])
    (hord : Ordinary (lastName (c :: p))) :
    EndsInName ((toMacStart dv (c :: p)).1 ++ toMacWhole (toMacStart dv (c :: p)).2) (lastName (c :: p))
      (leafPlace (c :: p)) := by
  obtain ⟨h, t, ht⟩ := exists_fields '/' (c :: p)
  have hskip : ∀ n, ':' ∉ skipSlash ((c :: p).drop n) := fun n hm =>
    hcolon (List.mem_of_mem_drop ((skipSlash_sublist _).mem hm))
  have hplace : leafPlace (c :: p) = if h = dot then aheadOfLast true .leading t
      else if h = dotdot then aheadOfLast true .up t else aheadOfLast true .leading (h :: t) := by
    unfold leafPlace
    split
    · simp_all
    · rw [ht]
  -- behind a leading `.` or `..` there is a name, since it is not itself the last one
  have hbehind : h = dot ∨ h = dotdot →
      (skipSlash ((c :: p).drop h.length)).splitOn '/' = t ∧ lastName (c :: p) = lastOf t := by
    intro hd
    have hlast : lastName (c :: p) = if t.all List.isEmpty then h else lastOf t := by rw [lastName, ht, lastOf_cons]
    have hmore : ¬ t.all List.isEmpty = true := by
      intro hall
      rw [hlast, if_pos hall] at hord
      exact hd.elim hord.2.1 hord.2.2
    rw [if_neg hmore] at hlast
    refine ⟨?_, hlast⟩
    rcases skip_component ht with ⟨rfl, -⟩ | hrest
    · exact absurd rfl hmore
    · exact hrest
  rw [toMacStart_rel dv hc ht, hplace]
  rcases eq_or_ne h dot with rfl | hd
  · obtain ⟨hrest, hname⟩ := hbehind (.inl rfl)
    rw [if_pos rfl, if_pos rfl]
    rw [hname, ← hrest] at hleaf hord ⊢
    exact endsInName_started (List.cons_ne_nil [] []) (hskip 1) hleaf hord.2.2 (splitOn_cons_self ':' _)
  rw [if_neg hd, if_neg hd]
  rcases eq_or_ne h dotdot with rfl | hdd
  · obtain ⟨hrest, hname⟩ := hbehind (.inr rfl)
    rw [if_pos rfl, if_pos rfl]
    rw [hname, ← hrest] at hleaf hord ⊢
    exact endsInName_started (List.cons_ne_nil [] [[]]) (hskip 2) hleaf hord.2.2 (splitOn_replicate_append 2 _)
  · rw [if_neg hdd, if_neg hdd, ← ht]
    exact endsInName_started (List.cons_ne_nil [] []) hcolon hleaf hord.2.2 (splitOn_cons_self ':' _)

/-- A text whose last field is not empty ends in another character than the separator. -/
theorem ends_of_splitOn {text name : CStr} {fs : List CStr} (hname : name ≠ [])
    (h : text.splitOn ':' = fs ++ [name]) : ∃ x c, c ≠ ':' ∧ text = x ++ [c] := by
  rcases List.eq_nil_or_concat text with rfl | ⟨x, c, rfl⟩
  · rw [List.splitOn_nil] at h
    have hempty : [] ++ [[]] = fs ++ [name] := h
    exact absurd (List.singleton_inj.mp (List.append_inj_right' hempty rfl)).symm hname
  · refine ⟨x, c, ?_, by simp⟩
    rintro rfl
    rw [List.concat_eq_append, splitOn_concat_self] at h
    exact hname (List.singleton_inj.mp (List.append_inj_right' h rfl)).symm

/-- Stripping takes the empty field away. -/
theorem splitOn_stripColon {text name : CStr} {place : Ahead} (hname : name ≠ []) (h : EndsInName text name place) :
    ∃ fs, (stripColon text).splitOn ':' = fs ++ [name] ∧ Ahead.of fs = place := by
  obtain ⟨fs, e, he, hfields, hof⟩ := h
  refine ⟨fs, ?_, hof⟩
  rcases he with rfl | rfl
  · obtain ⟨x, c, hc, rfl⟩ := ends_of_splitOn hname hfields
    rw [stripColon_of_ne x hc, hfields]
  · obtain ⟨y, rfl⟩ : ∃ y, text = y ++ [':'] := by
      rcases List.eq_nil_or_concat text with rfl | ⟨y, c, rfl⟩
      · rw [List.splitOn_nil] at hfields
        have hlen := congrArg List.length hfields
        simp at hlen
      · rcases eq_or_ne c ':' with rfl | hc
        · exact ⟨y, by simp⟩
        · obtain ⟨init, last, heq, hlast⟩ := splitOn_concat_of_ne y hc
          rw [List.concat_eq_append, heq, List.append_cons fs name [[]]] at hfields
          exact absurd (List.singleton_inj.mp (List.append_inj_right' hfields rfl)) hlast
    rw [splitOn_concat_self, List.append_cons fs name [[]]] at hfields
    have hy := List.append_inj_left' hfields rfl
    obtain ⟨x, c, hc, rfl⟩ := ends_of_splitOn hname hy
    have hstrip : stripColon (x ++ [c] ++ [':']) = x ++ [c] := by simp [stripColon, hc]
    rw [hstrip, hy]

/-- The last field of the translation is the last name of the path. -/
theorem wholeMacPath_fields (dv : VolumeName) {path : CStr} (hcolon : ':' ∉ path) (hleaf : lastName path ≠ [])
    (hord : Ordinary (lastName path)) (hplace : leafPlace path ≠ .missing) : ∃ fs,
      (wholeMacPath dv path).splitOn ':' = fs ++ [lastName path] ∧ Ahead.of fs = leafPlace path := by
  have hne : path ≠ [] := by
    rintro rfl
    exact hleaf rfl
  rw [wholeMacPath_eq dv hne]
  refine splitOn_stripColon hleaf ?_
  obtain ⟨c, p, rfl⟩ := List.exists_cons_of_ne_nil hne
  have hp : ':' ∉ p := fun h => hcolon (List.mem_cons_of_mem _ h)
  rcases eq_or_ne c '/' with rfl | hc
  · by_cases hvol : volumesPrefix.isPrefixOf p = true
    · rw [toMacStart, if_pos hvol, List.nil_append]
      exact endsInName_volumes hp hvol hleaf hord.2.2 hplace
    · rw [toMacStart, if_neg hvol]
      exact endsInName_root hp hvol hleaf hord.2.2
  · exact endsInName_relative hc hcolon hleaf hord

end

/-! ### Where the cut is right -/

/-- The fields in front of the last one are the parent, where there are any. -/
theorem parent_fields {m leaf : CStr} {fs : List CStr} (hm : m.splitOn ':' = fs ++ [leaf]) :
    (fs = [] ∧ ':' ∉ m ∧ m = leaf) ∨ ∃ a, ':' ∉ leaf ∧ m = a ++ ':' :: leaf ∧ a.splitOn ':' = fs := by
  by_cases hcolon : ':' ∈ m
  · obtain ⟨a, b, hb, rfl⟩ := split_last hcolon
    rw [List.splitOn_append_cons_self, List.splitOn_eq_singleton hb] at hm
    obtain ⟨rfl, hleaf⟩ := List.append_inj' hm rfl
    obtain rfl := List.singleton_inj.mp hleaf
    exact .inr ⟨a, hb, rfl, rfl⟩
  · rw [List.splitOn_eq_singleton hcolon] at hm
    have hone : [] ++ [m] = fs ++ [leaf] := hm
    obtain ⟨rfl, hleaf⟩ := List.append_inj' hone rfl
    exact .inl ⟨rfl, hcolon, List.singleton_inj.mp hleaf⟩

section

variable {fm : FileManager} {cat : fm.Catalog} {dv : VolumeName} {s : DirState fm} {path a leaf : CStr}

/-- Without a parent mkdir creates in the default directory. -/
theorem mkdir_default (rules : cat.Pathnames) {dir : ℤ × ℤ}
    (hfit : (wholeMacPath dv path).length < POSIX9_PATH_MAX) (hparent : parentPath (wholeMacPath dv path) = [])
    (hdir : (rules.root s.mac .default).bind ((rules.tree s.mac).follow · []) = some dir) :
    s.mkdir cat dv path = (s.initFor cat dv path).dirCreate cat dir.1 dir.2
      (c_to_pstr ((afterLast ':' (wholeMacPath dv path)).getD (wholeMacPath dv path))) := by
  obtain ⟨hmac, hcopy⟩ := mac_path_of_fits hfit
  have hinit : (s.initFor cat dv path).mac = s.mac := (CwdState.initFor_spec cat.toInfo dv s.cwd path).1
  have hroot : rules.root s.mac .default = some dir := by
    rcases hr : rules.root s.mac .default with _ | d <;> rw [hr] at hdir
    · cases hdir
    · exact hdir
  rw [← rules.default s.mac dir hroot, DirState.mkdir]
  rw [hmac, hcopy, hparent, if_neg (not_not.mpr rfl), hinit]

/-- mkdir below a parent that is found. -/
theorem mkdir_parent {dir : ℤ × ℤ} (hfit : (wholeMacPath dv path).length < POSIX9_PATH_MAX)
    (hparent : parentPath (wholeMacPath dv path) ≠ [])
    (hdir : directoryOf cat.toInfo (parentPath (wholeMacPath dv path)) s.mac = some dir) :
    s.mkdir cat dv path = (s.initFor cat dv path).dirCreate cat dir.1 dir.2
      (c_to_pstr ((afterLast ':' (wholeMacPath dv path)).getD (wholeMacPath dv path))) := by
  obtain ⟨hmac, hcopy⟩ := mac_path_of_fits hfit
  have hinit : (s.initFor cat dv path).mac = s.mac := (CwdState.initFor_spec cat.toInfo dv s.cwd path).1
  rw [DirState.mkdir]
  rw [hmac, hcopy, if_pos hparent, hinit]
  rcases hmake : fm.FSMakeFSSpec (c_to_pstr (parentPath (wholeMacPath dv path))) s.mac with ⟨err, spec⟩
  rcases hnamed : cat.named spec s.mac with ⟨err', info⟩
  have hinfo : cat.PBGetCatInfoSync spec s.mac = (err', info.info) := by
    rw [cat.info_eq, ← FileManager.Catalog.named, hnamed]
  simp only [directoryOf, hmake, hinfo] at hdir
  split at hdir
  · cases hdir
  rename_i herr
  split at hdir
  · rename_i hfound
    obtain rfl := Option.some.inj hdir
    dsimp only
    rw [if_neg herr, hnamed]
    dsimp only
    rw [if_neg (not_not.mpr hfound.1)]
    rfl
  · cases hdir

end

/-- A name behind a colon is the last move, and the colon closes the walk in front of it. -/
theorem ofFields_concat {leaf : CStr} (hleaf : leaf ≠ []) (fs : List CStr) :
    ofFields (fs ++ [leaf]) = ofFields (fs ++ [[]]) ++ [.down leaf] := by
  induction fs with
  | nil => exact ofFields_down hleaf []
  | cons f fs ih =>
    rcases eq_or_ne f [] with rfl | hf
    · obtain ⟨g, gs, hg⟩ : ∃ g gs, fs ++ [leaf] = g :: gs := List.exists_cons_of_ne_nil (by simp)
      obtain ⟨h, hs, hh⟩ : ∃ h hs, fs ++ [([] : CStr)] = h :: hs := List.exists_cons_of_ne_nil (by simp)
      rw [List.cons_append, hg, ofFields_up, ← hg, ih, List.cons_append, hh, ofFields_up]
      rfl
    · rw [List.cons_append, ofFields_down hf, ih, List.cons_append, ofFields_down hf]
      rfl

/-- The colon behind an empty field goes up. -/
theorem ofFields_concat_up (fs : List CStr) : ofFields (fs ++ [[]] ++ [[]]) = ofFields (fs ++ [[]]) ++ [.up] := by
  induction fs with
  | nil => rfl
  | cons f fs ih =>
    rcases eq_or_ne f [] with rfl | hf
    · obtain ⟨g, gs, hg⟩ : ∃ g gs, fs ++ [([] : CStr)] = g :: gs := List.exists_cons_of_ne_nil (by simp)
      have hgs : fs ++ [[]] ++ [[]] = g :: (gs ++ [[]]) := by rw [hg, List.cons_append]
      rw [List.cons_append, List.cons_append, hgs, ofFields_up, ← hgs, ih, hg, ofFields_up]
      rfl
    · rw [List.cons_append, List.cons_append, ofFields_down hf, ih, ofFields_down hf]
      rfl

/-! ### A File Manager that finds everything -/

/-- Volume -1 is the default one and -2 every other; a directory is known by its depth. -/
def depthRoot : Start → Option (ℤ × ℤ)
  | .default => some (-1, 0)
  | .volume _ => some (-2, 0)

def depthOf (mac_path : CStr) : ℤ × ℤ :=
  match macDenotes mac_path with
  | (.default, moves) => (-1, height moves)
  | (.volume _, moves) => (-2, height moves)

/-- Its state is the last directory that was asked for. -/
def depthDisk : FileManager where
  State := Option (ℤ × ℤ × Str255)
  isOpen _ _ := false
  FSMakeFSSpec name _ := (noErr, ⟨(depthOf name.chars).1, (depthOf name.chars).2, c_to_pstr []⟩)
  FSpCreate _ st := (vLckdErr, st)
  FSpOpenDF _ _ st := ((fnfErr, 0), st)
  FSClose _ st := (rfNumErr, st)
  FSRead _ _ st := ((rfNumErr, []), st)
  FSWrite _ _ st := ((rfNumErr, 0), st)
  SetFPos _ _ _ st := (rfNumErr, st)
  GetFPos _ _ := (rfNumErr, 0)
  SetEOF _ _ st := (rfNumErr, st)

def depthCatalog : depthDisk.Catalog where
  GetEOF _ _ := (rfNumErr, 0)
  PBGetCatInfoSync spec _ := (noErr, ⟨ioDirMask, spec.parID, 0⟩)
  PBFlushFileSync _ st := (rfNumErr, st)
  PBFlushVolSync _ st := (noErr, st)
  HGetVol _ := (noErr, c_to_pstr "Macintosh HD".toList, -1, 0)
  HSetVol _ _ st := (noErr, st)
  catInfo _ dirID name _ _ := (noErr, ⟨name, ioDirMask, dirID, 0, 0, 0⟩)
  info_eq _ _ := rfl
  FSpDelete _ st := (fnfErr, st)
  FSpRename _ _ st := (fnfErr, st)
  DirCreate vRefNum dirID name _ := (noErr, some (vRefNum, dirID, name))

theorem macResolve_depths (m : CStr) : macResolve (Catalog.depths CStr ℤ) depthRoot m = some (depthOf m) := by
  rw [macResolve, depthOf]
  rcases macDenotes m with ⟨_ | v, moves⟩
  · rw [depthRoot, Option.bind_some, Catalog.follow_depths, Int.zero_add]
  · rw [depthRoot, Option.bind_some, Catalog.follow_depths, Int.zero_add]

theorem directoryOf_depths {m : CStr} (hlen : m.length ≤ 255) (st : depthDisk.State) :
    directoryOf depthCatalog.toInfo m st = some (depthOf m) := by
  have hmake : depthDisk.FSMakeFSSpec (c_to_pstr m) st =
      (noErr, ⟨(depthOf m).1, (depthOf m).2, c_to_pstr []⟩) := by
    change (noErr, FSSpec.mk (depthOf (c_to_pstr m).chars).1 (depthOf (c_to_pstr m).chars).2 (c_to_pstr [])) = _
    rw [c_to_pstr_chars hlen]
  have hinfo : ∀ spec, depthCatalog.PBGetCatInfoSync spec st = (noErr, ⟨ioDirMask, spec.parID, 0⟩) := fun _ => rfl
  have hdir : ∀ d, (CatInfo.mk ioDirMask d 0).isDirectory = true :=
    fun _ => decide_eq_true (show ioDirMask &&& ioDirMask ≠ 0 by decide)
  simp only [directoryOf, hmake, hinfo]
  rw [if_neg (by decide), if_pos ⟨trivial, hdir _⟩]

theorem macContainer_depths (m : CStr) : ∃ dir, macContainer (Catalog.depths CStr ℤ) depthRoot m = some dir := by
  rw [macContainer]
  rcases (macDenotes m).1 with _ | v
  · exact ⟨_, Catalog.follow_depths _ _ _⟩
  · exact ⟨_, Catalog.follow_depths _ _ _⟩

/-- The state tells which directory was asked for. -/
theorem asked_dir {s t : DirState depthDisk} {dir dir' : ℤ × ℤ} {name name' : Str255}
    (h : s.dirCreate depthCatalog dir.1 dir.2 name = t.dirCreate depthCatalog dir'.1 dir'.2 name') : dir = dir' := by
  have hmac : some (dir.1, dir.2, name) = some (dir'.1, dir'.2, name') := congrArg (fun r => r.2.mac) h
  simp only [Option.some.injEq, Prod.mk.injEq] at hmac
  exact Prod.ext hmac.1 hmac.2.1

def depthPathnames : depthCatalog.Pathnames where
  tree _ := Catalog.depths CStr ℤ
  root _ := depthRoot
  resolves m st _ hlen := by rw [directoryOf_depths hlen, macResolve_depths]
  default _ dir h := Option.some.inj h

/-! ### mkdir -/

section

variable {dv : VolumeName} {path leaf a : CStr} {fs : List CStr}

theorem aheadOfLast_ne_missing (cs : List CStr) : ∀ {place : Ahead} (fresh : Bool), place ≠ .missing →
    aheadOfLast fresh place cs ≠ .missing := by
  induction cs with
  | nil => exact fun _ h => h
  | cons c cs ih =>
    intro place fresh hplace
    rw [aheadOfLast]
    split
    · exact hplace
    · split
      · refine ih false ?_
        split <;> decide
      · split
        · exact ih true (by decide)
        · split
          · exact ih false hplace
          · exact ih false (by decide)

theorem leafPlace_missing (h : leafPlace path = .missing) : ∃ p, path = '/' :: p ∧
    volumesPrefix.isPrefixOf p = true ∧ ((p.drop 8).splitOn '/').all List.isEmpty = true := by
  unfold leafPlace at h
  split at h
  · rename_i p
    split at h
    · refine ⟨p, rfl, ‹_›, ?_⟩
      obtain ⟨v, cs, hv⟩ := exists_fields '/' (p.drop 8)
      rw [hv] at h ⊢
      dsimp only at h
      by_cases hcs : cs.all List.isEmpty = true
      · rw [if_pos hcs] at h
        split at h
        · rw [List.all_cons, hcs, ‹v = []›]
          rfl
        · cases h
      · rw [if_neg hcs] at h
        refine absurd h (aheadOfLast_ne_missing cs false ?_)
        split <;> decide
    · exact absurd h (aheadOfLast_ne_missing _ true (by decide))
  · split at h
    · cases h
    · split at h
      · exact absurd h (aheadOfLast_ne_missing _ true (by decide))
      · split at h
        · exact absurd h (aheadOfLast_ne_missing _ true (by decide))
        · exact absurd h (aheadOfLast_ne_missing _ true (by decide))

/-- Of `/Volumes/` the translation is empty, or a colon. -/
theorem macLeaf_of_missing (dv : VolumeName) (hcolon : ':' ∉ path) (hplace : leafPlace path = .missing) :
    macLeaf (wholeMacPath dv path) = none := by
  obtain ⟨p, rfl, hvol, hall⟩ := leafPlace_missing hplace
  have hrest : ':' ∉ p.drop 8 := fun hm => hcolon (List.mem_cons_of_mem _ (List.mem_of_mem_drop hm))
  obtain ⟨v, cs, hv⟩ := exists_fields '/' (p.drop 8)
  rw [hv, List.all_cons, Bool.and_eq_true] at hall
  obtain rfl := List.isEmpty_iff.mp hall.1
  have hfields := toMacWhole_fields hrest hv
  rw [colonFields_slashes hall.2] at hfields
  have htext : toMacWhole (p.drop 8) = [] ∨ toMacWhole (p.drop 8) = [':'] := by
    have hjoin : [':'].intercalate ((toMacWhole (p.drop 8)).splitOn ':') = toMacWhole (p.drop 8) :=
      List.intercalate_splitOn ':'
    rw [← hjoin, hfields]
    split
    · exact .inl rfl
    · exact .inr rfl
  rw [wholeMacPath_eq dv (List.cons_ne_nil _ _), toMacStart, if_pos hvol, List.nil_append]
  rcases htext with h | h <;> rw [h] <;> rfl

/-- A pathname of several fields, by what they denote. -/
theorem macDenotes_concat {v : CStr} (hleaf : leaf ≠ []) {m : CStr} (hm : m.splitOn ':' = v :: fs ++ [leaf]) :
    macDenotes m = (if v = [] then .default else .volume v, ofFields (fs ++ [[]]) ++ [.down leaf]) := by
  obtain ⟨g, gs, hg⟩ : ∃ g gs, fs ++ [leaf] = g :: gs := List.exists_cons_of_ne_nil (by simp)
  rw [macDenotes, hm, List.cons_append, hg, denoteFields, ← hg, ofFields_concat hleaf]

theorem macLeaf_concat {v : CStr} (hleaf : leaf ≠ []) {m : CStr} (hm : m.splitOn ':' = v :: fs ++ [leaf]) :
    macLeaf m = some leaf := by
  rw [macLeaf, macDenotes_concat hleaf hm, List.getLast?_concat]

theorem macContainer_concat {δ : Type*} (tree : Walk.Catalog CStr δ) (root : Start → Option δ) {v : CStr}
    (hleaf : leaf ≠ []) {m : CStr} (hm : m.splitOn ':' = v :: fs ++ [leaf]) : macContainer tree root m =
      (root (if v = [] then .default else .volume v)).bind (tree.follow · (ofFields (fs ++ [[]]))) := by
  rw [macContainer, macDenotes_concat hleaf hm, List.dropLast_concat]

/-- No field or one. -/
theorem Ahead.of_short (hup : Ahead.of fs ≠ .up) (hname : Ahead.of fs ≠ .name) : fs = [] ∨ ∃ v, fs = [v] := by
  rcases fs with _ | ⟨v, _ | ⟨f, fs⟩⟩
  · exact .inl rfl
  · exact .inr ⟨v, rfl⟩
  · rw [Ahead.of] at hup hname
    split at hup
    · exact absurd rfl hup
    · rw [if_neg ‹_›] at hname
      exact absurd rfl hname

/-- Several fields, by the first and the last of them. -/
theorem Ahead.of_split {place : Ahead} (hof : Ahead.of fs = place) (hplace : place = .up ∨ place = .name) :
    ∃ v gs f, fs = v :: (gs ++ [f]) ∧ (f = [] ↔ place = .up) := by
  rcases fs with _ | ⟨v, _ | ⟨g, gs⟩⟩
  · rw [Ahead.of] at hof
    rcases hplace with rfl | rfl <;> cases hof
  · rw [Ahead.of] at hof
    split at hof <;> rcases hplace with rfl | rfl <;> cases hof
  · obtain ⟨hs, f, hg⟩ : ∃ hs f, g :: gs = hs ++ [f] :=
      ⟨_, _, (List.dropLast_append_getLast (List.cons_ne_nil g gs)).symm⟩
    refine ⟨v, hs, f, by rw [hg], ?_⟩
    rw [Ahead.of, hg, List.getLast?_concat] at hof
    split at hof
    · exact iff_of_true (Option.some.inj ‹_›) hof.symm
    · refine iff_of_false (fun h => ‹some f ≠ some []› (congrArg some h)) ?_
      rw [← hof]
      decide

/-- Where the last colon only separates, the parent leads to the container. -/
theorem macResolve_parent {δ : Type*} (tree : Walk.Catalog CStr δ) (root : Start → Option δ) (hleaf : leaf ≠ [])
    {m : CStr} (hm : m.splitOn ':' = fs ++ [leaf]) (ha : a.splitOn ':' = fs) (hname : Ahead.of fs = .name) :
    macResolve tree root a = macContainer tree root m := by
  obtain ⟨v, gs, f, rfl, hf⟩ := Ahead.of_split hname (.inr rfl)
  have hne : f ≠ [] := fun h => by cases hf.mp h
  rw [macContainer_concat tree root hleaf hm, ofFields_concat_nil gs hne, macResolve, macDenotes, ha]
  obtain ⟨g, hs, hg⟩ : ∃ g hs, gs ++ [f] = g :: hs := List.exists_cons_of_ne_nil (by simp)
  rw [hg]
  rfl

/-- In a tree that is known by its depth the parent leads elsewhere where the last colon does more. -/
theorem depthOf_parent (hleaf : leaf ≠ []) {m : CStr} (hm : m.splitOn ':' = fs ++ [leaf]) (ha : a.splitOn ':' = fs)
    (hplace : Ahead.of fs = .volume ∨ Ahead.of fs = .up) :
    some (depthOf a) ≠ macContainer (Catalog.depths CStr ℤ) depthRoot m := by
  rw [← macResolve_depths]
  rcases hplace with hplace | hplace
  · obtain ⟨v, rfl⟩ : ∃ v, fs = [v] := by
      rcases Ahead.of_short (by rw [hplace]; decide) (by rw [hplace]; decide) with rfl | hv
      · cases hplace
      · exact hv
    have hv : v ≠ [] := by
      rintro rfl
      cases hplace
    rw [macContainer_concat _ _ hleaf hm, if_neg hv, macResolve, macDenotes, ha, denoteFields]
    simp [depthRoot, Catalog.follow_depths]
  · obtain ⟨v, gs, f, rfl, hf⟩ := Ahead.of_split hplace (.inl rfl)
    obtain rfl := hf.mpr rfl
    rw [macContainer_concat _ _ hleaf hm, ofFields_concat_up, macResolve, macDenotes, ha]
    obtain ⟨g, hs, hg⟩ : ∃ g hs, gs ++ [([] : CStr)] = g :: hs := List.exists_cons_of_ne_nil (by simp)
    rw [hg, denoteFields, ← hg]
    generalize ofFields (gs ++ [[]]) = moves
    by_cases hv : v = []
    · rw [if_pos hv, depthRoot, Option.bind_some, Option.bind_some, Catalog.follow_depths,
        Catalog.follow_depths, height_append]
      simp only [height, Int.zero_add, ne_eq, Option.some.injEq, Prod.mk.injEq, true_and]
      omega
    · rw [if_neg hv, depthRoot, Option.bind_some, Option.bind_some, Catalog.follow_depths,
        Catalog.follow_depths, height_append]
      simp only [height, Int.zero_add, ne_eq, Option.some.injEq, Prod.mk.injEq, true_and]
      omega

theorem lengths_of_fits (hfits : ∀ passed ∈ (PathCall.mkdir path).complete dv, passed.Fits) :
    (parentPath (wholeMacPath dv path)).length ≤ 255 ∧
      ((afterLast ':' (wholeMacPath dv path)).getD (wholeMacPath dv path)).length ≤ 255 := by
  rw [PathCall.complete] at hfits
  by_cases hparent : parentPath (wholeMacPath dv path) ≠ []
  · rw [if_pos hparent] at hfits
    exact ⟨hfits _ List.mem_cons_self, hfits _ (List.mem_cons_of_mem _ List.mem_cons_self)⟩
  · rw [if_neg hparent] at hfits
    rw [not_not.mp hparent]
    exact ⟨Nat.zero_le _, hfits _ List.mem_cons_self⟩

/-- Only the last name: it goes into the default directory. -/
theorem creates_default (hfit : (wholeMacPath dv path).length < POSIX9_PATH_MAX) (hleaf : leaf ≠ [])
    (hm : (wholeMacPath dv path).splitOn ':' = fs ++ [leaf]) (hfs : fs = [] ∨ fs = [[]]) :
    CreatesInContainer dv path := by
  have hdenotes : macDenotes (wholeMacPath dv path) = (.default, [.down leaf]) := by
    rw [macDenotes, hm]
    rcases hfs with rfl | rfl
    · rw [List.nil_append, denoteFields, ofFields_down hleaf]
      rfl
    · rw [List.singleton_append, denoteFields_leading, ofFields_down hleaf]
      rfl
  have hparts : parentPath (wholeMacPath dv path) = [] ∧
      (afterLast ':' (wholeMacPath dv path)).getD (wholeMacPath dv path) = leaf := by
    rcases parent_fields hm with ⟨-, hno, hwhole⟩ | ⟨a, hb, hwhole, ha⟩
    · exact ⟨by_contra fun h => hno (mem_of_parent h), by rw [afterLast, if_neg hno, Option.getD_none, hwhole]⟩
    · obtain rfl : a = [] := by
        have hjoin : [':'].intercalate (a.splitOn ':') = a := List.intercalate_splitOn ':'
        rw [← hjoin, ha]
        rcases hfs with rfl | rfl <;> rfl
      exact ⟨by rw [hwhole, parentPath_eq hb], by rw [hwhole, afterLast_eq hb, Option.getD_some]⟩
  refine ⟨leaf, ?_, fun fm cat rules s dir hdir => ?_⟩
  · rw [(mac_path_of_fits hfit).1, macLeaf, hdenotes]
    rfl
  · rw [(mac_path_of_fits hfit).1, macContainer, hdenotes] at hdir
    rw [mkdir_default rules hfit hparts.1 hdir, hparts.2]

section

variable (hfit : (wholeMacPath dv path).length < POSIX9_PATH_MAX) (hleaf : leaf ≠ []) (hb : ':' ∉ leaf)
  (hwhole : wholeMacPath dv path = a ++ ':' :: leaf) (hlen : a.length ≤ 255)

include hfit hleaf hb hwhole hlen

/-- Behind another name: the parent leads to the container. -/
theorem creates_below (hname : Ahead.of (a.splitOn ':') = .name) : CreatesInContainer dv path := by
  have hm : (wholeMacPath dv path).splitOn ':' = a.splitOn ':' ++ [leaf] := by
    rw [hwhole, List.splitOn_append_cons_self, List.splitOn_eq_singleton hb]
  have hparent : parentPath (wholeMacPath dv path) = a := by rw [hwhole, parentPath_eq hb]
  have hne : a ≠ [] := by
    rintro rfl
    cases hname
  obtain ⟨v, gs, hfs⟩ := exists_fields ':' a
  refine ⟨leaf, ?_, fun fm cat rules s dir hdir => ?_⟩
  · rw [(mac_path_of_fits hfit).1]
    exact macLeaf_concat hleaf (hfs ▸ hm)
  · rw [(mac_path_of_fits hfit).1, ← macResolve_parent _ _ hleaf hm rfl hname, ← rules.resolves a s.mac hne hlen]
      at hdir
    rw [mkdir_parent hfit (by rwa [hparent]) (by rwa [hparent]), hwhole, afterLast_eq hb, Option.getD_some]

/-- Behind the colon of a volume, or one that goes up: the parent leads elsewhere. -/
theorem not_creates (hplace : Ahead.of (a.splitOn ':') = .volume ∨ Ahead.of (a.splitOn ':') = .up) :
    ¬ CreatesInContainer dv path := by
  have hm : (wholeMacPath dv path).splitOn ':' = a.splitOn ':' ++ [leaf] := by
    rw [hwhole, List.splitOn_append_cons_self, List.splitOn_eq_singleton hb]
  have hparent : parentPath (wholeMacPath dv path) = a := by rw [hwhole, parentPath_eq hb]
  have hne : a ≠ [] := by
    rintro rfl
    rcases hplace with hplace | hplace <;> cases hplace
  rintro ⟨name, -, hlaw⟩
  obtain ⟨dir, hdir⟩ := macContainer_depths (wholeMacPath dv path)
  have hthere := hlaw depthDisk depthCatalog depthPathnames (DirState.start none) dir
    (by rw [(mac_path_of_fits hfit).1]; exact hdir)
  have hfound : directoryOf depthCatalog.toInfo (parentPath (wholeMacPath dv path))
      (DirState.start (none : depthDisk.State)).mac = some (depthOf a) := by
    rw [hparent]
    exact directoryOf_depths hlen none
  have hhere := mkdir_parent hfit (by rwa [hparent]) hfound
  refine depthOf_parent hleaf hm rfl hplace ?_
  rw [hdir]
  exact congrArg some (asked_dir (hhere.symm.trans hthere))

end

end

/-- mkdir asks for the directory in the container its pathname designates exactly where the last colon of the
    pathname, if there is one, is a separator only. -/
theorem createsInContainer_iff_separates (dv : VolumeName) (path : CStr) (hcolon : ':' ∉ path)
    (hleaf : lastName path ≠ []) (hord : Ordinary (lastName path))
    (hfits : ∀ passed ∈ (PathCall.mkdir path).complete dv, passed.Fits) :
    CreatesInContainer dv path ↔ (leafPlace path).separates = true := by
  obtain ⟨hparentLen, hleafLen⟩ := lengths_of_fits hfits
  have hfit : (wholeMacPath dv path).length < POSIX9_PATH_MAX := by
    have hlen := length_le_parts (wholeMacPath dv path)
    rw [POSIX9_PATH_MAX]
    omega
  by_cases hplace : leafPlace path = .missing
  · refine iff_of_false ?_ (by rw [hplace]; decide)
    rintro ⟨leaf, hl, -⟩
    rw [(mac_path_of_fits hfit).1, macLeaf_of_missing dv hcolon hplace] at hl
    cases hl
  obtain ⟨fs, hm, hof⟩ := wholeMacPath_fields dv hcolon hleaf hord hplace
  rw [← hof] at hplace ⊢
  rcases parent_fields hm with ⟨rfl, -, -⟩ | ⟨a, hb, hwhole, rfl⟩
  · exact iff_of_true (creates_default hfit hleaf hm (.inl rfl)) rfl
  rw [hwhole, parentPath_eq hb] at hparentLen
  cases hkind : Ahead.of (a.splitOn ':') with
  | nothing | leading =>
    have hfs := Ahead.of_short (by rw [hkind]; decide) (by rw [hkind]; decide)
    refine iff_of_true (creates_default hfit hleaf hm (hfs.imp id ?_)) rfl
    rintro ⟨v, hv⟩
    rw [hv, Ahead.of] at hkind
    split at hkind
    · rw [hv, ‹v = []›]
    · cases hkind
  | name => exact iff_of_true (creates_below hfit hleaf hb hwhole hparentLen hkind) rfl
  | volume => exact iff_of_false (not_creates hfit hleaf hb hwhole hparentLen (.inl hkind)) (by decide)
  | up => exact iff_of_false (not_creates hfit hleaf hb hwhole hparentLen (.inr hkind)) (by decide)
  | missing => exact absurd hkind hplace

/-- `mkdir("a/x")` creates in `a`. -/
theorem mkdir_creates_below : CreatesInContainer macintoshHD "a/x".toList :=
  (createsInContainer_iff_separates macintoshHD "a/x".toList (by decide +kernel) (by decide +kernel)
    (by unfold Ordinary; decide +kernel) (by decide +kernel)).mpr (by decide +kernel)

/-- `mkdir("../x")` creates in the default directory, not in the one above it. -/
theorem mkdir_above_lands_here : ':' ∉ "../x".toList ∧ lastName "../x".toList = "x".toList ∧
    (∀ passed ∈ (PathCall.mkdir "../x".toList).complete macintoshHD, passed.Fits) ∧
    ¬ CreatesInContainer macintoshHD "../x".toList := by
  refine ⟨by decide +kernel, by decide +kernel, by decide +kernel, ?_⟩
  rintro ⟨leaf, -, hlaw⟩
  have hthere := hlaw depthDisk depthCatalog depthPathnames (DirState.start none) (-1, -1) (by rfl)
  have hhere : ((DirState.start (none : depthDisk.State)).mkdir depthCatalog macintoshHD "../x".toList).2.mac =
      some (-1, 0, c_to_pstr "x".toList) := by rfl
  rw [hthere] at hhere
  have hasked : some ((-1 : ℤ), (-1 : ℤ), c_to_pstr leaf) = some (-1, 0, c_to_pstr "x".toList) := hhere
  simp at hasked

end Posix9
