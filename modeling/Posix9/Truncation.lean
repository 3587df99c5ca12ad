import Posix9.Bounds
import Posix9.Directory
import Posix9.Resolvers

/-! Whether a path is ever cut. A translation goes through a buffer of POSIX9_PATH_MAX bytes, the new name of
    rename through one of 255, and all of it through a Pascal string, which cuts at 255 without a word. -/

namespace Posix9
open DirState (parentPath)

/-! ### What is passed on -/

/-- A call that takes paths. -/
inductive PathCall where
  | open_ (path : CStr) (flags : BitVec 32)
  | stat (path : CStr)
  | unlink (path : CStr)
  | rename (oldpath newpath : CStr)
  | opendir (name : CStr)
  | mkdir (path : CStr)
  | rmdir (path : CStr)
  | chdir (path : CStr)

/-- A Pascal string, by the call of the File Manager it is passed to. -/
inductive Passed where
  | FSMakeFSSpec (name : CStr)
  | DirCreate (name : CStr)
  | FSpRename (name : CStr)
  deriving DecidableEq

/-- The longest string that gets there: one that fits a Pascal string, and `newFile` before that. -/
def Passed.Fits : Passed → Prop
  | .FSMakeFSSpec name | .DirCreate name => name.length ≤ 255
  | .FSpRename name => name.length < 255

instance : DecidablePred Passed.Fits
  | .FSMakeFSSpec name | .DirCreate name => inferInstanceAs (Decidable (name.length ≤ 255))
  | .FSpRename name => inferInstanceAs (Decidable (name.length < 255))

variable {fm : FileManager}

/-- The two modules on one file system. -/
structure Library (fm : FileManager) where
  files : FileState fm
  dirs : DirState fm
  shared : dirs.mac = files.mac

variable (cat : fm.Catalog) (default_volume : VolumeName)

/-- Whether mkdir finds the directory that `parent` names, as it looks for it. -/
def parentFound (parent : Str255) (mac : fm.State) : Bool :=
  let (err, spec) := fm.FSMakeFSSpec parent mac
  (err = noErr ∨ err = fnfErr) ∧ (cat.named spec mac).1 = noErr

namespace Library

/-- The Pascal strings a call passes on, in this order; open repeats its one behind a creation. -/
def passed (x : Library fm) : PathCall → List Passed
  | .open_ path _ | .stat path | .unlink path => [.FSMakeFSSpec (basicPPath path).chars]
  | .rename oldpath newpath =>
    .FSMakeFSSpec (basicPPath oldpath).chars ::
      if (fm.FSMakeFSSpec (basicPPath oldpath) x.files.mac).1 = noErr then
        [.FSpRename (c_to_pstr (strncpyNul (lastComponent newpath) 255)).chars]
      else []
  | .opendir path | .rmdir path | .chdir path => [.FSMakeFSSpec (fullPPath default_volume path).chars]
  | .mkdir path =>
    let mac_path := posix9_path_to_mac default_volume path POSIX9_PATH_MAX
    let parent_path := strncpyNul mac_path POSIX9_PATH_MAX
    let dirname := c_to_pstr ((afterLast ':' parent_path).getD mac_path)
    if parentPath parent_path ≠ [] then
      .FSMakeFSSpec (c_to_pstr (parentPath parent_path)).chars ::
        if parentFound cat (c_to_pstr (parentPath parent_path)) x.dirs.mac then [.DirCreate dirname.chars] else []
    else [.DirCreate dirname.chars]

/-- Whether a call fails, and the file system it leaves. -/
def outcome (x : Library fm) : PathCall → Bool × fm.State
  | .open_ path flags => let (fd, s) := x.files.open_ path flags; (fd = -1, s.mac)
  | .stat path => let ((result, _), s) := x.files.stat cat path; (result = -1, s.mac)
  | .unlink path => let (result, s) := x.files.unlink cat path; (result = -1, s.mac)
  | .rename oldpath newpath => let (result, s) := x.files.rename cat oldpath newpath; (result = -1, s.mac)
  | .opendir name => let (dirp, s) := x.dirs.opendir cat default_volume name; (dirp.isNone, s.mac)
  | .mkdir path => let (result, s) := x.dirs.mkdir cat default_volume path; (result = -1, s.mac)
  | .rmdir path => let (result, s) := x.dirs.rmdir cat default_volume path; (result = -1, s.mac)
  | .chdir path => let (result, s) := x.dirs.cwd.chdir cat.toInfo default_volume path; (result = -1, s.mac)

end Library

/-! ### The law -/

/-- The complete translations: of the path, of its parent and its last component, or of the new name. -/
def PathCall.complete : PathCall → List Passed
  | .open_ path _ | .stat path | .unlink path => [.FSMakeFSSpec (wholeBasicPath path)]
  | .rename oldpath newpath => [.FSMakeFSSpec (wholeBasicPath oldpath), .FSpRename (lastComponent newpath)]
  | .opendir path | .rmdir path | .chdir path => [.FSMakeFSSpec (wholeMacPath default_volume path)]
  | .mkdir path =>
    let mac_path := wholeMacPath default_volume path
    let leaf := (afterLast ':' mac_path).getD mac_path
    if parentPath mac_path ≠ [] then [.FSMakeFSSpec (parentPath mac_path), .DirCreate leaf] else [.DirCreate leaf]

/-- What a call passes on is complete, and where something would not fit it fails and leaves the file system as it
    was. -/
structure Library.Untruncated (x : Library fm) (c : PathCall) : Prop where
  complete : x.passed cat default_volume c <+: c.complete default_volume
  refused : (∃ p ∈ c.complete default_volume, ¬ p.Fits) →
    x.outcome cat default_volume c = (true, x.files.mac)

/-! ### The condition -/

/-- Each string fits that the call gets to: rename gets to the new name where it finds the old one, and mkdir to
    the last component where it finds the parent. -/
def Library.FitsSoFar (x : Library fm) : PathCall → Prop
  | .open_ path _ | .stat path | .unlink path => (wholeBasicPath path).length ≤ 255
  | .rename oldpath newpath => (wholeBasicPath oldpath).length ≤ 255 ∧
      ((fm.FSMakeFSSpec (basicPPath oldpath) x.files.mac).1 = noErr → (lastComponent newpath).length < 255)
  | .opendir path | .rmdir path | .chdir path => (wholeMacPath default_volume path).length ≤ 255
  | .mkdir path =>
    let mac_path := wholeMacPath default_volume path
    let leaf := (afterLast ':' mac_path).getD mac_path
    if parentPath mac_path ≠ [] then
      (parentPath mac_path).length ≤ 255 ∧
        (parentFound cat (c_to_pstr (parentPath mac_path)) x.dirs.mac = true → leaf.length ≤ 255)
    else leaf.length ≤ 255

/-! ### Translations that fit -/

variable {cat default_volume} {x : Library fm} {dv : VolumeName} {path s t : CStr}

theorem basicPPath_of_le (hlen : (wholeBasicPath path).length ≤ 255) :
    (basicPPath path).chars = wholeBasicPath path := by
  by_cases hcolon : ':' ∈ path
  · by_cases hrel : path.head? = some '/'
    · obtain ⟨p, rfl⟩ := List.head?_eq_some_iff.mp hrel
      rw [wholeBasicPath_abs] at hlen ⊢
      rw [basicPPath, basicMacPath_abs, List.take_of_length_le (Nat.le_trans hlen (by decide)), c_to_pstr_chars hlen]
    · have hmac : ∀ size, basicMacPath path size = strncpyNul path size := by
        intro size
        unfold basicMacPath
        split
        · simp at hrel
        · rw [if_pos hcolon]
      have hwhole : wholeBasicPath path = path := by
        rw [wholeBasicPath, hmac, strncpyNul, List.take_of_length_le (by omega)]
      rw [hwhole] at hlen ⊢
      rw [basicPPath, hmac, strncpyNul, List.take_of_length_le (Nat.le_trans hlen (by decide)), c_to_pstr_chars hlen]
  · exact basicPPath_of_short hcolon hlen

/-! ### The last colon -/

theorem afterLast_eq {c : Char} {a b : CStr} (hb : c ∉ b) : afterLast c (a ++ c :: b) = some b := by
  have hrev : (a ++ c :: b).reverse = b.reverse ++ c :: a.reverse := by simp
  have hmem : c ∈ a ++ c :: b := by simp
  rw [afterLast, if_pos hmem, hrev, List.takeWhile_append_of_pos, List.takeWhile_cons_of_neg (by simp),
    List.append_nil, List.reverse_reverse]
  intro d hd
  simpa using fun h : d = c => hb (h ▸ List.mem_reverse.mp hd)

theorem parentPath_eq {a b : CStr} (hb : ':' ∉ b) : parentPath (a ++ ':' :: b) = a := by
  rw [parentPath, afterLast_eq hb]
  dsimp only
  rw [List.length_append, List.length_cons]
  have hlen : a.length + (b.length + 1) - b.length - 1 = a.length := by omega
  rw [hlen, List.take_left']
  rfl

theorem mem_of_parent (h : parentPath s ≠ []) : ':' ∈ s := by
  by_contra hno
  rw [parentPath, afterLast, if_neg hno] at h
  exact h rfl

theorem split_last {c : Char} (hmem : c ∈ s) : ∃ a b, c ∉ b ∧ s = a ++ c :: b := by
  obtain ⟨b, a, hs, hb⟩ := List.eq_append_cons_of_mem (List.mem_reverse.mpr hmem)
  refine ⟨a.reverse, b.reverse, fun hc => hb (List.mem_reverse.mp hc), ?_⟩
  rw [← List.reverse_reverse s, hs]
  simp

/-! ### The buffer of the translation -/

/-- A buffer that is too small takes the first part, and a colon at its end is stripped. -/
theorem posix9_path_to_mac_cut (dv : VolumeName) (path : CStr) {dst_size : ℕ} (hsize : 65 ≤ dst_size) :
    posix9_path_to_mac dv path dst_size = wholeMacPath dv path ∨
      ∃ cut, cut <+: wholeMacPath dv path ∧ dst_size - 1 ≤ cut.length ∧
        posix9_path_to_mac dv path dst_size = stripColon cut := by
  rcases eq_or_ne path [] with rfl | hp
  · exact .inl rfl
  have hstart := toMacStart_length_lt dv path
  rw [wholeMacPath_eq dv hp]
  simp only [posix9_path_to_mac, if_neg hp]
  generalize (toMacStart dv path).1 = out at *
  generalize (toMacStart dv path).2 = rest at *
  rcases toMacLoop_eq_or_full (dst_size - 1 - out.length) rest with heq | ⟨hpre, hfull⟩
  · rw [heq]
    exact .inl rfl
  have hcut : out ++ toMacLoop (dst_size - 1 - out.length) rest <+: out ++ toMacWhole rest :=
    (List.prefix_append_right_inj out).mpr hpre
  have hlen : dst_size - 1 ≤ (out ++ toMacLoop (dst_size - 1 - out.length) rest).length := by
    rw [List.length_append]
    omega
  rcases stripColon_cases (out ++ toMacWhole rest) with hs | ⟨x, c, hc, hx, hs⟩
  · rw [hs]
    exact .inr ⟨_, hcut, hlen, rfl⟩
  · rw [hx] at hcut
    rcases List.prefix_concat_iff.mp hcut with heq | hshort
    · rw [heq, hx]
      exact .inl rfl
    · rw [hs]
      exact .inr ⟨_, hshort, hlen, rfl⟩

/-- A parent that fits survives the cut. -/
theorem parentPath_cut (hparent : parentPath (wholeMacPath dv path) ≠ [])
    (hlen : (parentPath (wholeMacPath dv path)).length ≤ 255) :
    parentPath (strncpyNul (posix9_path_to_mac dv path POSIX9_PATH_MAX) POSIX9_PATH_MAX) =
      parentPath (wholeMacPath dv path) := by
  obtain ⟨a, b, hb, hwhole⟩ := split_last (mem_of_parent hparent)
  rw [hwhole, parentPath_eq hb] at hlen ⊢
  -- every prefix that is longer than the parent has the same last colon
  have hprefix : ∀ {t : CStr}, t <+: a ++ ':' :: b → a.length < t.length → ∃ b', ':' ∉ b' ∧ t = a ++ ':' :: b' := by
    intro t ht hlt
    have hcolon : a ++ [':'] <+: t :=
      List.prefix_of_prefix_length_le (by simp) ht (by rw [List.length_append]; exact hlt)
    obtain ⟨b', rfl⟩ := hcolon
    refine ⟨b', fun hc => hb ?_, by simp⟩
    rw [List.append_assoc, List.singleton_append, List.prefix_append_right_inj, List.cons_prefix_cons] at ht
    exact ht.2.mem hc
  have htake : ∀ {t : CStr}, t <+: a ++ ':' :: b → a.length < t.length →
      parentPath (strncpyNul t POSIX9_PATH_MAX) = a := by
    intro t ht hlt
    obtain ⟨b', hb', heq⟩ := hprefix ((List.take_prefix (POSIX9_PATH_MAX - 1) t).trans ht) (by
      rw [List.length_take, POSIX9_PATH_MAX]
      omega)
    rw [strncpyNul, heq, parentPath_eq hb']
  have hsize : 65 ≤ POSIX9_PATH_MAX := by decide
  rcases posix9_path_to_mac_cut dv path hsize with hmac | ⟨cut, hcut, hfull, hmac⟩
  · rw [hmac, hwhole]
    exact htake List.prefix_rfl (by simp)
  · have hlong : 1023 ≤ cut.length := hfull
    rw [hwhole] at hcut
    obtain ⟨b', hb', rfl⟩ := hprefix hcut (by omega)
    have hstrip : stripColon (a ++ ':' :: b') = a ++ ':' :: b' := by
      rw [List.length_append, List.length_cons] at hlong
      obtain ⟨y, c, rfl⟩ : ∃ y c, b' = y ++ [c] := by
        rcases List.eq_nil_or_concat b' with rfl | ⟨y, c, rfl⟩
        · simp at hlong
          omega
        · exact ⟨y, c, by simp⟩
      have hc : c ≠ ':' := fun h => hb' (by simp [h])
      have hconcat := stripColon_of_ne (a ++ ':' :: y) hc
      simpa using hconcat
    rw [hmac, hstrip]
    exact htake hcut (by simp)

/-! ### The law of each call -/

/-- Everything is passed on, and all of it fits. -/
theorem untruncated_of_fits {c : PathCall} (hpassed : x.passed cat dv c = c.complete dv)
    (hfits : ∀ p ∈ c.complete dv, p.Fits) : x.Untruncated cat dv c := by
  refine ⟨⟨[], by rw [List.append_nil, hpassed]⟩, ?_⟩
  rintro ⟨p, hp, hno⟩
  exact absurd (hfits p hp) hno

/-- A call that passes on one string. -/
theorem untruncated_single {c : PathCall} {n : Str255} {w : CStr}
    (hpassed : x.passed cat dv c = [.FSMakeFSSpec n.chars]) (hcomplete : c.complete dv = [.FSMakeFSSpec w])
    (hfits : w.length ≤ 255 → n.chars = w) : x.Untruncated cat dv c ↔ w.length ≤ 255 := by
  constructor
  · intro h
    have hprefix := h.complete
    rw [hpassed, hcomplete, List.cons_prefix_cons] at hprefix
    rw [← Passed.FSMakeFSSpec.inj hprefix.1]
    exact n.length_le
  · intro hle
    refine untruncated_of_fits (by rw [hpassed, hcomplete, hfits hle]) fun p hp => ?_
    rw [hcomplete, List.mem_singleton] at hp
    rw [hp]
    exact hle

/-- What `newFile` holds is one character shorter than the array. -/
theorem length_newFile_le (newpath : CStr) : (c_to_pstr (strncpyNul (lastComponent newpath) 255)).chars.length ≤ 254 := by
  have hcopy : (strncpyNul (lastComponent newpath) 255).length ≤ 254 := List.length_take_le 254 _
  rw [c_to_pstr, List.length_take]
  omega

/-- rename where the old path is not found. -/
theorem rename_old_missing {oldpath newpath : CStr}
    (hmissing : (fm.FSMakeFSSpec (basicPPath oldpath) x.files.mac).1 ≠ noErr) :
    x.outcome cat dv (.rename oldpath newpath) = (true, x.files.mac) := by
  have hlost := FileState.rename_not_found cat newpath hmissing
  exact Prod.ext (decide_eq_true hlost.1) hlost.2

theorem rename_untruncated (oldpath newpath : CStr) : x.Untruncated cat dv (.rename oldpath newpath) ↔
    x.FitsSoFar cat dv (.rename oldpath newpath) := by
  constructor
  · intro h
    have hprefix := h.complete
    rw [Library.passed, PathCall.complete, List.cons_prefix_cons] at hprefix
    obtain ⟨hold, hnew⟩ := hprefix
    refine ⟨?_, fun hfound => ?_⟩
    · rw [← Passed.FSMakeFSSpec.inj hold]
      exact (basicPPath oldpath).length_le
    · rw [if_pos hfound, List.cons_prefix_cons] at hnew
      rw [← Passed.FSpRename.inj hnew.1]
      exact Nat.lt_succ_of_le (length_newFile_le newpath)
  · rintro ⟨hold, hnew⟩
    by_cases hfound : (fm.FSMakeFSSpec (basicPPath oldpath) x.files.mac).1 = noErr
    · have hname : (c_to_pstr (strncpyNul (lastComponent newpath) 255)).chars = lastComponent newpath := by
        have hlt := hnew hfound
        rw [strncpyNul, List.take_of_length_le (by omega), c_to_pstr_chars (by omega)]
      refine untruncated_of_fits ?_ fun p hp => ?_
      · rw [Library.passed, if_pos hfound, basicPPath_of_le hold, hname, PathCall.complete]
      · rw [PathCall.complete, List.mem_cons, List.mem_singleton] at hp
        rcases hp with rfl | rfl
        · exact hold
        · exact hnew hfound
    · refine ⟨?_, fun _ => rename_old_missing hfound⟩
      rw [Library.passed, if_neg hfound, basicPPath_of_le hold]
      exact ⟨[.FSpRename (lastComponent newpath)], rfl⟩

/-- mkdir where the parent is not found. -/
theorem mkdir_parent_missing {parent : CStr}
    (hparent : parentPath (strncpyNul (posix9_path_to_mac dv path POSIX9_PATH_MAX) POSIX9_PATH_MAX) = parent)
    (hne : parent ≠ []) (hmissing : ¬(parentFound cat (c_to_pstr parent) x.dirs.mac = true)) :
    x.outcome cat dv (.mkdir path) = (true, x.files.mac) := by
  have hmac : (x.dirs.initFor cat dv path).mac = x.dirs.mac :=
    (CwdState.initFor_spec cat.toInfo dv x.dirs.cwd path).1
  rw [← x.shared, ← hmac]
  rw [← hmac] at hmissing
  rw [Library.outcome, DirState.mkdir]
  generalize x.dirs.initFor cat dv path = t at hmissing ⊢
  rw [hparent, if_pos hne]
  rcases hmake : fm.FSMakeFSSpec (c_to_pstr parent) t.mac with ⟨err, spec⟩
  rw [parentFound, hmake] at hmissing
  dsimp only at hmissing ⊢
  by_cases hmade : err ≠ noErr ∧ err ≠ fnfErr
  · rw [if_pos hmade]
    rfl
  · rw [if_neg hmade]
    have hnamed : (cat.named spec t.mac).1 ≠ noErr := by
      intro hok
      refine hmissing (decide_eq_true ⟨?_, hok⟩)
      tauto
    rw [if_pos hnamed]
    rfl

/-- A translation that fits the buffer is what mkdir cuts up. -/
theorem mac_path_of_fits (hfit : (wholeMacPath dv path).length < POSIX9_PATH_MAX) :
    posix9_path_to_mac dv path POSIX9_PATH_MAX = wholeMacPath dv path ∧
      strncpyNul (wholeMacPath dv path) POSIX9_PATH_MAX = wholeMacPath dv path :=
  ⟨posix9_path_to_mac_of_fits dv path hfit, List.take_of_length_le (Nat.le_sub_one_of_lt hfit)⟩

/-- Nothing but one colon is lost in the cut. -/
theorem length_le_parts (s : CStr) :
    s.length ≤ (parentPath s).length + ((afterLast ':' s).getD s).length + 1 := by
  by_cases hcolon : ':' ∈ s
  · obtain ⟨a, b, hb, rfl⟩ := split_last hcolon
    rw [parentPath_eq hb, afterLast_eq hb, Option.getD_some, List.length_append, List.length_cons]
    omega
  · rw [afterLast, if_neg hcolon, Option.getD_none]
    omega

theorem length_dirCreate_le {n m : CStr} (h : Passed.DirCreate (c_to_pstr n).chars = .DirCreate m) :
    m.length ≤ 255 := by
  rw [← Passed.DirCreate.inj h]
  exact (c_to_pstr n).length_le

/-- mkdir of a path whose translation has a parent in it. -/
theorem mkdir_untruncated_parent {a b : CStr} (hb : ':' ∉ b) (hwhole : wholeMacPath dv path = a ++ ':' :: b)
    (ha : a ≠ []) : x.Untruncated cat dv (.mkdir path) ↔ a.length ≤ 255 ∧
      (parentFound cat (c_to_pstr a) x.dirs.mac = true → b.length ≤ 255) := by
  have hparent : parentPath (wholeMacPath dv path) = a := by rw [hwhole, parentPath_eq hb]
  have hcomplete : (PathCall.mkdir path).complete dv = [.FSMakeFSSpec a, .DirCreate b] := by
    rw [PathCall.complete]
    rw [if_pos (by rwa [hparent]), hparent, hwhole, afterLast_eq hb]
    rfl
  have hcut : a.length ≤ 255 →
      parentPath (strncpyNul (posix9_path_to_mac dv path POSIX9_PATH_MAX) POSIX9_PATH_MAX) = a := by
    intro hlen
    rw [parentPath_cut (by rwa [hparent]) (by rwa [hparent]), hparent]
  constructor
  · intro h
    have hprefix := h.complete
    rw [hcomplete, Library.passed] at hprefix
    split at hprefix
    · obtain ⟨hfirst, hrest⟩ := List.cons_prefix_cons.mp hprefix
      have hlen : a.length ≤ 255 := by
        rw [← Passed.FSMakeFSSpec.inj hfirst]
        exact (c_to_pstr _).length_le
      refine ⟨hlen, fun hfound => ?_⟩
      rw [hcut hlen, if_pos hfound] at hrest
      exact length_dirCreate_le (List.cons_prefix_cons.mp hrest).1
    · cases (List.cons_prefix_cons.mp hprefix).1
  · rintro ⟨hlen, hleaf⟩
    by_cases hfound : parentFound cat (c_to_pstr a) x.dirs.mac = true
    · have hfit : (wholeMacPath dv path).length < POSIX9_PATH_MAX := by
        have hleaf' := hleaf hfound
        rw [hwhole, List.length_append, List.length_cons, POSIX9_PATH_MAX]
        omega
      obtain ⟨hmac, hcopy⟩ := mac_path_of_fits hfit
      refine untruncated_of_fits ?_ fun p hp => ?_
      · rw [hcomplete, Library.passed]
        rw [if_pos (by rwa [hcut hlen]), hcut hlen, if_pos hfound, c_to_pstr_chars hlen, hmac, hcopy, hwhole,
          afterLast_eq hb, Option.getD_some, c_to_pstr_chars (hleaf hfound)]
      · rw [hcomplete, List.mem_cons, List.mem_singleton] at hp
        rcases hp with rfl | rfl
        · exact hlen
        · exact hleaf hfound
    · refine ⟨?_, fun _ => mkdir_parent_missing (hcut hlen) ha hfound⟩
      rw [hcomplete, Library.passed]
      rw [if_pos (by rwa [hcut hlen]), hcut hlen, if_neg hfound, c_to_pstr_chars hlen]
      exact ⟨[.DirCreate b], rfl⟩

/-- mkdir of any other path. -/
theorem mkdir_untruncated_leaf (hparent : parentPath (wholeMacPath dv path) = []) :
    x.Untruncated cat dv (.mkdir path) ↔
      ((afterLast ':' (wholeMacPath dv path)).getD (wholeMacPath dv path)).length ≤ 255 := by
  have hcomplete : (PathCall.mkdir path).complete dv =
      [.DirCreate ((afterLast ':' (wholeMacPath dv path)).getD (wholeMacPath dv path))] := by
    rw [PathCall.complete]
    rw [if_neg (not_not.mpr hparent)]
  constructor
  · intro h
    have hprefix := h.complete
    rw [hcomplete, Library.passed] at hprefix
    split at hprefix
    · cases (List.cons_prefix_cons.mp hprefix).1
    · exact length_dirCreate_le (List.cons_prefix_cons.mp hprefix).1
  · intro hle
    have hfit : (wholeMacPath dv path).length < POSIX9_PATH_MAX := by
      have hlen := length_le_parts (wholeMacPath dv path)
      rw [hparent, List.length_nil] at hlen
      rw [POSIX9_PATH_MAX]
      omega
    obtain ⟨hmac, hcopy⟩ := mac_path_of_fits hfit
    refine untruncated_of_fits ?_ fun p hp => ?_
    · rw [hcomplete, Library.passed]
      rw [hmac, hcopy, if_neg (not_not.mpr hparent), c_to_pstr_chars hle]
    · rw [hcomplete, List.mem_singleton] at hp
      rw [hp]
      exact hle

theorem mkdir_untruncated (path : CStr) : x.Untruncated cat dv (.mkdir path) ↔ x.FitsSoFar cat dv (.mkdir path) := by
  rw [Library.FitsSoFar]
  by_cases hparent : parentPath (wholeMacPath dv path) ≠ []
  · obtain ⟨a, b, hb, hwhole⟩ := split_last (mem_of_parent hparent)
    have ha : parentPath (wholeMacPath dv path) = a := by rw [hwhole, parentPath_eq hb]
    rw [if_pos hparent, ha, hwhole, afterLast_eq hb, Option.getD_some]
    exact mkdir_untruncated_parent hb hwhole (ha ▸ hparent)
  · rw [if_neg hparent]
    exact mkdir_untruncated_leaf (not_not.mp hparent)

/-- No call cuts what it passes on, and what does not fit is refused, exactly where everything fits that the call
    gets to. -/
theorem untruncated_iff_fitsSoFar (cat : fm.Catalog) (default_volume : VolumeName) (x : Library fm) (c : PathCall) :
    x.Untruncated cat default_volume c ↔ x.FitsSoFar cat default_volume c := by
  cases c with
  | open_ path | stat path | unlink path => exact untruncated_single rfl rfl basicPPath_of_le
  | opendir path | rmdir path | chdir path => exact untruncated_single rfl rfl fullPPath_of_short
  | rename oldpath newpath => exact rename_untruncated oldpath newpath
  | mkdir path => exact mkdir_untruncated path

/-- A file eight directories down. -/
def deepPath (name : CStr) : CStr := (List.replicate 8 ("ddddddddddddddddddddddddddddd/".toList)).flatten ++ name

/-- A file system with that file only. -/
def holding (path : CStr) : Library ramDisk where
  files := FileState.start { RamDisk.empty with
    files := fun spec => if spec = ⟨-1, 2, c_to_pstr (wholeBasicPath path)⟩ then some [] else none } fun _ => false
  dirs := DirState.start { RamDisk.empty with
    files := fun spec => if spec = ⟨-1, 2, c_to_pstr (wholeBasicPath path)⟩ then some [] else none }
  shared := rfl

/-- unlink of `transactions.log` there removes `transactions.l`, which stands beside it. -/
theorem unlink_removes_another :
    let x := holding (deepPath "transactions.l".toList)
    ¬ x.Untruncated ramCatalog macintoshHD (.unlink (deepPath "transactions.log".toList)) ∧
      (x.files.unlink ramCatalog (deepPath "transactions.log".toList)).1 = 0 := by
  refine ⟨fun h => ?_, by decide +kernel⟩
  have hprefix := h.complete
  revert hprefix
  decide +kernel

end Posix9
