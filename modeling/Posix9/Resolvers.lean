import Posix9.PathToMac

/-! The two resolvers side by side: path_to_fsspec_basic (open, stat, unlink, rename) and
    posix9_path_to_fsspec (opendir, rmdir, chdir), by what the pathnames they hand to FSMakeFSSpec
    denote. -/

namespace Posix9
open Fields Walk

/-! ### What each resolver passes on -/

/-- All that path_to_fsspec_basic would write of a path. -/
def wholeBasicPath (path : CStr) : CStr := basicMacPath path (path.length + 2)

theorem basicMacPath_abs (p : CStr) (size : ℕ) : basicMacPath ('/' :: p) size =
    ((if volumesPrefix.isPrefixOf p then p.drop 8 else p).map slashToColon).take (size - 1) := rfl

theorem basicMacPath_rel {path : CStr} (hrel : path.head? ≠ some '/') (hcolon : ':' ∉ path)
    (size : ℕ) : basicMacPath path size = ':' :: (path.map slashToColon).take (size - 2) := by
  unfold basicMacPath
  split
  · simp at hrel
  · rw [if_neg hcolon]

theorem wholeBasicPath_abs (p : CStr) : wholeBasicPath ('/' :: p) =
    (if volumesPrefix.isPrefixOf p then p.drop 8 else p).map slashToColon := by
  rw [wholeBasicPath, basicMacPath_abs, List.take_of_length_le]
  have hdrop := (List.drop_sublist 8 p).length_le
  split <;> simp only [List.length_map, List.length_cons] <;> omega

theorem wholeBasicPath_rel {path : CStr} (hrel : path.head? ≠ some '/') (hcolon : ':' ∉ path) :
    wholeBasicPath path = ':' :: path.map slashToColon := by
  rw [wholeBasicPath, basicMacPath_rel hrel hcolon, List.take_of_length_le]
  simp

/-- A pathname of at most 255 bytes reaches FSMakeFSSpec whole. -/
theorem basicPPath_of_short {path : CStr} (hcolon : ':' ∉ path)
    (hlen : (wholeBasicPath path).length ≤ 255) :
    (basicPPath path).chars = wholeBasicPath path := by
  have hmac : basicMacPath path POSIX9_PATH_MAX = wholeBasicPath path := by
    by_cases hrel : path.head? = some '/'
    · obtain ⟨p, rfl⟩ := List.head?_eq_some_iff.mp hrel
      rw [wholeBasicPath_abs] at hlen ⊢
      rw [basicMacPath_abs, List.take_of_length_le]
      exact Nat.le_trans hlen (by decide)
    · rw [wholeBasicPath_rel hrel hcolon] at hlen ⊢
      rw [basicMacPath_rel hrel hcolon, List.take_of_length_le]
      rw [List.length_cons] at hlen
      exact Nat.le_trans (by omega : _ ≤ 254) (by decide)
  rw [basicPPath, hmac, c_to_pstr_chars hlen]

theorem fullPPath_of_short {dv : VolumeName} {path : CStr}
    (hlen : (wholeMacPath dv path).length ≤ 255) :
    (fullPPath dv path).chars = wholeMacPath dv path := by
  have hmac := posix9_path_to_mac_of_fits dv path (Nat.lt_of_le_of_lt hlen (by decide : 255 < POSIX9_PATH_MAX))
  rw [fullPPath, hmac, c_to_pstr_chars hlen]

theorem splitOn_map_slashToColon {p : CStr} (hp : ':' ∉ p) :
    (p.map slashToColon).splitOn ':' = p.splitOn '/' :=
  splitOn_rename hp

/-! ### The stripped colon -/

/-- Stripping keeps what a pathname denotes, unless nothing stands behind the colon of the volume. -/
theorem macDenotes_stripColon {s v : CStr} {fs : List CStr} (hs : s.splitOn ':' = v :: fs)
    (hfs : v = [] ∨ fs ≠ [[]]) : macDenotes (stripColon s) = macDenotes s := by
  rcases stripColon_cases s with h | ⟨x, c, hc, rfl, h⟩
  · rw [h]
  obtain ⟨init, last, hfields, hlast⟩ := splitOn_concat_of_ne x hc
  rw [splitOn_concat_self, hfields] at hs
  rw [h, macDenotes, macDenotes, splitOn_concat_self, hfields]
  rcases init with _ | ⟨f, init⟩
  · simp_all
  obtain ⟨rfl, rfl⟩ : f = v ∧ init ++ [last] ++ [[]] = fs := by simpa using hs
  have hmoves := ofFields_concat_nil init hlast
  rcases eq_or_ne f [] with rfl | hf
  · simp only [List.cons_append, denoteFields_leading]
    rw [hmoves]
  · simp only [List.cons_append]
    rw [denoteFields_volume hf (by simp), denoteFields_volume hf (by simp), hmoves]

/-- A volume name and its colon: once the colon is stripped it is a name in the default directory. -/
theorem macDenotes_stripColon_volume {v : CStr} (hv : v ≠ []) (hcolon : ':' ∉ v) :
    macDenotes (stripColon (v ++ [':'])) = (.default, [.down v]) := by
  obtain ⟨x, c, rfl⟩ : ∃ x c, v = x ++ [c] := by
    rcases List.eq_nil_or_concat v with rfl | ⟨x, c, rfl⟩
    · exact absurd rfl hv
    · exact ⟨x, c, by simp⟩
  have hc : c ≠ ':' := fun h => hcolon (by simp [h])
  have hstrip : stripColon (x ++ [c] ++ [':']) = x ++ [c] := by
    simp [stripColon, hc]
  rw [hstrip, macDenotes, List.splitOn_eq_singleton hcolon, denoteFields, ofFields_down hv]
  rfl

/-! ### Where they agree -/

/-- Components both loops write alike: no `..`, and empty only at the end of the path. -/
def plainFields : List CStr → Bool
  | [] => true
  | c :: cs => if c = [] then cs.isEmpty else c ≠ dotdot && plainFields cs

/-- A component that is copied in front adds no more moves to the one than to the other. -/
theorem length_ofFields_behind_le {cs : List CStr}
    (hle : (ofFields (colonFields cs)).length ≤ (ofFields cs).length) (c : CStr) :
    (ofFields (c :: colonFields cs)).length ≤ (ofFields (c :: cs)).length := by
  rcases eq_or_ne c [] with rfl | hc
  · rcases cs with _ | ⟨f, fs⟩
    · simp [colonFields]
    · rw [ofFields_up_colonFields]
      simpa using hle
  · rw [ofFields_down hc, ofFields_down hc]
    simpa using hle

theorem length_ofFields_colonFields_le (cs : List CStr) :
    (ofFields (colonFields cs)).length ≤ (ofFields cs).length := by
  fun_induction colonFields cs with
  | case1 => simp
  | case2 => simp [ofFields_dotdot]
  | case3 => simp
  | case4 c cs ih =>
    rw [ofFields_up, ofFields_dotdot]
    simpa using length_ofFields_behind_le ih c
  | case5 c cs hdd ih => exact Nat.le_trans ih (by simp)
  | case6 c c' cs hdd hne ih =>
    rw [ofFields_down hne, ofFields_down hne]
    simpa using ih

theorem ofFields_eq_colonFields_iff (cs : List CStr) :
    ofFields cs = ofFields (colonFields cs) ↔ plainFields cs = true := by
  fun_induction colonFields cs with
  | case1 => simp [plainFields]
  | case2 => simp [ofFields_dotdot, plainFields, dotdot_ne_nil]
  | case3 c hdd => simp [plainFields, hdd]
  | case4 c cs ih => simp [ofFields_dotdot, plainFields, dotdot_ne_nil]
  | case5 c cs hdd ih =>
    have hlen := length_ofFields_colonFields_le (c :: cs)
    have hne : ofFields ([] :: c :: cs) ≠ ofFields (colonFields (c :: cs)) := by
      intro h
      rw [← h, ofFields_up, List.length_cons] at hlen
      omega
    exact iff_of_false hne (by simp [plainFields])
  | case6 c c' cs hdd hne ih =>
    rw [ofFields_down hne, ofFields_down hne]
    simpa [plainFields, hne, hdd] using ih

theorem colonFields_of_plain {cs : List CStr} (h : plainFields cs = true) : colonFields cs = cs := by
  fun_induction plainFields cs with
  | case1 => rfl
  | case2 cs =>
    obtain rfl : cs = [] := by simpa using h
    rfl
  | case3 c cs hne ih =>
    obtain ⟨hdd, hcs⟩ : c ≠ dotdot ∧ plainFields cs = true := by simpa using h
    rw [colonFields_name hne hdd, ih hcs]

/-- The components that both spell alike behind the root slash and `..`, where `..` is the name of
    the default volume: `..///` and then plain components. -/
def dottedRoot : List CStr → Bool
  | c :: d :: e :: f :: fs => c = dotdot && d = [] && e = [] && plainFields (f :: fs)
  | _ => false

/-- On the default volume the one pathname starts with a move into the volume's own name that the
    other does not make. -/
theorem ofFields_eq_down_colonFields {v : CStr} (hv : v ≠ []) (hdd : v ≠ dotdot)
    (cs : List CStr) : ofFields cs ≠ .down v :: ofFields (colonFields cs) := by
  induction cs with
  | nil => simp
  | cons c cs ih =>
    intro h
    rcases eq_or_ne c [] with rfl | hc
    · cases cs <;> simp at h
    · rw [ofFields_down hc] at h
      obtain ⟨hcv, htail⟩ := List.cons.inj h
      obtain rfl : c = v := Step.down.inj hcv
      rw [colonFields_name hv hdd, ofFields_down hv] at htail
      exact ih htail

theorem dottedRoot_eq_false {cs : List CStr} (h : ∀ fs, cs ≠ dotdot :: [] :: [] :: fs) :
    dottedRoot cs = false := by
  rcases cs with _ | ⟨c, _ | ⟨d, _ | ⟨e, _ | ⟨f, fs⟩⟩⟩⟩ <;> try rfl
  by_contra hne
  simp only [dottedRoot, Bool.not_eq_false, Bool.and_eq_true, decide_eq_true_eq] at hne
  obtain ⟨⟨⟨rfl, rfl⟩, rfl⟩, -⟩ := hne
  exact h (f :: fs) rfl

theorem ofFields_eq_dotdot_colonFields (cs : List CStr) :
    ofFields cs = .down dotdot :: ofFields (colonFields cs) ↔ dottedRoot cs = true := by
  by_cases hcs : ∃ fs, cs = dotdot :: [] :: [] :: fs
  · obtain ⟨fs, rfl⟩ := hcs
    rw [ofFields_dotdot, colonFields_dotdot, ofFields_up, ofFields_up]
    rcases fs with _ | ⟨f, fs⟩
    · simp [dottedRoot, colonFields, dotdot_ne_nil]
    · rw [ofFields_up, colonFields_empty, ofFields_up_colonFields, List.cons_inj_right,
        List.cons_inj_right, List.cons_inj_right, ofFields_eq_colonFields_iff]
      simp [dottedRoot]
  -- otherwise the walks part at the first move that is not `dotdot`
  · rw [dottedRoot_eq_false (fun fs h => hcs ⟨fs, h⟩)]
    refine iff_of_false (fun h => ?_) (by simp)
    rcases cs with _ | ⟨c, cs⟩
    · simp at h
    rcases eq_or_ne c [] with rfl | hc
    · cases cs <;> simp at h
    rw [ofFields_down hc] at h
    obtain ⟨hcd, htail⟩ := List.cons.inj h
    obtain rfl : c = dotdot := Step.down.inj hcd
    rcases cs with _ | ⟨d, cs⟩
    · simp [colonFields] at htail
    rw [colonFields_dotdot, ofFields_up] at htail
    rcases eq_or_ne d [] with rfl | hd
    · rcases cs with _ | ⟨e, cs⟩
      · simp at htail
      by_cases he : e = []
      · exact hcs ⟨cs, by rw [he]⟩
      · rw [ofFields_up, ofFields_down he, ofFields_up_colonFields] at htail
        simp at htail
    · rw [ofFields_down hd] at htail
      simp at htail

/-- The paths on which the two resolvers agree: plain components, on a relative path that does not
    start with `.`, or below `/Volumes/V` but for `/Volumes/V/` itself. On the default volume they
    agree on next to nothing. -/
def resolversAgree (default_volume : VolumeName) : CStr → Bool
  | '/' :: p =>
    if volumesPrefix.isPrefixOf p then
      plainFields ((p.drop 8).splitOn '/').tail &&
        (((p.drop 8).splitOn '/').head? = some [] || ((p.drop 8).splitOn '/').tail ≠ [[]])
    else
      default_volume.name = dotdot && (p.splitOn '/').head? = some dotdot &&
        dottedRoot (p.splitOn '/').tail
  | p => (p.splitOn '/').head? ≠ some dot && plainFields (p.splitOn '/')

/-! ### Agreement -/

theorem macDenotes_wholeBasicPath_rel {path : CStr} (hrel : path.head? ≠ some '/')
    (hcolon : ':' ∉ path) :
    macDenotes (wholeBasicPath path) = (.default, ofFields (path.splitOn '/')) := by
  rw [wholeBasicPath_rel hrel hcolon, macDenotes_colon, macSteps_colon,
    splitOn_map_slashToColon hcolon]

/-- Relative paths: both walks start in the default directory. -/
theorem resolvers_agree_relative (dv : VolumeName) {c : Char} {p : CStr} (hc : c ≠ '/')
    (hcolon : ':' ∉ c :: p) :
    macDenotes (wholeBasicPath (c :: p)) = macDenotes (wholeMacPath dv (c :: p)) ↔
      ((c :: p).splitOn '/').head? ≠ some dot ∧ plainFields ((c :: p).splitOn '/') = true := by
  obtain ⟨h, t, ht⟩ := exists_fields '/' (c :: p)
  have hskip : ∀ n, ':' ∉ skipSlash ((c :: p).drop n) := fun n hm =>
    hcolon (List.mem_of_mem_drop ((skipSlash_sublist _).mem hm))
  have hstrip : ∀ s, macDenotes (stripColon (':' :: s)) = (.default, ofFields (s.splitOn ':')) := by
    intro s
    rw [macDenotes_stripColon (splitOn_cons_self ':' s) (.inl rfl), macDenotes_colon,
      macSteps_colon]
  rw [macDenotes_wholeBasicPath_rel (by simpa using hc) hcolon, wholeMacPath_eq dv (by simp),
    toMacStart_rel dv hc ht, ht]
  rcases eq_or_ne h dot with rfl | hd
  · simp only [if_true, List.singleton_append]
    rw [hstrip, ofFields_dot]
    refine iff_of_false (fun heq => ?_) (by simp)
    have hlen := congrArg (fun d => d.2.length) heq
    rcases skip_component ht with ⟨rfl, hrest⟩ | hrest <;>
      rw [show dot.length = 1 from rfl] at hrest
    · rw [hrest] at hlen
      simp at hlen
    · obtain ⟨h', t', ht'⟩ := exists_fields '/' (skipSlash ((c :: p).drop 1))
      rw [toMacWhole_fields (hskip 1) ht', ← hrest, ht'] at hlen
      have hle := length_ofFields_behind_le (length_ofFields_colonFields_le t') h'
      simp only [List.length_cons] at hlen
      omega
  rcases eq_or_ne h dotdot with rfl | hdd
  · simp only [if_neg hd, if_true, List.cons_append, List.nil_append]
    obtain ⟨f, fs, hf⟩ := exists_fields ':' (toMacWhole (skipSlash ((c :: p).drop 2)))
    rw [hstrip, ofFields_dotdot, splitOn_cons_self, hf, ofFields_up]
    simp [plainFields, dotdot_ne_nil]
  · have hne := head_ne_nil hc ht
    simp only [if_neg hd, if_neg hdd, List.singleton_append]
    rw [hstrip, toMacWhole_fields hcolon ht, ofFields_down hne, ofFields_down hne]
    simpa [plainFields, hne, hd, hdd] using ofFields_eq_colonFields_iff t

/-- Paths below `/Volumes/`: both walks start in the volume. -/
theorem resolvers_agree_volumes (dv : VolumeName) {p : CStr} (hcolon : ':' ∉ p)
    (hvol : volumesPrefix.isPrefixOf p = true) :
    macDenotes (wholeBasicPath ('/' :: p)) = macDenotes (wholeMacPath dv ('/' :: p)) ↔
      plainFields ((p.drop 8).splitOn '/').tail = true ∧
        (((p.drop 8).splitOn '/').head? = some [] ∨ ((p.drop 8).splitOn '/').tail ≠ [[]]) := by
  have hrest : ':' ∉ p.drop 8 := fun hm => hcolon (List.mem_of_mem_drop hm)
  rw [wholeBasicPath_abs, if_pos hvol, wholeMacPath_eq dv (by simp), toMacStart, if_pos hvol,
    List.nil_append, macDenotes, splitOn_map_slashToColon hrest]
  obtain ⟨v, cs, hv⟩ := exists_fields '/' (p.drop 8)
  have hfull := toMacWhole_fields hrest hv
  rw [hv]
  by_cases hdeg : v = [] ∨ colonFields cs ≠ [[]]
  · rw [macDenotes_stripColon hfull hdeg, macDenotes, hfull]
    have hcs : v = [] ∨ cs ≠ [[]] := hdeg.imp id fun h hcs => h (by rw [hcs]; rfl)
    rcases cs with _ | ⟨f, fs⟩
    · simp [plainFields, colonFields]
    have hne := colonFields_ne_nil (List.cons_ne_nil f fs)
    have hstart : denoteFields (v :: f :: fs) = denoteFields (v :: colonFields (f :: fs)) ↔
        ofFields (f :: fs) = ofFields (colonFields (f :: fs)) := by
      by_cases hv' : v = []
      · simp [hv']
      · rw [denoteFields_volume hv' (by simp), denoteFields_volume hv' hne]
        simp
    rw [hstart, ofFields_eq_colonFields_iff]
    simpa using fun _ => hcs
  · obtain ⟨hv', hcs⟩ : v ≠ [] ∧ colonFields cs = [[]] := by simpa using hdeg
    rw [hcs] at hfull
    have hvc : ':' ∉ v := not_mem_field (hfull ▸ List.mem_cons_self)
    have hwhole : toMacWhole (p.drop 8) = v ++ [':'] := by
      have hjoin : [':'].intercalate ((toMacWhole (p.drop 8)).splitOn ':') =
          toMacWhole (p.drop 8) := List.intercalate_splitOn ':'
      simpa [hfull] using hjoin.symm
    have hne : cs ≠ [] := by
      rintro rfl
      simp [colonFields] at hcs
    rw [hwhole, macDenotes_stripColon_volume hv' hvc, denoteFields_volume hv' hne]
    refine iff_of_false (by simp) ?_
    rintro ⟨hplain, hv'' | hcs'⟩
    · simp [hv'] at hv''
    · rw [List.tail_cons] at hplain hcs'
      rw [colonFields_of_plain hplain] at hcs
      exact absurd hcs hcs'

/-- Paths on the default volume: path_to_fsspec_basic takes their first component for a volume. -/
theorem resolvers_agree_root (dv : VolumeName) {p : CStr} (hcolon : ':' ∉ p)
    (hvol : volumesPrefix.isPrefixOf p = false) :
    macDenotes (wholeBasicPath ('/' :: p)) = macDenotes (wholeMacPath dv ('/' :: p)) ↔
      dv.name = dotdot ∧ (p.splitOn '/').head? = some dotdot ∧
        dottedRoot (p.splitOn '/').tail = true := by
  obtain ⟨v, cs, hv⟩ := exists_fields '/' p
  rw [wholeBasicPath_abs, hvol, wholeMacPath_eq dv (by simp), toMacStart, hvol]
  simp only [Bool.false_eq_true, if_false]
  have hfull : (dv.name ++ [':'] ++ toMacWhole p).splitOn ':' = dv.name :: v :: colonFields cs := by
    rw [List.append_assoc, List.singleton_append,
      List.splitOn_append_cons_self_of_not_mem dv.no_colon, toMacWhole_fields hcolon hv]
  have hbasic : macDenotes (p.map slashToColon) = denoteFields (v :: cs) := by
    rw [macDenotes, splitOn_map_slashToColon hcolon, hv]
  rw [hbasic, hv]
  by_cases hdeg : v :: colonFields cs = [[]]
  · obtain ⟨rfl, hcs⟩ : v = [] ∧ colonFields cs = [] := by simpa using hdeg
    obtain rfl : cs = [] := not_not.mp fun h => colonFields_ne_nil h hcs
    obtain ⟨rfl, -⟩ | ⟨_, _, habs⟩ := eq_of_splitOn hv
    · rw [toMacWhole_nil, List.append_nil, macDenotes_stripColon_volume dv.ne_nil dv.no_colon]
      exact iff_of_false (by simp [denoteFields]) (by simp [dotdot])
    · exact absurd habs (List.splitOn_ne_nil _ _)
  rw [macDenotes_stripColon hfull (.inr hdeg), macDenotes, hfull,
    denoteFields_volume dv.ne_nil (by simp), List.head?_cons, List.tail_cons]
  rcases cs with _ | ⟨f, fs⟩
  · exact iff_of_false (by simp [denoteFields]) (by simp [dottedRoot])
  rcases eq_or_ne v [] with rfl | hv'
  · exact iff_of_false (by simp) (by simp [dotdot])
  rw [denoteFields_volume hv' (by simp), ofFields_down hv', Prod.mk.injEq, Start.volume.injEq]
  rcases eq_or_ne v dotdot with rfl | hdd
  · rw [ofFields_eq_dotdot_colonFields, eq_comm]
    simp
  · exact iff_of_false (fun h => ofFields_eq_down_colonFields hv' hdd _ h.2) (by simp [hdd])

/-- The pathnames the two resolvers pass on denote the same object exactly when the path is one of
    `resolversAgree`. -/
theorem resolvers_agree_iff (default_volume : VolumeName) (path : CStr) (hcolon : ':' ∉ path)
    (hbasic : (wholeBasicPath path).length ≤ 255)
    (hfull : (wholeMacPath default_volume path).length ≤ 255) :
    SameObject (basicPPath path).chars (fullPPath default_volume path).chars ↔
      resolversAgree default_volume path = true := by
  rw [sameObject_iff, basicPPath_of_short hcolon hbasic, fullPPath_of_short hfull]
  rcases path with _ | ⟨c, p⟩
  · exact iff_of_true rfl rfl
  have hp : ':' ∉ p := fun h => hcolon (List.mem_cons_of_mem _ h)
  rcases eq_or_ne c '/' with rfl | hc
  · cases hvol : volumesPrefix.isPrefixOf p with
    | true =>
      rw [resolvers_agree_volumes default_volume hp hvol]
      simp [resolversAgree, hvol]
    | false =>
      rw [resolvers_agree_root default_volume hp hvol]
      simp [resolversAgree, hvol, and_assoc]
  · rw [resolvers_agree_relative default_volume hc hcolon, resolversAgree]
    · simp
    · simpa using hc

/-- `foo/bar` is one of them. -/
theorem resolvers_agree_plain :
    SameObject (basicPPath "foo/bar".toList).chars
      (fullPPath macintoshHD "foo/bar".toList).chars :=
  (resolvers_agree_iff macintoshHD "foo/bar".toList (by decide) (by decide +kernel)
    (by decide +kernel)).mpr (by decide +kernel)

/-- mkdir makes `/a/b` on the default volume; open looks for it on a volume named `a`. -/
theorem resolvers_differ_on_default_volume :
    ':' ∉ "/a/b".toList ∧ (wholeBasicPath "/a/b".toList).length ≤ 255 ∧
      (wholeMacPath macintoshHD "/a/b".toList).length ≤ 255 ∧
      ¬SameObject (basicPPath "/a/b".toList).chars (fullPPath macintoshHD "/a/b".toList).chars := by
  rw [sameObject_iff]
  decide +kernel

end Posix9
