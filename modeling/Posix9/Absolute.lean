import Posix9.PathFromMac
import Posix9.PathToMac

/-! Absolute paths: `/Volumes/V/c₁/…/cₙ` and `V:c₁:…:cₙ` are translated into each other, and which absolute
    paths are translated into full pathnames.

    A pathname is full by its first colon. The translator writes that colon behind the volume and strips a
    colon that ends the pathname, so the two meet where nothing stands behind the volume. -/

namespace Posix9
open Fields Walk

/-! ### There and back -/

/-- A component that both notations can spell. -/
structure Component (c : CStr) : Prop where
  ne_nil : c ≠ []
  no_slash : '/' ∉ c
  no_colon : ':' ∉ c

/-- `/Volumes/V/c₁/…/cₙ`. -/
def posixForm (V : CStr) (cs : List CStr) : CStr := '/' :: (volumesPrefix ++ ['/'].intercalate (V :: cs))

/-- `V:c₁:…:cₙ`. -/
def macForm (V : CStr) (cs : List CStr) : CStr := [':'].intercalate (V :: cs)

section Forms

variable {V : CStr} {cs : List CStr}

theorem splitOn_slashes (hV : Component V) (hcs : ∀ c ∈ cs, Component c ∧ c ≠ dotdot) :
    (['/'].intercalate (V :: cs)).splitOn '/' = V :: cs := by
  refine List.splitOn_intercalate '/' (fun c hc => ?_) (List.cons_ne_nil V cs)
  rcases List.mem_cons.mp hc with rfl | hc
  · exact hV.no_slash
  · exact (hcs c hc).1.no_slash

theorem splitOn_macForm (hV : Component V) (hcs : ∀ c ∈ cs, Component c ∧ c ≠ dotdot) :
    (macForm V cs).splitOn ':' = V :: cs := by
  refine List.splitOn_intercalate ':' (fun c hc => ?_) (List.cons_ne_nil V cs)
  rcases List.mem_cons.mp hc with rfl | hc
  · exact hV.no_colon
  · exact (hcs c hc).1.no_colon

/-- No look-ahead branch of the one loop fires on such components. -/
theorem colonFields_components (hcs : ∀ c ∈ cs, Component c ∧ c ≠ dotdot) : colonFields cs = cs := by
  induction cs with
  | nil => rfl
  | cons c cs ih =>
    obtain ⟨hc, hdd⟩ := hcs c List.mem_cons_self
    rw [colonFields_name hc.ne_nil hdd, ih fun d hd => hcs d (List.mem_cons_of_mem c hd)]

/-- Nor of the other. -/
theorem slashFields_components (hcs : ∀ c ∈ cs, Component c ∧ c ≠ dotdot) : slashFields cs = cs := by
  induction cs with
  | nil => rfl
  | cons c cs ih =>
    obtain ⟨hc, -⟩ := hcs c List.mem_cons_self
    rw [slashFields_name hc.ne_nil, ih fun d hd => hcs d (List.mem_cons_of_mem c hd)]

/-- A character that no component and no separator has is not in the text. -/
theorem not_mem_intercalate {a b : Char} (hab : a ≠ b) (h : ∀ c ∈ V :: cs, a ∉ c)
    (hsplit : ([b].intercalate (V :: cs)).splitOn b = V :: cs) : a ∉ [b].intercalate (V :: cs) :=
  not_mem_of_fields hab fun f hf => h f (hsplit ▸ hf)

/-- The last component is not empty, so there is no colon to strip. -/
theorem stripColon_macForm (hV : Component V) (hcs : ∀ c ∈ cs, Component c ∧ c ≠ dotdot) :
    stripColon (macForm V cs) = macForm V cs := by
  rcases stripColon_cases (macForm V cs) with hs | ⟨x, c, -, hm, -⟩
  · exact hs
  have hfields := splitOn_macForm hV hcs
  rw [hm, splitOn_concat_self] at hfields
  have hempty : [] ∈ V :: cs := hfields ▸ List.mem_append_right _ List.mem_cons_self
  rcases List.mem_cons.mp hempty with hV' | hc
  · exact absurd hV'.symm hV.ne_nil
  · exact absurd rfl (hcs [] hc).1.ne_nil

theorem wholeMacPath_posixForm (dv : VolumeName) (hV : Component V)
    (hcs : ∀ c ∈ cs, Component c ∧ c ≠ dotdot) : wholeMacPath dv (posixForm V cs) = macForm V cs := by
  have hsplit := splitOn_slashes hV hcs
  have hpre : volumesPrefix.isPrefixOf (volumesPrefix ++ ['/'].intercalate (V :: cs)) = true :=
    List.isPrefixOf_iff_prefix.mpr (List.prefix_append _ _)
  have hdrop : (volumesPrefix ++ ['/'].intercalate (V :: cs)).drop 8 = ['/'].intercalate (V :: cs) :=
    List.drop_left' (by decide)
  have hstart : toMacStart dv (posixForm V cs) = ([], ['/'].intercalate (V :: cs)) := by
    simp [posixForm, toMacStart, hpre, hdrop]
  have hcolon : ':' ∉ ['/'].intercalate (V :: cs) := by
    refine not_mem_intercalate (by decide) (fun c hc => ?_) hsplit
    rcases List.mem_cons.mp hc with rfl | hc
    · exact hV.no_colon
    · exact (hcs c hc).1.no_colon
  have hfields := toMacWhole_fields hcolon hsplit
  rw [colonFields_components hcs] at hfields
  have hloop : toMacWhole (['/'].intercalate (V :: cs)) = macForm V cs := by
    have hjoin := congrArg ([':'].intercalate ·) hfields
    simpa only [List.intercalate_splitOn, macForm] using hjoin
  have hne : posixForm V cs ≠ [] := List.cons_ne_nil _ _
  rw [wholeMacPath_eq dv hne, hstart, List.nil_append, hloop, stripColon_macForm hV hcs]

theorem wholePosixPath_macForm (hV : Component V) (hcs : ∀ c ∈ cs, Component c ∧ c ≠ dotdot) :
    wholePosixPath (macForm V cs) = posixForm V cs := by
  have hsplit := splitOn_macForm hV hcs
  have hslash : '/' ∉ macForm V cs := by
    refine not_mem_intercalate (by decide) (fun c hc => ?_) hsplit
    rcases List.mem_cons.mp hc with rfl | hc
    · exact hV.no_slash
    · exact (hcs c hc).1.no_slash
  have hfields := fromMacWhole_fields hslash hsplit
  rw [slashFields_components hcs] at hfields
  have hloop : fromMacWhole (macForm V cs) = ['/'].intercalate (V :: cs) := by
    have hjoin := congrArg (['/'].intercalate ·) hfields
    simpa only [List.intercalate_splitOn] using hjoin
  generalize hm : macForm V cs = m at hsplit hloop ⊢
  rcases m with _ | ⟨c, q⟩
  · rw [List.splitOn_nil] at hsplit
    exact absurd (List.cons.inj hsplit).1.symm hV.ne_nil
  have hc : c ≠ ':' := by
    rintro rfl
    rw [splitOn_cons_self] at hsplit
    exact hV.ne_nil (List.cons.inj hsplit).1.symm
  rw [wholePosixPath_eq (List.cons_ne_nil c q), fromMacStart_full q hc, hloop]
  rfl

end Forms

/-- On canonical absolute paths the translators are inverse to each other. -/
theorem translations_inverse (default_volume : VolumeName) (V : CStr) (cs : List CStr) (hV : Component V)
    (hcs : ∀ c ∈ cs, Component c ∧ c ≠ dotdot) (mac_size posix_size : ℕ)
    (hmac : (macForm V cs).length < mac_size) (hposix : (posixForm V cs).length < posix_size) :
    posix9_path_to_mac default_volume (posixForm V cs) mac_size = macForm V cs ∧
      posix9_path_from_mac (macForm V cs) posix_size = posixForm V cs ∧
      posix9_path_from_mac (posix9_path_to_mac default_volume (posixForm V cs) mac_size) posix_size =
        posixForm V cs ∧
      posix9_path_to_mac default_volume (posix9_path_from_mac (macForm V cs) posix_size) mac_size =
        macForm V cs := by
  have hto : posix9_path_to_mac default_volume (posixForm V cs) mac_size = macForm V cs := by
    have hwhole := wholeMacPath_posixForm default_volume hV hcs
    rw [posix9_path_to_mac_of_fits default_volume _ (by rwa [hwhole]), hwhole]
  have hfrom : posix9_path_from_mac (macForm V cs) posix_size = posixForm V cs := by
    have hwhole := wholePosixPath_macForm hV hcs
    rw [posix9_path_from_mac_of_fits _ (by rwa [hwhole]), hwhole]
  refine ⟨hto, hfrom, ?_, ?_⟩
  · rw [hto, hfrom]
  · rw [hfrom, hto]

/-- `/Volumes/Macintosh HD/...a/.b`, with names that begin with dots. -/
theorem translations_inverse_dots :
    posix9_path_to_mac macintoshHD (posixForm "Macintosh HD".toList ["...a".toList, ".b".toList]) 256 =
        "Macintosh HD:...a:.b".toList ∧
      posix9_path_from_mac "Macintosh HD:...a:.b".toList 256 = "/Volumes/Macintosh HD/...a/.b".toList ∧
      posix9_path_from_mac (posix9_path_to_mac macintoshHD
        (posixForm "Macintosh HD".toList ["...a".toList, ".b".toList]) 256) 256 =
          "/Volumes/Macintosh HD/...a/.b".toList ∧
      posix9_path_to_mac macintoshHD (posix9_path_from_mac "Macintosh HD:...a:.b".toList 256) 256 =
        "Macintosh HD:...a:.b".toList := by
  refine translations_inverse macintoshHD "Macintosh HD".toList ["...a".toList, ".b".toList]
    ⟨by decide, by decide, by decide⟩ (fun c hc => ?_) 256 256 (by decide) (by decide)
  rcases List.mem_cons.mp hc with rfl | hc
  · exact ⟨⟨by decide, by decide, by decide⟩, by decide⟩
  · obtain rfl := List.mem_singleton.mp hc
    exact ⟨⟨by decide, by decide, by decide⟩, by decide⟩

/-! ### Full pathnames -/

/-- A full pathname of volume `v`: `v` is what stands before its first colon. -/
structure FullFrom (v m : CStr) : Prop where
  colon : ':' ∈ m
  not_leading : m.head? ≠ some ':'
  volume : m.takeWhile (· ≠ ':') = v

/-- The volume an absolute path is on: the one it names, or the default volume where its first component is
    not `Volumes`. -/
inductive OnVolume (default_volume : VolumeName) : CStr → CStr → Prop
  | named (V rest : CStr) (hV : Component V) (hrest : rest = [] ∨ rest.head? = some '/') :
      OnVolume default_volume ('/' :: (volumesPrefix ++ (V ++ rest))) V
  | default (p : CStr) (hp : (p.splitOn '/').head? ≠ some "Volumes".toList) :
      OnVolume default_volume ('/' :: p) default_volume.name

/-- Something stands behind the root: a component behind `/Volumes/V`, any character behind the slash of the
    default volume. -/
def behindRoot : CStr → Bool
  | '/' :: p =>
    if volumesPrefix.isPrefixOf p then ((p.drop 8).splitOn '/').tail.any (· ≠ []) else p ≠ []
  | _ => false

theorem toMacWhole_append {v : CStr} (hv : '/' ∉ v) (p : CStr) : toMacWhole (v ++ p) = v ++ toMacWhole p := by
  induction v with
  | nil => rfl
  | cons c v ih =>
    obtain ⟨hc, hv⟩ := not_or.mp (mt List.mem_cons.mpr hv)
    rw [List.cons_append, toMacWhole_char _ (Ne.symm hc), ih hv, List.cons_append]

theorem toMacWhole_eq_nil {p : CStr} : toMacWhole p = [] ↔ p = [] := by
  refine ⟨fun h => ?_, fun h => by rw [h, toMacWhole_nil]⟩
  rcases p with _ | ⟨c, p⟩
  · rfl
  rcases eq_or_ne c '/' with rfl | hc
  · cases hdd : atDotDot (skipSlashes p) with
    | true => simp [toMacWhole_up hdd] at h
    | false => simp [toMacWhole_sep hdd] at h
  · simp [toMacWhole_char p hc] at h

/-- The first colon survives where something is written behind it. -/
theorem fullFrom_stripColon {v : CStr} (hv : v ≠ []) (hcolon : ':' ∉ v) (w : CStr) :
    FullFrom v (stripColon (v ++ ':' :: w)) ↔ w ≠ [] := by
  have hfull : ∀ u, FullFrom v (v ++ ':' :: u) := by
    intro u
    refine ⟨by simp, ?_, ?_⟩
    · rcases v with _ | ⟨c, v⟩
      · exact absurd rfl hv
      · rintro h
        obtain rfl : c = ':' := by simpa using h
        exact hcolon List.mem_cons_self
    · rw [List.takeWhile_append_of_pos fun c hc => by simpa using fun h : c = ':' => hcolon (h ▸ hc)]
      simp
  constructor
  · rintro h rfl
    obtain ⟨x, c, rfl⟩ : ∃ x c, v = x ++ [c] :=
      (List.eq_nil_or_concat' v).resolve_left hv
    have hc : c ≠ ':' := fun h => hcolon (by simp [h])
    have hstrip : stripColon (x ++ [c] ++ [':']) = x ++ [c] := by simp [stripColon, hc]
    rw [hstrip] at h
    exact hcolon h.colon
  · intro hw
    obtain ⟨u, c, rfl⟩ : ∃ u c, w = u ++ [c] := (List.eq_nil_or_concat' w).resolve_left hw
    rcases stripColon_cases (v ++ ':' :: (u ++ [c])) with hs | ⟨x, d, -, hx, hs⟩
    · rw [hs]
      exact hfull _
    · have hx' : (v ++ ':' :: u) ++ [c] = (x ++ [d]) ++ [':'] := by simpa using hx
      rw [hs, ← (List.append_inj' hx' rfl).1]
      exact hfull u

/-- What is written behind the name of a volume. -/
theorem toMacWhole_behind {rest : CStr} (hrest : rest = [] ∨ rest.head? = some '/') :
    toMacWhole rest = [] ∧ rest = [] ∨
      ∃ w, toMacWhole rest = ':' :: w ∧ (w ≠ [] ↔ (rest.splitOn '/').tail.any (· ≠ []) = true) := by
  rcases hrest with rfl | hrest
  · exact .inl ⟨toMacWhole_nil, rfl⟩
  obtain ⟨r, rfl⟩ := List.head?_eq_some_iff.mp hrest
  refine .inr ?_
  have hany : (skipSlashes r ≠ []) ↔ (('/' :: r).splitOn '/').tail.any (· ≠ []) = true := by
    rw [splitOn_cons_self, List.tail_cons]
    induction r with
    | nil => simp [skipSlashes]
    | cons c r ih =>
      rcases eq_or_ne c '/' with rfl | hc
      · simpa [skipSlashes] using ih rfl
      · obtain ⟨h, t, ht⟩ := exists_fields '/' r
        simp [skipSlashes, hc, splitOn_cons_of_ne hc ht]
  rw [← hany]
  cases hdd : atDotDot (skipSlashes r) with
  | true =>
    refine ⟨_, toMacWhole_up hdd, iff_of_true (List.cons_ne_nil _ _) fun h => ?_⟩
    rw [h] at hdd
    cases hdd
  | false => exact ⟨_, toMacWhole_sep hdd, not_congr toMacWhole_eq_nil⟩

/-- `/Volumes/` in front is the component `Volumes`. -/
theorem volumes_head {p : CStr} (h : volumesPrefix.isPrefixOf p = true) :
    (p.splitOn '/').head? = some "Volumes".toList := by
  rw [splitOn_volumes h, List.head?_cons]

/-- posix9_path_to_mac makes a full pathname of an absolute path exactly when something stands behind the
    root. -/
theorem full_iff_behindRoot (default_volume : VolumeName) (path v : CStr)
    (hvol : OnVolume default_volume path v) (dst_size : ℕ)
    (hfit : (wholeMacPath default_volume path).length < dst_size) :
    FullFrom v (posix9_path_to_mac default_volume path dst_size) ↔ behindRoot path = true := by
  rw [posix9_path_to_mac_of_fits default_volume path hfit]
  cases hvol with
  | named V rest hV hrest =>
    have hpre : volumesPrefix.isPrefixOf (volumesPrefix ++ (v ++ rest)) = true :=
      List.isPrefixOf_iff_prefix.mpr (List.prefix_append _ _)
    have hdrop : (volumesPrefix ++ (v ++ rest)).drop 8 = v ++ rest := List.drop_left' (by decide)
    rw [wholeMacPath_eq default_volume (List.cons_ne_nil _ _), toMacStart, if_pos hpre, hdrop, List.nil_append,
      toMacWhole_append hV.no_slash, behindRoot, if_pos hpre, hdrop]
    rcases toMacWhole_behind hrest with ⟨hnil, rfl⟩ | ⟨w, hw, hany⟩
    · rw [hnil, List.append_nil, List.splitOn_eq_singleton hV.no_slash]
      refine iff_of_false (fun h => ?_) (by simp)
      rcases stripColon_cases v with hs | ⟨x, c, -, rfl, hs⟩
      · exact hV.no_colon (hs ▸ h.colon)
      · exact hV.no_colon (by simp)
    · have htail : ((v ++ rest).splitOn '/').tail = (rest.splitOn '/').tail := by
        obtain ⟨r, rfl⟩ : ∃ r, rest = '/' :: r := by
          rcases hrest with rfl | hrest
          · simp at hw
          · exact List.head?_eq_some_iff.mp hrest
        rw [List.splitOn_append_cons_self_of_not_mem hV.no_slash, splitOn_cons_self]
        rfl
      rw [hw, htail, fullFrom_stripColon hV.ne_nil hV.no_colon, hany]
  | default p hp =>
    have hpre : volumesPrefix.isPrefixOf p = false := Bool.eq_false_iff.mpr fun h => hp (volumes_head h)
    rw [wholeMacPath_eq default_volume (List.cons_ne_nil _ _), toMacStart, behindRoot, hpre]
    simp only [Bool.false_eq_true, if_false, List.append_assoc, List.singleton_append, decide_eq_true_eq]
    rw [fullFrom_stripColon default_volume.ne_nil default_volume.no_colon, Ne, toMacWhole_eq_nil]

/-- `/Users/scott`, of the translator's own examples. -/
theorem full_users : FullFrom "Macintosh HD".toList
    (posix9_path_to_mac macintoshHD "/Users/scott".toList 256) :=
  (full_iff_behindRoot macintoshHD "/Users/scott".toList "Macintosh HD".toList
    (.default "Users/scott".toList (by decide +kernel)) 256 (by decide +kernel)).mpr (by decide +kernel)

/-- `/Volumes/Macintosh HD`, another of them, becomes `Macintosh HD`, a name in the default directory; its
    comment and the rule for the trailing colon promise the root of the volume. -/
theorem volume_root_not_full :
    OnVolume macintoshHD "/Volumes/Macintosh HD".toList "Macintosh HD".toList ∧
      (wholeMacPath macintoshHD "/Volumes/Macintosh HD".toList).length < 256 ∧
      ¬ FullFrom "Macintosh HD".toList (posix9_path_to_mac macintoshHD "/Volumes/Macintosh HD".toList 256) := by
  refine ⟨.named "Macintosh HD".toList [] ⟨by decide, by decide, by decide⟩ (.inl rfl), by decide +kernel,
    fun h => ?_⟩
  have hpath : posix9_path_to_mac macintoshHD "/Volumes/Macintosh HD".toList 256 = "Macintosh HD".toList := by
    decide +kernel
  exact absurd (hpath ▸ h.colon) (by decide)

end Posix9
