import Posix9.Mkdir

/-! What rename leaves at its new path. The old path goes through path_to_fsspec_basic, of the new one only what
    is behind the last separator is read: its directory part is never looked at. -/

namespace Posix9
open Fields Walk

/-! ### Objects and where they are -/

/-- A pathname as one walk: the volume it starts from is a child of the directory of the volumes. -/
def macWalk (mac_path : CStr) : List Move :=
  match macDenotes mac_path with
  | (.default, moves) => moves
  | (.volume v, moves) => .down v :: moves

/-- The parID of a volume's root directory. -/
def fsRtParID : ℤ := 1

/-- The directory of all volumes, which has no number of its own. -/
def volumes : ℤ × ℤ := (0, fsRtParID)

/-- Where that walk starts. -/
def walkOrigin (home : Option (ℤ × ℤ)) (mac_path : CStr) : Option (ℤ × ℤ) :=
  match (macDenotes mac_path).1 with
  | .default => home
  | .volume _ => some volumes

/-- The directory a file specification is in. -/
def FSSpec.directory (spec : FSSpec) : ℤ × ℤ := if spec.parID = fsRtParID then volumes else (spec.vRefNum, spec.parID)

variable {fm : FileManager}

/-- The object a file specification stands for, by its volume and its catalog ID. -/
def FileManager.Catalog.object (cat : fm.Catalog) (spec : FSSpec) (mac : fm.State) : Option (ℤ × ℤ) :=
  let (err, info) := cat.named spec mac
  if err = noErr then some (spec.vRefNum, info.ioDirID) else none

/-- The object FSMakeFSSpec and the catalog find under a pathname. -/
def FileManager.Catalog.find (cat : fm.Catalog) (name : Str255) (mac : fm.State) : Option (ℤ × ℤ) :=
  let (err, spec) := fm.FSMakeFSSpec name mac
  if err = noErr then cat.object spec mac else none

/-- The object a path designates, by path_to_fsspec_basic. -/
def FileManager.Catalog.designated (cat : fm.Catalog) (path : CStr) (mac : fm.State) : Option (ℤ × ℤ) :=
  cat.find (basicPPath path) mac

/-- A File Manager that keeps its objects, volumes included, in a tree, each in one directory under one name. `same`
    are the names it takes for one, `home` is the default directory. FSpRename changes the name of one object and
    nothing else; it refuses a name another object has, and where it fails it has done nothing. -/
structure FileManager.Catalog.Hierarchy (cat : fm.Catalog) where
  same : CStr → CStr → Prop
  same_equiv : Equivalence same
  tree : fm.State → Walk.Catalog CStr (ℤ × ℤ)
  home : fm.State → Option (ℤ × ℤ)
  child_same : ∀ mac d n n', same n n' → (tree mac).child d n = (tree mac).child d n'
  child_unique : ∀ mac d n d' n' o, (tree mac).child d n = some o → (tree mac).child d' n' = some o →
    d = d' ∧ same n n'
  found : ∀ name mac, name.chars ≠ [] →
    cat.find name mac = (walkOrigin (home mac) name.chars).bind ((tree mac).follow · (macWalk name.chars))
  located : ∀ name mac spec, fm.FSMakeFSSpec name mac = (noErr, spec) → ∃ o, cat.object spec mac = some o ∧
    (tree mac).child spec.directory spec.name.chars = some o
  renames : ∀ spec name mac o, (cat.FSpRename spec name mac).1 = noErr →
    (tree mac).child spec.directory spec.name.chars = some o →
    Renamed same (tree mac) (tree (cat.FSpRename spec name mac).2) spec.directory spec.name.chars name.chars o ∧
      home (cat.FSpRename spec name mac).2 = home mac
  refuses_taken : ∀ spec name mac, (cat.FSpRename spec name mac).1 = noErr → ¬ same name.chars spec.name.chars →
    (tree mac).child spec.directory name.chars = none
  fails_unchanged : ∀ spec name mac, (cat.FSpRename spec name mac).1 ≠ noErr → (cat.FSpRename spec name mac).2 = mac

namespace FileManager.Catalog.Hierarchy

variable {cat : fm.Catalog} (h : cat.Hierarchy)

/-- The directory the last name of a pathname is in. -/
def directory (mac : fm.State) (mac_path : CStr) : Option (ℤ × ℤ) :=
  match (macWalk mac_path).getLast? with
  | some (.down _) => (walkOrigin (h.home mac) mac_path).bind ((h.tree mac).follow · (macWalk mac_path).dropLast)
  | _ => none

end FileManager.Catalog.Hierarchy

namespace FileState

variable {cat : fm.Catalog} (h : cat.Hierarchy) (s : FileState fm)

/-- A rename that returns 0 has put the old path's object at the new path, and a new path in another directory than
    the object's is refused and leaves the file system as it was. -/
structure ReachesTarget (oldpath newpath : CStr) : Prop where
  target : (s.rename cat oldpath newpath).1 = 0 → ∃ o, cat.designated oldpath s.mac = some o ∧
    cat.designated newpath (s.rename cat oldpath newpath).2.mac = some o
  elsewhere : ∀ oldSpec, fm.FSMakeFSSpec (basicPPath oldpath) s.mac = (noErr, oldSpec) →
    h.directory s.mac (basicPPath newpath).chars ≠ some oldSpec.directory →
    (s.rename cat oldpath newpath).1 = -1 ∧ (s.rename cat oldpath newpath).2.mac = s.mac

/-! ### The condition -/

/-- The name rename passes on. -/
def newName (newpath : CStr) : Str255 := c_to_pstr (strncpyNul (lastComponent newpath) 255)

/-- The directory part of the new path leads to the old object's directory, and not through that object unless its
    name stays, and the resolver reads the name that rename takes. -/
structure SameDirectory (oldSpec : FSSpec) (newpath : CStr) : Prop where
  directory : h.directory s.mac (basicPPath newpath).chars = some oldSpec.directory
  name : ∃ leaf, (macWalk (basicPPath newpath).chars).getLast? = some (.down leaf) ∧
    h.same leaf (newName newpath).chars
  avoids : h.same (newName newpath).chars oldSpec.name.chars ∨
    ∀ x, walkOrigin (h.home s.mac) (basicPPath newpath).chars = some x →
      (h.tree s.mac).Avoids (Into h.same oldSpec.directory oldSpec.name.chars) x
        (macWalk (basicPPath newpath).chars).dropLast

/-- The old path is not found, or the File Manager refuses the new name, or both are in one directory. -/
def RenamesInPlace (oldpath newpath : CStr) : Prop :=
  ∀ oldSpec, fm.FSMakeFSSpec (basicPPath oldpath) s.mac = (noErr, oldSpec) →
    (cat.FSpRename oldSpec (newName newpath) s.mac).1 = noErr → SameDirectory h s oldSpec newpath

/-! ### rename -/

section

variable {h s} {oldpath newpath : CStr} {oldSpec : FSSpec}

/-- rename of an object that is found, by what FSpRename makes of it. -/
theorem rename_found (hold : fm.FSMakeFSSpec (basicPPath oldpath) s.mac = (noErr, oldSpec)) :
    s.rename cat oldpath newpath =
      if (cat.FSpRename oldSpec (newName newpath) s.mac).1 ≠ noErr then
        ({ s with mac := (cat.FSpRename oldSpec (newName newpath) s.mac).2 } : FileState fm).fail
          (cat.FSpRename oldSpec (newName newpath) s.mac).1
      else (0, { s with mac := (cat.FSpRename oldSpec (newName newpath) s.mac).2 }) := by
  rw [rename, hold]
  exact if_neg (not_not.mpr rfl)

theorem rename_refused (hold : fm.FSMakeFSSpec (basicPPath oldpath) s.mac = (noErr, oldSpec))
    (hnew : (cat.FSpRename oldSpec (newName newpath) s.mac).1 ≠ noErr) :
    (s.rename cat oldpath newpath).1 = -1 ∧
      (s.rename cat oldpath newpath).2.mac = (cat.FSpRename oldSpec (newName newpath) s.mac).2 := by
  rw [rename_found hold, if_pos hnew]
  exact ⟨rfl, rfl⟩

theorem rename_done (hold : fm.FSMakeFSSpec (basicPPath oldpath) s.mac = (noErr, oldSpec))
    (hnew : (cat.FSpRename oldSpec (newName newpath) s.mac).1 = noErr) :
    (s.rename cat oldpath newpath).1 = 0 ∧
      (s.rename cat oldpath newpath).2.mac = (cat.FSpRename oldSpec (newName newpath) s.mac).2 := by
  rw [rename_found hold, if_neg (not_not.mpr hnew)]
  exact ⟨rfl, rfl⟩

/-- The walk of a pathname that ends in a name. -/
theorem directory_eq_some {m : CStr} {mac : fm.State} {d : ℤ × ℤ} (hd : h.directory mac m = some d) :
    ∃ w leaf x, macWalk m = w ++ [.down leaf] ∧ walkOrigin (h.home mac) m = some x ∧
      (h.tree mac).follow x w = some d := by
  rw [FileManager.Catalog.Hierarchy.directory] at hd
  split at hd
  · rename_i leaf hleaf
    obtain ⟨w, hw⟩ := List.getLast?_eq_some_iff.mp hleaf
    rw [hw, List.dropLast_concat, Option.bind_eq_some_iff] at hd
    obtain ⟨x, hx, hfollow⟩ := hd
    exact ⟨w, leaf, x, hw, hx, hfollow⟩
  · cases hd

/-- A new path in the old object's directory designates the object afterwards just where its walk still leads there
    and its name is the one the object has been given. -/
theorem designated_iff {o : ℤ × ℤ} (hthere : (h.tree s.mac).child oldSpec.directory oldSpec.name.chars = some o)
    (hnew : (cat.FSpRename oldSpec (newName newpath) s.mac).1 = noErr)
    (hd : h.directory s.mac (basicPPath newpath).chars = some oldSpec.directory) :
    cat.designated newpath (cat.FSpRename oldSpec (newName newpath) s.mac).2 = some o ↔
      SameDirectory h s oldSpec newpath := by
  obtain ⟨w, leaf, x, hw, hx, hfollow⟩ := directory_eq_some hd
  obtain ⟨hren, hhome⟩ := h.renames oldSpec (newName newpath) s.mac o hnew hthere
  have hequiv := h.same_equiv
  have hne : (basicPPath newpath).chars ≠ [] := by
    intro hnil
    rw [hnil] at hw
    cases w <;> cases hw
  have hstill := hren.follow_iff hequiv
    (fun n hn => by rw [h.child_same s.mac oldSpec.directory n _ hn, hthere])
    (fun hdiff n hn => by
      rw [h.child_same s.mac oldSpec.directory n _ hn]
      exact h.refuses_taken oldSpec (newName newpath) s.mac hnew hdiff) hfollow
  rw [FileManager.Catalog.designated, h.found _ _ hne, hhome, hx, Option.bind_some, hw, Catalog.follow_concat]
  have hdrop : (macWalk (basicPPath newpath).chars).dropLast = w := by rw [hw, List.dropLast_concat]
  have hlast : (macWalk (basicPPath newpath).chars).getLast? = some (.down leaf) := by rw [hw, List.getLast?_concat]
  constructor
  · intro ho
    obtain ⟨e, he, hchild⟩ := Option.bind_eq_some_iff.mp ho
    -- an object is in one directory under one name
    obtain ⟨rfl, hleaf⟩ := h.child_unique _ e leaf _ _ o hchild (hren.here _ (hequiv.refl _))
    refine ⟨hd, ⟨leaf, hlast, hleaf⟩, (hstill.mp he).imp id fun havoids y hy => ?_⟩
    rw [hx] at hy
    rw [hdrop]
    exact Option.some.inj hy ▸ havoids
  · intro hsame
    obtain ⟨leaf', hleaf', hname⟩ := hsame.name
    obtain rfl : leaf = leaf' := by
      rw [hlast] at hleaf'
      exact Step.down.inj (Option.some.inj hleaf')
    have havoids := hsame.avoids.imp id fun havoids => havoids x hx
    rw [hdrop] at havoids
    rw [hstill.mpr havoids, Option.bind_some]
    exact hren.here leaf hname

/-! ### Paths without a colon -/

/-- Behind the last slash is the last component. -/
theorem lastComponent_fields {path : CStr} (hcolon : ':' ∉ path) :
    ∃ fs, path.splitOn '/' = fs ++ [lastComponent path] := by
  rw [lastComponent]
  by_cases hslash : '/' ∈ path
  · obtain ⟨a, b, hb, rfl⟩ := split_last hslash
    rw [afterLast_eq hb, List.splitOn_append_cons_self, List.splitOn_eq_singleton hb]
    exact ⟨_, rfl⟩
  · have hnone : ∀ c, c ∉ path → afterLast c path = none := fun c hc => if_neg hc
    rw [hnone '/' hslash, hnone ':' hcolon, List.splitOn_eq_singleton hslash]
    exact ⟨[], rfl⟩

theorem wholeBasicPath_fields {path : CStr} (hcolon : ':' ∉ path) (hne : lastComponent path ≠ []) :
    ∃ fs, (wholeBasicPath path).splitOn ':' = fs ++ [lastComponent path] := by
  obtain ⟨fs, hfs⟩ := lastComponent_fields hcolon
  by_cases hrel : path.head? = some '/'
  · obtain ⟨p, rfl⟩ := List.head?_eq_some_iff.mp hrel
    have hp : ':' ∉ p := fun h => hcolon (List.mem_cons_of_mem _ h)
    rw [splitOn_cons_self] at hfs
    rw [wholeBasicPath_abs]
    -- the empty field in front, and `Volumes` behind it, are not the last one
    have htail : ∀ {f : CStr} {rest fs : List CStr} {leaf : CStr}, rest ≠ [] → f :: rest = fs ++ [leaf] →
        ∃ gs, rest = gs ++ [leaf] := by
      intro f rest fs leaf hrest heq
      rcases fs with _ | ⟨g, gs⟩
      · exact absurd (List.cons.inj heq).2 hrest
      · exact ⟨gs, (List.cons.inj heq).2⟩
    obtain ⟨gs, hgs⟩ := htail (List.splitOn_ne_nil _ _) hfs
    by_cases hvol : volumesPrefix.isPrefixOf p = true
    · rw [if_pos hvol, splitOn_map_slashToColon (fun hm => hp (List.mem_of_mem_drop hm))]
      rw [splitOn_volumes hvol] at hgs
      exact htail (List.splitOn_ne_nil _ _) hgs
    · rw [if_neg hvol, splitOn_map_slashToColon hp]
      exact ⟨gs, hgs⟩
  · rw [wholeBasicPath_rel hrel hcolon, splitOn_cons_self, splitOn_map_slashToColon hcolon, hfs]
    exact ⟨[] :: fs, rfl⟩

/-- Of a path without a colon that is not cut, the resolver reads the name that rename takes. -/
theorem name_of_fits (hcolon : ':' ∉ newpath) (hpath : (wholeBasicPath newpath).length ≤ 255)
    (hne : lastComponent newpath ≠ []) (hname : (lastComponent newpath).length < 255) :
    (macWalk (basicPPath newpath).chars).getLast? = some (.down (newName newpath).chars) := by
  have hnew : (newName newpath).chars = lastComponent newpath := by
    rw [newName, strncpyNul, List.take_of_length_le (by omega), c_to_pstr_chars (by omega)]
  obtain ⟨fs, hfs⟩ := wholeBasicPath_fields hcolon hne
  rw [basicPPath_of_le hpath, hnew]
  rcases fs with _ | ⟨v, fs⟩
  · rw [macWalk, macDenotes, hfs, List.nil_append, denoteFields, ofFields_down hne]
    rfl
  · rw [macWalk, macDenotes_concat hne hfs]
    by_cases hv : v = []
    · rw [if_pos hv]
      exact List.getLast?_concat
    · rw [if_neg hv]
      dsimp only
      rw [← List.cons_append]
      exact List.getLast?_concat

/-- For such a path only its directory part counts. -/
theorem sameDirectory_iff (hcolon : ':' ∉ newpath) (hpath : (wholeBasicPath newpath).length ≤ 255)
    (hne : lastComponent newpath ≠ []) (hname : (lastComponent newpath).length < 255) :
    SameDirectory h s oldSpec newpath ↔
      h.directory s.mac (basicPPath newpath).chars = some oldSpec.directory ∧
      (h.same (newName newpath).chars oldSpec.name.chars ∨
        ∀ x, walkOrigin (h.home s.mac) (basicPPath newpath).chars = some x →
          (h.tree s.mac).Avoids (Into h.same oldSpec.directory oldSpec.name.chars) x
            (macWalk (basicPPath newpath).chars).dropLast) :=
  ⟨fun hsame => ⟨hsame.directory, hsame.avoids⟩, fun hsame =>
    ⟨hsame.1, ⟨_, name_of_fits hcolon hpath hne hname, h.same_equiv.refl _⟩, hsame.2⟩⟩

end

/-! ### The law -/

/-- rename reaches its target, or leaves everything as it was, exactly where both paths are in one directory or the
    File Manager refuses. -/
theorem reachesTarget_iff_renamesInPlace (oldpath newpath : CStr) :
    ReachesTarget h s oldpath newpath ↔ RenamesInPlace h s oldpath newpath := by
  rcases hmake : fm.FSMakeFSSpec (basicPPath oldpath) s.mac with ⟨err, oldSpec⟩
  by_cases herr : err = noErr
  · subst herr
    obtain ⟨o, hobject, hthere⟩ := h.located _ _ _ hmake
    have hold : cat.designated oldpath s.mac = some o := by
      rw [FileManager.Catalog.designated, FileManager.Catalog.find, hmake]
      exact (if_pos rfl).trans hobject
    by_cases hnew : (cat.FSpRename oldSpec (newName newpath) s.mac).1 = noErr
    · obtain ⟨hdone, hmac⟩ := rename_done hmake hnew
      constructor
      · intro hreach oldSpec' hmake' _
        obtain rfl : oldSpec = oldSpec' := (Prod.mk.inj (hmake.symm.trans hmake')).2
        have hd : h.directory s.mac (basicPPath newpath).chars = some oldSpec.directory := by
          by_contra hno
          have hfails := (hreach.elsewhere oldSpec hmake hno).1
          rw [hdone] at hfails
          exact absurd hfails (by decide)
        obtain ⟨o', ho', hafter⟩ := hreach.target hdone
        obtain rfl : o = o' := Option.some.inj (hold.symm.trans ho')
        rw [hmac] at hafter
        exact (designated_iff hthere hnew hd).mp hafter
      · intro hplace
        have hsame := hplace oldSpec hmake hnew
        refine ⟨fun _ => ⟨o, hold, ?_⟩, fun oldSpec' hmake' hno => ?_⟩
        · rw [hmac]
          exact (designated_iff hthere hnew hsame.directory).mpr hsame
        · obtain rfl : oldSpec = oldSpec' := (Prod.mk.inj (hmake.symm.trans hmake')).2
          exact absurd hsame.directory hno
    · obtain ⟨hfails, hmac⟩ := rename_refused hmake hnew
      rw [h.fails_unchanged _ _ _ hnew] at hmac
      refine iff_of_true ⟨fun hzero => ?_, fun _ _ _ => ⟨hfails, hmac⟩⟩ fun oldSpec' hmake' hnew' => ?_
      · rw [hfails] at hzero
        exact absurd hzero (by decide)
      · obtain rfl : oldSpec = oldSpec' := (Prod.mk.inj (hmake.symm.trans hmake')).2
        exact absurd hnew' hnew
  · have hlost : ∀ oldSpec', fm.FSMakeFSSpec (basicPPath oldpath) s.mac ≠ (noErr, oldSpec') := by
      intro oldSpec' hmake'
      exact herr (Prod.mk.inj (hmake.symm.trans hmake')).1
    have hmissing : (fm.FSMakeFSSpec (basicPPath oldpath) s.mac).1 ≠ noErr := by rwa [hmake]
    obtain ⟨hfails, hmac⟩ := rename_not_found cat newpath hmissing
    refine iff_of_true ⟨fun hzero => ?_, fun oldSpec' hmake' => absurd hmake' (hlost oldSpec')⟩
      fun oldSpec' hmake' => absurd hmake' (hlost oldSpec')
    rw [hfails] at hzero
    exact absurd hzero (by decide)

end FileState

/-! ### Two folders -/

/-- A file that is called `x` and can be called `y`. -/
def fileSpec (renamed : Bool) : FSSpec := ⟨-1, 16, c_to_pstr (if renamed then "y" else "x").toList⟩

/-- A volume with the folders `a` and `b`, and in `a` the file. -/
def items (renamed : Bool) : List (FSSpec × ℤ) :=
  [(⟨-1, fsRtParID, c_to_pstr "Macintosh HD".toList⟩, 2), (⟨-1, 2, c_to_pstr "a".toList⟩, 16),
    (⟨-1, 2, c_to_pstr "b".toList⟩, 17)] ++ [(fileSpec renamed, 18)]

def itemAt (renamed : Bool) (d : ℤ × ℤ) (name : CStr) : Option (FSSpec × ℤ) :=
  (items renamed).find? fun i => i.1.directory = d ∧ i.1.name.chars = name

def itemOf (renamed : Bool) (o : ℤ × ℤ) : Option (FSSpec × ℤ) := (items renamed).find? fun i => (-1, i.2) = o

def itemTree (renamed : Bool) : Walk.Catalog CStr (ℤ × ℤ) where
  parent o := if o = (-1, 16) ∨ o = (-1, 17) then some (-1, 2) else if o = (-1, 18) then some (-1, 16) else none
  child d name := (itemAt renamed d name).map fun i => (-1, i.2)

/-- Where a pathname leads; the default directory is the volume's root. -/
def itemPlace (renamed : Bool) (mac_path : CStr) : Option (ℤ × ℤ) :=
  (walkOrigin (some (-1, 2)) mac_path).bind ((itemTree renamed).follow · (macWalk mac_path))

def makeItem (name : Str255) (renamed : Bool) : OSErr × FSSpec :=
  match (itemPlace renamed name.chars).bind (itemOf renamed) with
  | some i => (noErr, i.1)
  | none => (fnfErr, ⟨0, 0, c_to_pstr []⟩)

/-- Its state is whether the file has been renamed. -/
def twoFolders : FileManager where
  State := Bool
  isOpen _ _ := false
  FSMakeFSSpec name renamed := makeItem name renamed
  FSpCreate _ renamed := (vLckdErr, renamed)
  FSpOpenDF _ _ renamed := ((fnfErr, 0), renamed)
  FSClose _ renamed := (rfNumErr, renamed)
  FSRead _ _ renamed := ((rfNumErr, []), renamed)
  FSWrite _ _ renamed := ((rfNumErr, 0), renamed)
  SetFPos _ _ _ renamed := (rfNumErr, renamed)
  GetFPos _ _ := (rfNumErr, 0)
  SetEOF _ _ renamed := (rfNumErr, renamed)

def itemInfo (spec : FSSpec) (renamed : Bool) : OSErr × CatRec :=
  match itemAt renamed spec.directory spec.name.chars with
  | some i => (noErr, ⟨spec.name, if i.2 = 18 then 0 else ioDirMask, i.2, 0, 0, 0⟩)
  | none => (fnfErr, ⟨spec.name, 0, 0, 0, 0, 0⟩)

/-- Everything is locked but the file in `a`. -/
def renameItem (spec : FSSpec) (name : Str255) (renamed : Bool) : OSErr × Bool :=
  if renamed = false ∧ spec = ⟨-1, 16, c_to_pstr "x".toList⟩ ∧ name = c_to_pstr "y".toList then (noErr, true)
  else (fLckdErr, renamed)

def twoFoldersCatalog : twoFolders.Catalog where
  GetEOF _ _ := (rfNumErr, 0)
  PBGetCatInfoSync spec renamed := ((itemInfo spec renamed).1, (itemInfo spec renamed).2.info)
  PBFlushFileSync _ renamed := (rfNumErr, renamed)
  PBFlushVolSync _ renamed := (noErr, renamed)
  HGetVol _ := (noErr, c_to_pstr "Macintosh HD".toList, -1, 2)
  HSetVol _ _ renamed := (noErr, renamed)
  catInfo vRefNum dirID name _ renamed := itemInfo ⟨vRefNum, dirID, name⟩ renamed
  info_eq _ _ := rfl
  FSpDelete _ renamed := (fLckdErr, renamed)
  FSpRename spec name renamed := renameItem spec name renamed
  DirCreate _ _ _ renamed := (fLckdErr, renamed)

theorem items_vRefNum (renamed : Bool) : ∀ i ∈ items renamed, i.1.vRefNum = -1 := by
  cases renamed <;> decide +kernel

theorem items_id (renamed : Bool) : ∀ i ∈ items renamed, ∀ j ∈ items renamed, i.2 = j.2 → i = j := by
  cases renamed <;> decide +kernel

theorem items_place (renamed : Bool) : ∀ i ∈ items renamed, ∀ j ∈ items renamed,
    i.1.directory = j.1.directory ∧ i.1.name.chars = j.1.name.chars → i = j := by
  cases renamed <;> decide +kernel

theorem itemAt_eq_some {renamed : Bool} {d : ℤ × ℤ} {name : CStr} {i : FSSpec × ℤ}
    (h : itemAt renamed d name = some i) : i ∈ items renamed ∧ i.1.directory = d ∧ i.1.name.chars = name := by
  refine ⟨List.mem_of_find?_eq_some h, ?_⟩
  simpa using List.find?_some h

theorem itemOf_eq_some {renamed : Bool} {o : ℤ × ℤ} {i : FSSpec × ℤ} (h : itemOf renamed o = some i) :
    i ∈ items renamed ∧ (-1, i.2) = o := by
  refine ⟨List.mem_of_find?_eq_some h, ?_⟩
  simpa using List.find?_some h

theorem itemAt_of_mem {renamed : Bool} {i : FSSpec × ℤ} (h : i ∈ items renamed) :
    itemAt renamed i.1.directory i.1.name.chars = some i := by
  rcases hat : itemAt renamed i.1.directory i.1.name.chars with _ | j
  · rw [itemAt, List.find?_eq_none] at hat
    exact absurd (hat i h) (by simp)
  · obtain ⟨hj, hplace⟩ := itemAt_eq_some hat
    rw [items_place renamed j hj i h hplace]

theorem itemOf_of_mem {renamed : Bool} {i : FSSpec × ℤ} (h : i ∈ items renamed) :
    itemOf renamed (-1, i.2) = some i := by
  rcases hof : itemOf renamed (-1, i.2) with _ | j
  · rw [itemOf, List.find?_eq_none] at hof
    exact absurd (hof i h) (by simp)
  · obtain ⟨hj, hid⟩ := itemOf_eq_some hof
    rw [items_id renamed j hj i h (Prod.mk.inj hid).2]

theorem object_item {renamed : Bool} {i : FSSpec × ℤ} (h : i ∈ items renamed) :
    twoFoldersCatalog.object i.1 renamed = some (-1, i.2) := by
  have hinfo : twoFoldersCatalog.named i.1 renamed = itemInfo i.1 renamed := rfl
  unfold FileManager.Catalog.object
  rw [hinfo, itemInfo, itemAt_of_mem h, items_vRefNum renamed i h]
  exact if_pos rfl

theorem renameItem_ok {spec : FSSpec} {name : Str255} {renamed : Bool}
    (h : (renameItem spec name renamed).1 = noErr) : renamed = false ∧ spec = ⟨-1, 16, c_to_pstr "x".toList⟩ ∧
      name = c_to_pstr "y".toList ∧ (renameItem spec name renamed).2 = true := by
  rw [renameItem] at h ⊢
  split at h
  · rename_i hcond
    exact ⟨hcond.1, hcond.2.1, hcond.2.2, by rw [if_pos hcond]⟩
  · exact absurd h (show fLckdErr ≠ noErr by decide)

theorem renameItem_failed {spec : FSSpec} {name : Str255} {renamed : Bool}
    (h : (renameItem spec name renamed).1 ≠ noErr) : (renameItem spec name renamed).2 = renamed := by
  rw [renameItem] at h ⊢
  split at h
  · exact absurd rfl h
  · rw [if_neg ‹_›]

/-- Every move leads to an item. -/
theorem move_item {renamed : Bool} {d o : ℤ × ℤ} {m : Move} (h : (itemTree renamed).move d m = some o) :
    ∃ i ∈ items renamed, (-1, i.2) = o := by
  have hfolders : ∀ n : ℤ, n = 2 ∨ n = 16 → ∃ i ∈ items renamed, i.2 = n := by
    rintro n (rfl | rfl)
    · exact ⟨_, List.mem_cons_self, rfl⟩
    · exact ⟨_, List.mem_cons_of_mem _ List.mem_cons_self, rfl⟩
  cases m with
  | up =>
    rw [Catalog.move, itemTree] at h
    dsimp only at h
    split at h
    · obtain ⟨i, hi, hid⟩ := hfolders 2 (.inl rfl)
      exact ⟨i, hi, by rw [hid]; exact Option.some.inj h⟩
    · split at h
      · obtain ⟨i, hi, hid⟩ := hfolders 16 (.inr rfl)
        exact ⟨i, hi, by rw [hid]; exact Option.some.inj h⟩
      · cases h
  | down name =>
    obtain ⟨i, hi, ho⟩ := Option.map_eq_some_iff.mp h
    exact ⟨i, (itemAt_eq_some hi).1, ho⟩

/-- A walk that starts in the default directory, or goes down from the directory of the volumes, ends in an item. -/
theorem itemPlace_item {renamed : Bool} {m : CStr} {o : ℤ × ℤ} (h : itemPlace renamed m = some o) :
    ∃ i ∈ items renamed, (-1, i.2) = o := by
  have hkeeps : ∀ {x y : ℤ × ℤ} {w : List Move}, (∃ i ∈ items renamed, (-1, i.2) = x) →
      (itemTree renamed).follow x w = some y → ∃ i ∈ items renamed, (-1, i.2) = y :=
    fun hx hw => Catalog.follow_keeps (P := fun e => ∃ i ∈ items renamed, (-1, i.2) = e)
      (fun _ _ _ _ hmove => move_item hmove) hx hw
  rw [itemPlace, walkOrigin, macWalk] at h
  rcases hm : macDenotes m with ⟨_ | v, moves⟩
  · rw [hm] at h
    exact hkeeps ⟨_, List.mem_cons_self, rfl⟩ h
  · rw [hm] at h
    dsimp only at h
    rw [Option.bind_some, Catalog.follow_cons, Option.bind_eq_some_iff] at h
    obtain ⟨e, he, hfollow⟩ := h
    exact hkeeps (move_item he) hfollow

theorem makeItem_eq (name : Str255) (renamed : Bool) :
    (∃ i ∈ items renamed, itemPlace renamed name.chars = some (-1, i.2) ∧ makeItem name renamed = (noErr, i.1)) ∨
      itemPlace renamed name.chars = none ∧ (makeItem name renamed).1 ≠ noErr := by
  rw [makeItem]
  rcases hplace : itemPlace renamed name.chars with _ | o
  · exact .inr ⟨rfl, show fnfErr ≠ noErr by decide⟩
  · obtain ⟨i, hi, rfl⟩ := itemPlace_item hplace
    rw [Option.bind_some, itemOf_of_mem hi]
    exact .inl ⟨i, hi, rfl, rfl⟩

theorem find_item (name : Str255) (renamed : Bool) :
    twoFoldersCatalog.find name renamed = itemPlace renamed name.chars := by
  have hfind : twoFoldersCatalog.find name renamed = if (makeItem name renamed).1 = noErr then
      twoFoldersCatalog.object (makeItem name renamed).2 renamed else none := rfl
  rw [hfind]
  rcases makeItem_eq name renamed with ⟨i, hi, hplace, hmake⟩ | ⟨hplace, herr⟩
  · rw [hmake, if_pos rfl, object_item hi, hplace]
  · rw [if_neg herr, hplace]

theorem located_item {name : Str255} {renamed : Bool} {spec : FSSpec} (h : makeItem name renamed = (noErr, spec)) :
    ∃ o, twoFoldersCatalog.object spec renamed = some o ∧
      (itemTree renamed).child spec.directory spec.name.chars = some o := by
  rcases makeItem_eq name renamed with ⟨i, hi, -, hmake⟩ | ⟨-, herr⟩
  · obtain rfl : i.1 = spec := (Prod.mk.inj (hmake.symm.trans h)).2
    exact ⟨(-1, i.2), object_item hi, congrArg (Option.map _) (itemAt_of_mem hi)⟩
  · rw [h] at herr
    exact absurd rfl herr

/-- The child of a directory is the item of that name there. -/
theorem child_item {renamed : Bool} {d o : ℤ × ℤ} {name : CStr}
    (h : (itemTree renamed).child d name = some o) :
    ∃ i ∈ items renamed, i.1.directory = d ∧ i.1.name.chars = name ∧ (-1, i.2) = o := by
  obtain ⟨i, hi, ho⟩ := Option.map_eq_some_iff.mp h
  exact ⟨i, (itemAt_eq_some hi).1, (itemAt_eq_some hi).2.1, (itemAt_eq_some hi).2.2, ho⟩

/-- Only the name of the file changes. -/
theorem itemTree_renamed : Renamed Eq (itemTree false) (itemTree true) (-1, 16) "x".toList "y".toList (-1, 18) where
  parent := rfl
  here n hn := by
    subst hn
    decide +kernel
  gone n _ hn := by
    subst hn
    decide +kernel
  kept e n h := by
    have hlast : ∀ renamed : Bool,
        [(fileSpec renamed, (18 : ℤ))].find? (fun i => i.1.directory = e ∧ i.1.name.chars = n) = none := by
      intro renamed
      rw [List.find?_singleton, if_neg]
      rw [decide_eq_true_eq]
      rintro ⟨rfl, rfl⟩
      rcases h with h | ⟨hy, hx⟩
      · exact h (by cases renamed <;> decide +kernel)
      · cases renamed
        · exact hx (by decide +kernel)
        · exact hy (by decide +kernel)
    change ((items true).find? _).map _ = ((items false).find? _).map _
    rw [items, items, List.find?_append, List.find?_append, hlast true, hlast false]

def twoFoldersHierarchy : twoFoldersCatalog.Hierarchy where
  same := Eq
  same_equiv := eq_equivalence
  tree := itemTree
  home _ := some (-1, 2)
  child_same _ _ _ _ h := by rw [h]
  child_unique renamed d n d' n' o h h' := by
    obtain ⟨i, hi, rfl, rfl, rfl⟩ := child_item h
    obtain ⟨j, hj, rfl, rfl, hid⟩ := child_item h'
    rw [items_id renamed i hi j hj (Prod.mk.inj hid).2.symm]
    exact ⟨rfl, rfl⟩
  found name renamed _ := find_item name renamed
  located _ _ _ h := located_item h
  renames spec name renamed o h hchild := by
    obtain ⟨rfl, rfl, rfl, hmac⟩ := renameItem_ok h
    obtain rfl : (-1, 18) = o := Option.some.inj hchild
    exact ⟨itemTree_renamed, rfl⟩
  refuses_taken spec name renamed h _ := by
    obtain ⟨rfl, rfl, rfl, -⟩ := renameItem_ok h
    decide +kernel
  fails_unchanged spec name renamed h := by
    exact renameItem_failed h

/-- `rename("a/x", "a/y")` returns 0, and the file is at `a/y` then. -/
theorem rename_within_folder : FileState.ReachesTarget twoFoldersHierarchy
    (FileState.start (false : twoFolders.State) fun _ => false) "a/x".toList "a/y".toList := by
  refine (FileState.reachesTarget_iff_renamesInPlace _ _ _ _).mpr fun oldSpec hmake _ => ?_
  obtain rfl : fileSpec false = oldSpec := (Prod.mk.inj ((by decide +kernel :
    twoFolders.FSMakeFSSpec (basicPPath "a/x".toList) false = (noErr, fileSpec false)).symm.trans hmake)).2
  refine ⟨by decide +kernel, ⟨"y".toList, by decide +kernel, ?_⟩, .inr fun x hx => ?_⟩
  · exact (by decide +kernel : "y".toList = (FileState.newName "a/y".toList).chars)
  · -- The walk to `y` goes through `a` only, which is not the file.
    have hwalk : (macWalk (basicPPath "a/y".toList).chars).dropLast = [.down "a".toList] := by decide +kernel
    obtain rfl : (-1, 2) = x := Option.some.inj ((by decide +kernel :
      walkOrigin (some (-1, 2)) (basicPPath "a/y".toList).chars = some (-1, 2)).symm.trans hx)
    rw [hwalk]
    exact ⟨fun hinto => absurd hinto.1 (by decide +kernel), fun _ _ => trivial⟩

/-- `rename("a/x", "b/y")` returns 0, and the file is `a/y` then: nothing is in `b`. -/
theorem rename_stays_in_folder : ¬ FileState.ReachesTarget twoFoldersHierarchy
    (FileState.start (false : twoFolders.State) fun _ => false) "a/x".toList "b/y".toList := by
  intro h
  obtain ⟨o, -, ho⟩ := h.target (by decide +kernel)
  have hnone : twoFoldersCatalog.designated "b/y".toList (FileState.rename twoFoldersCatalog
      (FileState.start (false : twoFolders.State) fun _ => false) "a/x".toList "b/y".toList).2.mac = none := by
    decide +kernel
  rw [hnone] at ho
  cases ho

end Posix9
