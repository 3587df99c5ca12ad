import Posix9.Lib.Runs
import Posix9.PathFromMac
import Posix9.PathToMac
import Posix9.Stat

/-! posix9_path.c: getcwd and chdir. The working directory is kept twice, as a Mac pathname and as the
    numbers of a directory, and init_cwd fills both in when it is first asked for them. -/

namespace Posix9
open Fields

/-- The root directory of every volume. -/
def fsRtDirID : ℤ := 2

structure CwdState (fm : FileManager) where
  cwd_mac : CStr
  cwd_vRefNum : ℤ
  cwd_dirID : ℤ
  cwd_initialized : Bool
  posix9_errno : ℤ
  mac : fm.State
  /-- The directory the last successful chdir has found; a record, never read. -/
  selected : Option (ℤ × ℤ)

variable {fm : FileManager}

/-- The directory a Mac pathname leads to: the file specification FSMakeFSSpec makes of it, looked up in
    the catalog. -/
def directoryOf (info : fm.Info) (mac_path : CStr) (mac : fm.State) : Option (ℤ × ℤ) :=
  let (err, spec) := fm.FSMakeFSSpec (c_to_pstr mac_path) mac
  if err ≠ noErr ∧ err ≠ fnfErr then none
  else
    let (err, cat) := info.PBGetCatInfoSync spec mac
    if err = noErr ∧ cat.isDirectory then some (spec.vRefNum, cat.ioDrDirID) else none

/-- A path posix9_path_to_mac puts on the default volume. -/
def onDefaultVolume : CStr → Bool
  | '/' :: p => !volumesPrefix.isPrefixOf p
  | _ => false

namespace CwdState

/-- The state the program starts in: static storage is zero. -/
def start (mac : fm.State) : CwdState fm := ⟨[], 0, 0, false, 0, mac, none⟩

def setErrno (s : CwdState fm) (e : ℤ) : CwdState fm := { s with posix9_errno := e }

def fail (s : CwdState fm) (err : OSErr) : ℤ × CwdState fm :=
  (-1, s.setErrno (posix9_macos_to_errno err))

variable (info : fm.Info) (default_volume : VolumeName)

def init_cwd (s : CwdState fm) : CwdState fm :=
  if s.cwd_initialized then s
  else
    let (err, name, vRefNum, dirID) := info.HGetVol s.mac
    if err = noErr then
      { s with cwd_mac := p_to_cstr name POSIX9_PATH_MAX, cwd_vRefNum := vRefNum, cwd_dirID := dirID
               cwd_initialized := true }
    else
      { s with cwd_mac := default_volume.name, cwd_vRefNum := 0, cwd_dirID := fsRtDirID
               cwd_initialized := true }

/-- What posix9_path_to_mac does besides writing the pathname. -/
def initFor (s : CwdState fm) (path : CStr) : CwdState fm :=
  if onDefaultVolume path then s.init_cwd info default_volume else s

/-- `buf` is the size of the caller's buffer, none for NULL. -/
def getcwd (s : CwdState fm) (buf : Option ℕ) : Option CStr × CwdState fm :=
  let s := s.init_cwd info default_volume
  match buf with
  | none => (none, s.setErrno EINVAL)
  | some size =>
    if size ≤ s.cwd_mac.length then (none, s.setErrno ERANGE)
    else (some (posix9_path_from_mac s.cwd_mac size), s)

def chdir (s : CwdState fm) (path : CStr) : ℤ × CwdState fm :=
  let s := s.initFor info default_volume path
  let mac_path := posix9_path_to_mac default_volume path POSIX9_PATH_MAX
  let (err, spec) := fm.FSMakeFSSpec (fullPPath default_volume path) s.mac
  if err ≠ noErr ∧ err ≠ fnfErr then s.fail err
  else
    let (err, cat) := info.PBGetCatInfoSync spec s.mac
    if err ≠ noErr then s.fail err
    else if ¬ cat.isDirectory then (-1, s.setErrno ENOTDIR)
    else
      (0, { s with
        cwd_mac := strncpyNul mac_path POSIX9_PATH_MAX
        cwd_vRefNum := spec.vRefNum
        cwd_dirID := cat.ioDrDirID
        mac := (info.HSetVol spec.vRefNum cat.ioDrDirID s.mac).2
        selected := some (spec.vRefNum, cat.ioDrDirID) })

end CwdState

inductive CwdCall where
  | getcwd (buf : Option ℕ)
  | chdir (path : CStr)

def CwdState.step (info : fm.Info) (default_volume : VolumeName) (s : CwdState fm) : CwdCall → CwdState fm
  | .getcwd buf => (s.getcwd info default_volume buf).2
  | .chdir path => (s.chdir info default_volume path).2

/-! ### The law -/

/-- A buffer of this size takes what getcwd writes, with its NUL. -/
def CwdState.Fits (info : fm.Info) (default_volume : VolumeName) (s : CwdState fm) (size : ℕ) : Prop :=
  (s.init_cwd info default_volume).cwd_mac.length < size ∧
    (wholePosixPath (s.init_cwd info default_volume).cwd_mac).length < size

/-- getcwd returns an absolute path that leads back to the directory the last successful chdir has
    selected, and a failed chdir would not change what it returns. -/
structure CwdState.Consistent (info : fm.Info) (default_volume : VolumeName) (s : CwdState fm) : Prop where
  numbers : ∀ dir, s.selected = some dir → (s.cwd_vRefNum, s.cwd_dirID) = dir
  names : ∀ dir, s.selected = some dir → ∀ size, s.Fits info default_volume size →
    ∃ p, (s.getcwd info default_volume (some size)).1 = some p ∧ p.head? = some '/' ∧
      ∀ dst_size, (wholeMacPath default_volume p).length < dst_size →
        directoryOf info (posix9_path_to_mac default_volume p dst_size) s.mac = some dir
  failed : ∀ path, (s.chdir info default_volume path).1 ≠ 0 → ∀ buf,
    ((s.chdir info default_volume path).2.getcwd info default_volume buf).1 =
      (s.getcwd info default_volume buf).1

/-! ### Pathnames that come back -/

/-- Names other than `..`, and at the end two colons at the most. -/
def returnFields : List CStr → Bool
  | [] => true
  | f :: fs => if f = [] then fs = [[]] else f ≠ dotdot && returnFields fs

/-- The Mac pathnames that come back from POSIX as they were: full pathnames that spell each directory
    they pass, but for a single move up at the end. -/
def returns (m : CStr) : Bool :=
  '/' ∉ m && match m.splitOn ':' with
    | v :: f :: fs => v ≠ [] && returnFields (f :: fs)
    | _ => false

theorem colonFields_slashFields {fs : List CStr} (h : returnFields fs = true) :
    colonFields (slashFields fs) = fs := by
  fun_induction returnFields fs with
  | case1 => rfl
  | case2 fs =>
    obtain rfl : fs = [[]] := by simpa using h
    rfl
  | case3 f fs hf ih =>
    obtain ⟨hdd, hfs⟩ : f ≠ dotdot ∧ returnFields fs = true := by simpa using h
    rw [slashFields_name hf, colonFields_name hf hdd, ih hfs]

/-- Such fields do not end in a single colon. -/
theorem returnFields_concat (init : List CStr) {last : CStr} (hlast : last ≠ []) :
    returnFields (init ++ [last] ++ [[]]) = false := by
  induction init with
  | nil => simp [returnFields, hlast]
  | cons f init ih =>
    rw [List.cons_append, List.cons_append, returnFields, ih]
    split
    · have hlen : init ++ [last] ++ [[]] ≠ [[]] := fun h => by
        simpa using congrArg List.length h
      simpa using hlen
    · simp

theorem returns_fields {m : CStr} (h : returns m = true) : '/' ∉ m ∧ ∃ v f fs,
    m.splitOn ':' = v :: f :: fs ∧ v ≠ [] ∧ returnFields (f :: fs) = true := by
  rw [returns, Bool.and_eq_true] at h
  refine ⟨by simpa using h.1, ?_⟩
  have hfull := h.2
  split at hfull
  · rename_i v f fs hm
    exact ⟨v, f, fs, hm, by simpa using hfull⟩
  · cases hfull

theorem stripColon_returns {m : CStr} (h : returns m = true) : stripColon m = m := by
  obtain ⟨-, v, f, fs, hm, -, hfs⟩ := returns_fields h
  rcases stripColon_cases m with hs | ⟨x, c, hc, rfl, -⟩
  · exact hs
  obtain ⟨init, last, hfields, hlast⟩ := splitOn_concat_of_ne x hc
  rw [splitOn_concat_self, hfields] at hm
  rcases init with _ | ⟨g, init⟩
  · obtain ⟨rfl, rfl, rfl⟩ : last = v ∧ [] = f ∧ [] = fs := by simpa using hm
    simp [returnFields] at hfs
  · obtain ⟨rfl, hrest⟩ : g = v ∧ init ++ [last] ++ [[]] = f :: fs := by simpa using hm
    rw [← hrest, returnFields_concat init hlast] at hfs
    cases hfs

/-- The two loops, there and back. -/
theorem toMacWhole_fromMacWhole {m : CStr} (h : returns m = true) :
    toMacWhole (fromMacWhole m) = m := by
  obtain ⟨hslash, v, f, fs, hm, -, hfs⟩ := returns_fields h
  have hfields : (toMacWhole (fromMacWhole m)).splitOn ':' = m.splitOn ':' := by
    rw [toMacWhole_fields (p := fromMacWhole m) (colon_not_mem_fromMacLoop _ _)
      (fromMacWhole_fields hslash hm), hm, colonFields_slashFields hfs]
  have hjoin := congrArg ([':'].intercalate ·) hfields
  simpa only [List.intercalate_splitOn] using hjoin

theorem wholePosixPath_returns {m : CStr} (h : returns m = true) :
    wholePosixPath m = '/' :: (volumesPrefix ++ fromMacWhole m) := by
  obtain ⟨-, v, f, fs, hm, hv, -⟩ := returns_fields h
  rcases m with _ | ⟨c, q⟩
  · simp at hm
  have hc : c ≠ ':' := by
    rintro rfl
    simp [Ne.symm hv] at hm
  rw [wholePosixPath_eq (by simp), fromMacStart_full q hc]
  rfl

/-- Out to POSIX and back. -/
theorem wholeMacPath_wholePosixPath (dv : VolumeName) {m : CStr} (h : returns m = true) :
    wholeMacPath dv (wholePosixPath m) = m := by
  have hpre : volumesPrefix.isPrefixOf (volumesPrefix ++ fromMacWhole m) = true :=
    List.isPrefixOf_iff_prefix.mpr (List.prefix_append _ _)
  have hdrop : (volumesPrefix ++ fromMacWhole m).drop 8 = fromMacWhole m :=
    List.drop_left' (by decide)
  have hstart : toMacStart dv ('/' :: (volumesPrefix ++ fromMacWhole m)) = ([], fromMacWhole m) := by
    simp [toMacStart, hpre, hdrop]
  rw [wholePosixPath_returns h, wholeMacPath_eq dv (by simp), hstart, List.nil_append,
    toMacWhole_fromMacWhole h, stripColon_returns h]

/-! ### What each part does -/

/-- HSetVol changes the default directory, which a full pathname does not start from. -/
structure FileManager.Info.KeepsFull (info : fm.Info) : Prop where
  resolve : ∀ vRefNum dirID name mac, macVolume name.chars ≠ none →
    fm.FSMakeFSSpec name (info.HSetVol vRefNum dirID mac).2 = fm.FSMakeFSSpec name mac
  catalog : ∀ vRefNum dirID name mac, macVolume name.chars ≠ none →
    info.PBGetCatInfoSync (fm.FSMakeFSSpec name mac).2 (info.HSetVol vRefNum dirID mac).2 =
      info.PBGetCatInfoSync (fm.FSMakeFSSpec name mac).2 mac

variable {info : fm.Info} {default_volume : VolumeName}

theorem directoryOf_HSetVol (hinfo : info.KeepsFull) (vRefNum dirID : ℤ) {mac_path : CStr} (mac : fm.State)
    (hfull : macVolume (c_to_pstr mac_path).chars ≠ none) :
    directoryOf info mac_path (info.HSetVol vRefNum dirID mac).2 = directoryOf info mac_path mac := by
  have hcat := hinfo.catalog vRefNum dirID (c_to_pstr mac_path) mac hfull
  simp only [directoryOf, hinfo.resolve vRefNum dirID (c_to_pstr mac_path) mac hfull, hcat]

/-- What strncpy cuts off is behind what the File Manager is handed. -/
theorem c_to_pstr_strncpyNul (mac_path : CStr) :
    c_to_pstr (strncpyNul mac_path POSIX9_PATH_MAX) = c_to_pstr mac_path := by
  simp [c_to_pstr, strncpyNul, POSIX9_PATH_MAX, List.take_take]

theorem directoryOf_strncpyNul (mac_path : CStr) (mac : fm.State) :
    directoryOf info (strncpyNul mac_path POSIX9_PATH_MAX) mac = directoryOf info mac_path mac := by
  rw [directoryOf, directoryOf, c_to_pstr_strncpyNul]

namespace CwdState

variable {s : CwdState fm} {path : CStr}

theorem init_cwd_of_initialized (h : s.cwd_initialized = true) :
    s.init_cwd info default_volume = s := by
  rw [init_cwd, if_pos h]

/-- init_cwd leaves the File Manager and the record alone, and another call of it has nothing to do. -/
theorem init_cwd_spec (info : fm.Info) (default_volume : VolumeName) (s : CwdState fm) :
    (s.init_cwd info default_volume).cwd_initialized = true ∧
      (s.init_cwd info default_volume).mac = s.mac ∧
      (s.init_cwd info default_volume).selected = s.selected := by
  rw [init_cwd]
  split
  · exact ⟨‹_›, rfl, rfl⟩
  · dsimp only
    split <;> exact ⟨rfl, rfl, rfl⟩

theorem init_cwd_setErrno (e : ℤ) :
    (s.setErrno e).init_cwd info default_volume = (s.init_cwd info default_volume).setErrno e := by
  rw [init_cwd, init_cwd]
  change (if s.cwd_initialized = true then _ else _) = _
  split
  · rfl
  · change (if (info.HGetVol s.mac).1 = noErr then _ else _) =
      setErrno (if (info.HGetVol s.mac).1 = noErr then _ else _) e
    split <;> rfl

theorem init_cwd_initFor : (s.initFor info default_volume path).init_cwd info default_volume =
    s.init_cwd info default_volume := by
  rw [initFor]
  split
  · exact init_cwd_of_initialized (init_cwd_spec info default_volume s).1
  · rfl

theorem initFor_spec (info : fm.Info) (default_volume : VolumeName) (s : CwdState fm) (path : CStr) :
    (s.initFor info default_volume path).mac = s.mac ∧
      (s.initFor info default_volume path).selected = s.selected := by
  rw [initFor]
  split
  · exact (init_cwd_spec info default_volume s).2
  · exact ⟨rfl, rfl⟩

theorem initFor_of_initialized (h : s.cwd_initialized = true) :
    s.initFor info default_volume path = s := by
  rw [initFor, init_cwd_of_initialized h, ite_self]

/-- getcwd, by the pathname init_cwd leaves. -/
theorem getcwd_result (s : CwdState fm) (buf : Option ℕ) : (s.getcwd info default_volume buf).1 =
    buf.bind fun size =>
      if size ≤ (s.init_cwd info default_volume).cwd_mac.length then none
      else some (posix9_path_from_mac (s.init_cwd info default_volume).cwd_mac size) := by
  rcases buf with _ | size
  · rfl
  · rw [getcwd, Option.bind_some]
    split <;> rfl

theorem getcwd_state (info : fm.Info) (default_volume : VolumeName) (s : CwdState fm) (buf : Option ℕ) : ∃ e,
    (s.getcwd info default_volume buf).2 = (s.init_cwd info default_volume).setErrno e := by
  rcases buf with _ | size
  · exact ⟨EINVAL, rfl⟩
  · rw [getcwd]
    split
    · exact ⟨ERANGE, rfl⟩
    · exact ⟨(s.init_cwd info default_volume).posix9_errno, rfl⟩

/-- chdir of a path that leads to a directory. -/
theorem chdir_found {dir : ℤ × ℤ}
    (h : directoryOf info (posix9_path_to_mac default_volume path POSIX9_PATH_MAX) s.mac = some dir) :
    s.chdir info default_volume path = (0, { s.initFor info default_volume path with
      cwd_mac := strncpyNul (posix9_path_to_mac default_volume path POSIX9_PATH_MAX) POSIX9_PATH_MAX
      cwd_vRefNum := dir.1
      cwd_dirID := dir.2
      mac := (info.HSetVol dir.1 dir.2 s.mac).2
      selected := some dir }) := by
  rcases hmake : fm.FSMakeFSSpec (c_to_pstr (posix9_path_to_mac default_volume path POSIX9_PATH_MAX)) s.mac
    with ⟨err, spec⟩
  rcases hcat : info.PBGetCatInfoSync spec s.mac with ⟨err', cat⟩
  simp only [directoryOf, hmake, hcat] at h
  simp only [chdir, fullPPath, (initFor_spec info default_volume s path).1, hmake, hcat]
  split at h
  · cases h
  rename_i herr
  split at h
  · rename_i hdir
    obtain rfl := Option.some.inj h
    rw [if_neg herr, if_neg (not_not.mpr hdir.1), if_neg (not_not.mpr hdir.2)]
  · cases h

/-- chdir of any other path. -/
theorem chdir_lost
    (h : directoryOf info (posix9_path_to_mac default_volume path POSIX9_PATH_MAX) s.mac = none) :
    ∃ e, s.chdir info default_volume path = (-1, (s.initFor info default_volume path).setErrno e) := by
  rcases hmake : fm.FSMakeFSSpec (c_to_pstr (posix9_path_to_mac default_volume path POSIX9_PATH_MAX)) s.mac
    with ⟨err, spec⟩
  rcases hcat : info.PBGetCatInfoSync spec s.mac with ⟨err', cat⟩
  simp only [directoryOf, hmake, hcat] at h
  simp only [chdir, fullPPath, (initFor_spec info default_volume s path).1, hmake, hcat]
  by_cases herr : err ≠ noErr ∧ err ≠ fnfErr
  · exact ⟨_, if_pos herr⟩
  rw [if_neg herr] at h ⊢
  by_cases herr' : err' = noErr
  · have hdir : ¬ cat.isDirectory = true := fun hdir => by simp [herr', hdir] at h
    exact ⟨ENOTDIR, by rw [if_neg (not_not.mpr herr'), if_pos hdir]⟩
  · exact ⟨_, if_pos herr'⟩

/-! ### Runs -/

/-- A chdir that selects a directory comes behind init_cwd, or calls it, and stores a full pathname that
    comes back from POSIX. -/
def Traceable (info : fm.Info) (default_volume : VolumeName) (s : CwdState fm) : CwdCall → Prop
  | .getcwd _ => True
  | .chdir path =>
    (directoryOf info (posix9_path_to_mac default_volume path POSIX9_PATH_MAX) s.mac).isSome →
      (s.cwd_initialized ∨ onDefaultVolume path) ∧
        macVolume (fullPPath default_volume path).chars ≠ none ∧
        returns (strncpyNul (posix9_path_to_mac default_volume path POSIX9_PATH_MAX) POSIX9_PATH_MAX)

/-- What the runs of such steps keep: the pathname is the selected directory's, and init_cwd will not
    run again. -/
structure Held (info : fm.Info) (s : CwdState fm) (dir : ℤ × ℤ) : Prop where
  initialized : s.cwd_initialized = true
  numbers : (s.cwd_vRefNum, s.cwd_dirID) = dir
  returns : returns s.cwd_mac = true
  found : directoryOf info s.cwd_mac s.mac = some dir

theorem held_initFor {dir : ℤ × ℤ} (h : s.Held info dir) (e : ℤ) :
    ((s.initFor info default_volume path).setErrno e).Held info dir := by
  rw [initFor_of_initialized h.initialized]
  exact ⟨h.initialized, h.numbers, h.returns, h.found⟩

theorem held_getcwd {dir : ℤ × ℤ} (h : s.Held info dir) (buf : Option ℕ) :
    (s.getcwd info default_volume buf).2.Held info dir := by
  obtain ⟨e, he⟩ := getcwd_state info default_volume s buf
  rw [he, init_cwd_of_initialized h.initialized]
  exact ⟨h.initialized, h.numbers, h.returns, h.found⟩

/-- A chdir that selects a directory. -/
theorem held_chdir (hinfo : info.KeepsFull) {dir : ℤ × ℤ}
    (hfound : directoryOf info (posix9_path_to_mac default_volume path POSIX9_PATH_MAX) s.mac = some dir)
    (hC : s.Traceable info default_volume (.chdir path)) :
    (s.chdir info default_volume path).2.Held info dir := by
  obtain ⟨hinit, hfull, hreturns⟩ := hC (by rw [hfound]; rfl)
  rw [chdir_found hfound]
  refine ⟨?_, rfl, hreturns, ?_⟩
  · change (s.initFor info default_volume path).cwd_initialized = true
    rw [initFor]
    split
    · exact (init_cwd_spec info default_volume s).1
    · exact hinit.resolve_right ‹_›
  · dsimp only
    rw [directoryOf_strncpyNul, directoryOf_HSetVol hinfo dir.1 dir.2 s.mac hfull, hfound]

theorem held_step (hinfo : info.KeepsFull) (c : CwdCall)
    (hs : ∀ dir, s.selected = some dir → s.Held info dir) (hC : s.Traceable info default_volume c)
    (dir : ℤ × ℤ) (hsel : (s.step info default_volume c).selected = some dir) :
    (s.step info default_volume c).Held info dir := by
  cases c with
  | getcwd buf =>
    obtain ⟨e, he⟩ := getcwd_state info default_volume s buf
    have hselected : (s.getcwd info default_volume buf).2.selected = s.selected := by
      rw [he]
      exact (init_cwd_spec info default_volume s).2.2
    exact held_getcwd (hs dir (hselected ▸ hsel)) buf
  | chdir path =>
    rw [step] at hsel ⊢
    rcases hfound : directoryOf info (posix9_path_to_mac default_volume path POSIX9_PATH_MAX) s.mac with _ | d
    · obtain ⟨e, he⟩ := chdir_lost hfound
      rw [he] at hsel ⊢
      exact held_initFor (hs dir ((initFor_spec info default_volume s path).2 ▸ hsel)) e
    · have hd : d = dir := by
        rw [chdir_found hfound] at hsel
        exact Option.some.inj hsel
      exact hd ▸ held_chdir hinfo hfound hC

/-- Whatever state it is called in, a chdir that fails changes errno at most and what getcwd would have
    initialised itself. -/
theorem getcwd_failed_chdir (hfail : (s.chdir info default_volume path).1 ≠ 0) (buf : Option ℕ) :
    ((s.chdir info default_volume path).2.getcwd info default_volume buf).1 =
      (s.getcwd info default_volume buf).1 := by
  rcases hfound : directoryOf info (posix9_path_to_mac default_volume path POSIX9_PATH_MAX) s.mac with _ | d
  · obtain ⟨e, he⟩ := chdir_lost hfound
    rw [he, getcwd_result, getcwd_result, init_cwd_setErrno, init_cwd_initFor]
    rfl
  · rw [chdir_found hfound] at hfail
    exact absurd rfl hfail

theorem consistent_of_held (h : ∀ dir, s.selected = some dir → s.Held info dir) :
    s.Consistent info default_volume where
  numbers dir hsel := (h dir hsel).numbers
  failed path := getcwd_failed_chdir
  names dir hsel size hfits := by
    have hheld := h dir hsel
    rw [Fits, init_cwd_of_initialized hheld.initialized] at hfits
    refine ⟨wholePosixPath s.cwd_mac, ?_, ?_, fun dst_size hdst => ?_⟩
    · rw [getcwd_result, Option.bind_some, init_cwd_of_initialized hheld.initialized,
        if_neg (Nat.not_le.mpr hfits.1), posix9_path_from_mac_of_fits s.cwd_mac hfits.2]
    · rw [wholePosixPath_returns hheld.returns]
      rfl
    · rw [posix9_path_to_mac_of_fits default_volume _ hdst,
        wholeMacPath_wholePosixPath default_volume hheld.returns, hheld.found]

/-- Where every chdir that selects a directory is `Traceable`, getcwd names it throughout. -/
theorem consistent_of_traceable (info : fm.Info) (hinfo : info.KeepsFull) (default_volume : VolumeName)
    (mac : fm.State) (cs : List CwdCall)
    (h : Runs.Meets (step info default_volume) (Traceable info default_volume) (start mac) cs) :
    Runs.Always (step info default_volume) (Consistent info default_volume) (start mac) cs := by
  refine (Runs.always_of_meets (I := fun s => ∀ dir, s.selected = some dir → s.Held info dir)
    (fun s c hs hC => held_step hinfo c hs hC) (fun dir hsel => ?_) h).mono fun s => consistent_of_held
  cases hsel

end CwdState

/-! ### Folders -/

/-- A directory: its number, the number of the directory it is in and its name there. The root of a
    volume is in directory 1. -/
structure Folder where
  dirID : ℤ
  parID : ℤ
  name : CStr

/-- One volume, with a folder `Users`. -/
def folders : List Folder := [⟨fsRtDirID, 1, "Macintosh HD".toList⟩, ⟨16, fsRtDirID, "Users".toList⟩]

def folderIn (parID : ℤ) (name : CStr) : Option Folder :=
  folders.find? fun f => f.parID = parID ∧ f.name = name

/-- Where a walk from a directory leads, as the directory and the name of its end. -/
def walkFolders (dirID : ℤ) : List Move → OSErr × FSSpec
  | [] =>
    match folders.find? fun f => f.dirID = dirID with
    | some f => (noErr, ⟨-1, f.parID, c_to_pstr f.name⟩)
    | none => (dirNFErr, ⟨0, 0, c_to_pstr []⟩)
  | .up :: ms =>
    match folders.find? fun f => f.dirID = dirID with
    | some f => walkFolders f.parID ms
    | none => (dirNFErr, ⟨0, 0, c_to_pstr []⟩)
  | .down name :: ms =>
    match folderIn dirID name with
    | some f => walkFolders f.dirID ms
    | none => (if ms = [] then fnfErr else dirNFErr, ⟨-1, dirID, c_to_pstr name⟩)

/-- A File Manager with these folders and no files. Its state is the default directory. -/
def folderDisk : FileManager where
  State := ℤ
  isOpen _ _ := false
  FSMakeFSSpec name dirID :=
    match macDenotes name.chars with
    | (.default, ms) => walkFolders dirID ms
    | (.volume v, ms) => walkFolders 1 (.down v :: ms)
  FSpCreate _ dirID := (vLckdErr, dirID)
  FSpOpenDF _ _ dirID := ((fnfErr, 0), dirID)
  FSClose _ dirID := (rfNumErr, dirID)
  FSRead _ _ dirID := ((rfNumErr, []), dirID)
  FSWrite _ _ dirID := ((rfNumErr, 0), dirID)
  SetFPos _ _ _ dirID := (rfNumErr, dirID)
  GetFPos _ _ := (rfNumErr, 0)
  SetEOF _ _ dirID := (rfNumErr, dirID)

def folderInfo : folderDisk.Info where
  GetEOF _ _ := (rfNumErr, 0)
  PBGetCatInfoSync spec _ :=
    match folderIn spec.parID spec.name.chars with
    | some f => (noErr, ⟨ioDirMask, f.dirID, 0⟩)
    | none => (fnfErr, ⟨0, 0, 0⟩)
  PBFlushFileSync _ dirID := (rfNumErr, dirID)
  PBFlushVolSync _ dirID := (noErr, dirID)
  HGetVol dirID := (noErr, c_to_pstr "Macintosh HD".toList, -1, dirID)
  HSetVol _ dirID _ := (noErr, dirID)

theorem folderInfo_keepsFull : folderInfo.KeepsFull where
  resolve vRefNum dirID name mac hfull := by
    change (match macDenotes name.chars with | (.default, ms) => _ | (.volume v, ms) => _) =
      (match macDenotes name.chars with | (.default, ms) => _ | (.volume v, ms) => _)
    rw [macVolume] at hfull
    split
    · rename_i ms hdenotes
      simp [hdenotes] at hfull
    · rfl
  catalog _ _ _ _ _ := rfl

namespace CwdState

/-- The library in the root directory, asked for it and then sent to `/Users`. -/
theorem consistent_users : Runs.Always (step folderInfo macintoshHD) (Consistent folderInfo macintoshHD)
    (start (2 : ℤ)) [.getcwd (some 256), .chdir "/Users".toList, .getcwd (some 256)] := by
  refine consistent_of_traceable folderInfo folderInfo_keepsFull macintoshHD (2 : ℤ) _ ⟨trivial, ?_, trivial,
    trivial⟩
  intro _
  decide +kernel

/-- `chdir("Users")` in the root directory selects a directory; getcwd then returns `./Users`. -/
theorem relative_chdir_lost : ¬ Runs.Always (step folderInfo macintoshHD) (Consistent folderInfo macintoshHD)
    (start (2 : ℤ)) [.getcwd (some 256), .chdir "Users".toList] := by
  intro h
  obtain ⟨p, hp, habs, -⟩ := h.last.names (-1, 16) (by decide +kernel) 256 (by unfold Fits; decide +kernel)
  have hresult : ((Runs.run (step folderInfo macintoshHD) (start (2 : ℤ))
      [.getcwd (some 256), .chdir "Users".toList]).getcwd folderInfo macintoshHD (some 256)).1 =
        some "./Users".toList := by decide +kernel
  obtain rfl : "./Users".toList = p := Option.some.inj (hresult.symm.trans hp)
  exact absurd habs (by decide)

end CwdState

end Posix9
