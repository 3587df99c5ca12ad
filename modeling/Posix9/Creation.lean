import Posix9.Descriptors
import Posix9.Disk

/-! What open has changed by the time it fails. It creates, opens and truncates before it looks for a free
    descriptor, and it tests O_EXCL behind the creation. -/

namespace Posix9.FileState

variable {fm : FileManager} {disk : fm.Disk} {s t : FileState fm} {path : CStr} {flags : BitVec 32}
  {err : OSErr} {spec : FSSpec}

/-! ### The laws -/

/-- No file differs, and the table is as its initialisation leaves it. -/
structure Untouched (disk : fm.Disk) (s t : FileState fm) : Prop where
  contents : disk.contents t.mac = disk.contents s.mac
  table : t.fd_table = s.init_fd_table.fd_table

/-- If open fails, it has changed nothing. -/
def FailsClean (disk : fm.Disk) (s : FileState fm) (path : CStr) (flags : BitVec 32) : Prop :=
  (s.open_ path flags).1 = -1 → Untouched disk s (s.open_ path flags).2

/-- open succeeds if and only if there was no such file, and fails with EEXIST if and only if there was
    one. -/
structure CreatesExclusively (s : FileState fm) (path : CStr) (flags : BitVec 32) : Prop where
  absent : (s.open_ path flags).1 ≠ -1 ↔ (fm.FSMakeFSSpec (basicPPath path) s.mac).1 = fnfErr
  present : (s.open_ path flags).1 = -1 ∧ (s.open_ path flags).2.posix9_errno = EEXIST ↔
    (fm.FSMakeFSSpec (basicPPath path) s.mac).1 = noErr

/-! ### How far open gets -/

/-- No descriptor is free. -/
def Full (s : FileState fm) : Prop := ∀ i ∈ slots, (s.init_fd_table.fd_table i).inUse = true

/-- What open resolved as `spec` with result `err` passes the test of O_EXCL and is opened. -/
structure Opens (mac : fm.State) (flags : BitVec 32) (err : OSErr) (spec : FSSpec) : Prop where
  resolved : err = noErr
  shared : ¬(has flags O_CREAT ∧ has flags O_EXCL)
  opened : (fm.FSpOpenDF spec (permission flags) mac).1.1 = noErr

/-- O_TRUNC takes effect on a file that is not empty. -/
structure Empties (disk : fm.Disk) (mac : fm.State) (flags : BitVec 32) (spec : FSSpec) : Prop where
  asked : has flags O_TRUNC = true
  truncated : (fm.SetEOF (fm.FSpOpenDF spec (permission flags) mac).1.2 0
    (fm.FSpOpenDF spec (permission flags) mac).2).1 = noErr
  nonempty : disk.contents mac (disk.file spec) ≠ some []

/-- A file is emptied that no descriptor is free for. -/
def Spills (disk : fm.Disk) (s : FileState fm) (mac : fm.State) (flags : BitVec 32) (err : OSErr)
    (spec : FSSpec) : Prop :=
  Opens mac flags err spec ∧ Empties disk mac flags spec ∧ s.Full

/-- open gets all the way behind a file it has created, and empties none that no descriptor is free for. -/
def CarriesThrough (disk : fm.Disk) (s : FileState fm) (path : CStr) (flags : BitVec 32) : Prop :=
  let made := fm.FSMakeFSSpec (basicPPath path) s.mac
  let created := fm.FSpCreate made.2 s.mac
  let again := fm.FSMakeFSSpec (basicPPath path) created.2
  if made.1 = fnfErr ∧ has flags O_CREAT then
    (created.1 = noErr → Opens created.2 flags again.1 again.2 ∧ ¬ s.Full) ∧
      (created.1 = dupFNErr → ¬ Spills disk s created.2 flags again.1 again.2)
  else ¬ Spills disk s s.mac flags made.1 made.2

/-! ### What each part of it does -/

theorem init_mac : s.init_fd_table.mac = s.mac := by
  rw [init_fd_table]
  split <;> rfl

theorem init_initialized : s.init_fd_table.fd_table_initialized = true := by
  rw [init_fd_table]
  split
  · assumption
  · rfl

theorem full_init : s.init_fd_table.Full ↔ s.Full := by
  rw [Full, Full, init_of_initialized init_initialized]

theorem alloc_fd_full (h : s.Full) : s.alloc_fd = (none, s.init_fd_table.setErrno EMFILE) := by
  rcases alloc_fd_cases s with ⟨i, hi, hfree, -⟩ | ⟨-, halloc⟩
  · rw [h i hi] at hfree
    cases hfree
  · exact halloc

theorem alloc_fd_free (h : ¬ s.Full) : ∃ i, s.alloc_fd =
    (some i, s.init_fd_table.setEntry i { s.init_fd_table.fd_table i with inUse := true }) := by
  rcases alloc_fd_cases s with ⟨i, -, -, halloc⟩ | ⟨hfull, -⟩
  · exact ⟨i, halloc⟩
  · exact absurd hfull h

theorem seekEnd_table (s : FileState fm) (flags : BitVec 32) (origin : ℕ) (r : RefNum) :
    (s.seekEnd flags origin r).fd_table = s.fd_table ∧
    (s.seekEnd flags origin r).fd_table_initialized = s.fd_table_initialized := by
  rw [seekEnd]
  split <;> exact ⟨rfl, rfl⟩

/-- The entry open fills in. -/
def openedEntry (e : FdEntry) (refNum : RefNum) (spec : FSSpec) (flags : BitVec 32) : FdEntry :=
  { e with inUse := true, refNum, vRefNum := spec.vRefNum, dirID := spec.parID, flags, name := p_to_cstr spec.name 64 }

/-- What openFork does to the table: nothing where it fails, and otherwise it fills in a free slot. -/
theorem openFork_table (hinit : s.fd_table_initialized = true) (flags : BitVec 32) (spec : FSSpec) :
    (∃ t : FileState fm, s.openFork flags spec = (-1, t) ∧ t.fd_table = s.fd_table ∧
      t.fd_table_initialized = s.fd_table_initialized) ∨
    ∃ (i : Fd) (refNum : RefNum) (t : FileState fm), s.openFork flags spec = ((i : ℤ), t) ∧ i ∈ slots ∧
      (s.fd_table i).inUse = false ∧
      t.fd_table = (s.setEntry i (openedEntry (s.fd_table i) refNum spec flags)).fd_table ∧
      t.fd_table_initialized = s.fd_table_initialized := by
  rcases hcall : s.FSpOpenDF spec (permission flags) with ⟨⟨err, refNum⟩, u⟩
  have hu : u.fd_table = s.fd_table ∧ u.fd_table_initialized = s.fd_table_initialized := by
    obtain rfl : (s.FSpOpenDF spec (permission flags)).2 = u := by rw [hcall]
    exact ⟨rfl, rfl⟩
  rw [openFork, hcall]
  dsimp only
  split
  · exact .inl ⟨_, rfl, hu⟩
  generalize u.ledger.opens - 1 = origin
  have htrunc : ∀ v, (if has flags O_TRUNC then (u.SetEOF origin refNum 0).2 else u) = v →
      v.fd_table = s.fd_table ∧ v.fd_table_initialized = s.fd_table_initialized := by
    rintro v rfl
    split
    · exact hu
    · exact hu
  generalize hv : (if has flags O_TRUNC then (u.SetEOF origin refNum 0).2 else u) = v
  obtain ⟨hvtable, hvinit⟩ := htrunc v hv
  obtain ⟨hseek, hseekInit⟩ := seekEnd_table v flags origin refNum
  generalize v.seekEnd flags origin refNum = w at hseek hseekInit
  have htable : w.fd_table = s.fd_table := hseek.trans hvtable
  have hw : w.fd_table_initialized = s.fd_table_initialized := hseekInit.trans hvinit
  rcases alloc_fd_cases w with ⟨i, hi, hfree, halloc⟩ | ⟨-, halloc⟩ <;>
    rw [init_of_initialized (hw.trans hinit)] at halloc <;> rw [halloc]
  · rw [init_of_initialized (hw.trans hinit), htable] at hfree
    refine .inr ⟨i, refNum, _, rfl, hi, hfree, ?_, hw⟩
    rw [setEntry_setEntry, setEntry_self]
    exact congrArg (fun table : Fd → FdEntry => Function.update table i
      (openedEntry (table i) refNum spec flags)) htable
  · exact .inl ⟨_, rfl, htable, hw⟩

theorem seekEnd_contents (hdisk : disk.Lawful) (s : FileState fm) (flags : BitVec 32) (origin : ℕ) (r : RefNum) :
    disk.contents (s.seekEnd flags origin r).mac = disk.contents s.mac := by
  rw [seekEnd]
  split
  · exact hdisk.setFPos r _ _ s.mac
  · rfl

/-- open of a path that is to be created. -/
theorem open_creates {spec' : FSSpec} {created err' : OSErr} {mac : fm.State}
    (hmake : fm.FSMakeFSSpec (basicPPath path) s.mac = (err, spec))
    (habsent : err = fnfErr ∧ has flags O_CREAT) (hcreate : fm.FSpCreate spec s.mac = (created, mac))
    (hagain : fm.FSMakeFSSpec (basicPPath path) mac = (err', spec')) :
    s.open_ path flags =
      if created ≠ noErr ∧ created ≠ dupFNErr then ({ s.init_fd_table with mac } : FileState fm).fail created
      else ({ s.init_fd_table with mac } : FileState fm).openResolved flags err' spec' := by
  have hcall : s.init_fd_table.FSpCreate spec = (created, { s.init_fd_table with mac }) := by
    rw [FSpCreate, init_mac, hcreate]
  rw [open_, init_mac, hmake]
  refine (if_pos habsent).trans ?_
  rw [hcall]
  simp only [hagain]

/-- open of any other path. -/
theorem open_resolves (hmake : fm.FSMakeFSSpec (basicPPath path) s.mac = (err, spec))
    (hpresent : ¬(err = fnfErr ∧ has flags O_CREAT)) :
    s.open_ path flags = s.init_fd_table.openResolved flags err spec := by
  rw [open_, init_mac, hmake]
  exact if_neg hpresent

/-- The ways open can end once the path has been resolved. -/
inductive Opening (disk : fm.Disk) (t : FileState fm) (flags : BitVec 32) (err : OSErr) (spec : FSSpec) :
    ℤ × FileState fm → Prop where
  | refused (u : FileState fm) (hopens : ¬ Opens t.mac flags err spec)
      (hcontents : disk.contents u.mac = disk.contents t.mac) (htable : u.fd_table = t.fd_table) :
      Opening disk t flags err spec (-1, u)
  | full (u : FileState fm) (hopens : Opens t.mac flags err spec) (hfull : t.Full)
      (hempties : disk.contents u.mac = disk.contents t.mac ↔ ¬ Empties disk t.mac flags spec)
      (hkept : ∀ f, disk.contents t.mac f = some [] → disk.contents u.mac f = some [])
      (htable : u.fd_table = t.fd_table) : Opening disk t flags err spec (-1, u)
  | opened (fd : Fd) (u : FileState fm) (hopens : Opens t.mac flags err spec) (hfree : ¬ t.Full) :
      Opening disk t flags err spec (fd, u)

/-- O_TRUNC, by the file behind the access path. -/
theorem truncate_contents (hdisk : disk.Lawful) {r : RefNum} {mac : fm.State}
    (hcall : fm.FSpOpenDF spec (permission flags) t.mac = ((noErr, r), mac)) (hmac : s.mac = mac) (origin : ℕ) :
    let u := if has flags O_TRUNC then (s.SetEOF origin r 0).2 else s
    (disk.contents u.mac = disk.contents t.mac ↔ ¬ Empties disk t.mac flags spec) ∧
      ∀ f, disk.contents t.mac f = some [] → disk.contents u.mac f = some [] := by
  subst hmac
  have hsame : disk.contents s.mac = disk.contents t.mac := by
    have hopen := hdisk.open_ spec (permission flags) t.mac
    rwa [hcall] at hopen
  have hleads := hdisk.leadsTo spec (permission flags) t.mac r s.mac hcall
  by_cases hasked : has flags O_TRUNC = true
  · dsimp only
    rw [if_pos hasked]
    rcases hset : fm.SetEOF r 0 s.mac with ⟨e, mac⟩
    have hu : (s.SetEOF origin r 0).2.mac = mac := congrArg Prod.snd hset
    rw [hu]
    by_cases he : e = noErr
    · subst he
      obtain ⟨hemptied, hother⟩ := hdisk.truncate r _ _ _ hset hleads
      refine ⟨⟨fun heq hempties => ?_, fun hno => ?_⟩, fun f hf => ?_⟩
      · rw [heq] at hemptied
        exact hempties.nonempty hemptied
      · have hempty : disk.contents t.mac (disk.file spec) = some [] := by
          by_contra hne
          exact hno ⟨hasked, by rw [hcall, hset], hne⟩
        funext f
        rcases eq_or_ne f (disk.file spec) with rfl | hne
        · rw [hemptied, hempty]
        · rw [hother f hne, hsame]
      · rcases eq_or_ne f (disk.file spec) with rfl | hne
        · exact hemptied
        · rw [hother f hne, hsame, hf]
    · have hfailed : disk.contents mac = disk.contents s.mac := by
        have hkeeps := hdisk.truncate_failed r s.mac
        rw [hset] at hkeeps
        exact hkeeps he
      refine ⟨iff_of_true (hfailed.trans hsame) fun hempties => ?_, fun f hf => ?_⟩
      · have htrunc := hempties.truncated
        rw [hcall, hset] at htrunc
        exact he htrunc
      · rw [hfailed, hsame, hf]
  · dsimp only
    rw [if_neg hasked]
    refine ⟨iff_of_true hsame fun hempties => hasked hempties.asked, fun f hf => ?_⟩
    rw [hsame, hf]

theorem openFork_opening (hdisk : disk.Lawful) (hinit : t.fd_table_initialized = true)
    (hshared : ¬(has flags O_CREAT ∧ has flags O_EXCL)) :
    Opening disk t flags noErr spec (t.openFork flags spec) := by
  rcases hcall : fm.FSpOpenDF spec (permission flags) t.mac with ⟨⟨e, r⟩, mac⟩
  rw [openFork, FSpOpenDF, hcall]
  dsimp only
  split
  · rename_i herr
    refine .refused _ (fun hopens => herr ?_) ?_ rfl
    · rw [← hopens.opened, hcall]
    · have hopen := hdisk.open_ spec (permission flags) t.mac
      rwa [hcall] at hopen
  · rename_i hok
    obtain rfl := not_not.mp hok
    have hopens : Opens t.mac flags noErr spec := ⟨rfl, hshared, by rw [hcall]⟩
    rw [if_pos rfl]
    generalize (t.ledger.opened r).opens - 1 = origin
    generalize hs : ({ t with mac := mac, ledger := t.ledger.opened r } : FileState fm) = s
    have hmac : s.mac = mac := by rw [← hs]
    have htable : s.fd_table = t.fd_table ∧ s.fd_table_initialized = true := by
      rw [← hs]
      exact ⟨rfl, hinit⟩
    obtain ⟨hempties, hkept⟩ := truncate_contents hdisk hcall hmac origin
    generalize hu : (if has flags O_TRUNC then (s.SetEOF origin r 0).2 else s) = u at hempties hkept ⊢
    have hutable : u.fd_table = t.fd_table ∧ u.fd_table_initialized = true := by
      rw [← hu]
      split
      · exact htable
      · exact htable
    have hseek := seekEnd_contents hdisk u flags origin r
    obtain ⟨hseektable, hseekinit⟩ := seekEnd_table u flags origin r
    generalize u.seekEnd flags origin r = v at hseek hseektable hseekinit ⊢
    have hv : v.init_fd_table = v := init_of_initialized (hseekinit.trans hutable.2)
    have hvfull : v.Full ↔ t.Full := by
      rw [Full, Full, hv, init_of_initialized hinit, hseektable, hutable.1]
    by_cases hfull : t.Full
    · rw [alloc_fd_full (hvfull.mpr hfull), hv]
      have hclose : disk.contents ((v.setErrno EMFILE).FSClose origin r).2.mac =
          disk.contents u.mac := (hdisk.close r v.mac).trans hseek
      refine .full _ hopens hfull ?_ (fun f hf => ?_) (hseektable.trans hutable.1)
      · rw [hclose]
        exact hempties
      · rw [hclose]
        exact hkept f hf
    · obtain ⟨i, halloc⟩ := alloc_fd_free (mt hvfull.mp hfull)
      rw [halloc]
      exact .opened i _ hopens hfull

theorem openResolved_opening (hdisk : disk.Lawful) (hinit : t.fd_table_initialized = true)
    (flags : BitVec 32) (err : OSErr) (spec : FSSpec) :
    Opening disk t flags err spec (t.openResolved flags err spec) := by
  rw [openResolved]
  split
  · rename_i hexcl
    exact .refused _ (fun hopens => hopens.shared ⟨hexcl.1, hexcl.2.1⟩) rfl rfl
  · rename_i hexcl
    split
    · rename_i herr
      exact .refused _ (fun hopens => herr hopens.resolved) rfl rfl
    · rename_i hok
      obtain rfl := not_not.mp hok
      exact openFork_opening hdisk hinit fun h => hexcl ⟨h.1, h.2, rfl⟩

/-! ### A failed open -/

variable {o : ℤ × FileState fm}

theorem fd_ne_neg_one (fd : Fd) : (fd : ℤ) ≠ -1 := by omega

/-- Where nothing has been created, only an emptied file is left behind. -/
theorem Opening.untouched_iff (h : Opening disk t flags err spec o)
    (hcontents : disk.contents t.mac = disk.contents s.mac)
    (htable : t.fd_table = s.init_fd_table.fd_table) (hfull : t.Full ↔ s.Full) :
    (o.1 = -1 → Untouched disk s o.2) ↔ ¬ Spills disk s t.mac flags err spec := by
  cases h with
  | refused u hopens hu hutable =>
    refine iff_of_true (fun _ => ⟨hu.trans hcontents, hutable.trans htable⟩) fun hspills => ?_
    exact hopens hspills.1
  | full u hopens hf hempties hkept hutable =>
    rw [hcontents] at hempties
    constructor
    · intro h hspills
      exact hempties.mp (h rfl).contents hspills.2.1
    · intro hno _
      refine ⟨hempties.mpr fun hemptied => ?_, hutable.trans htable⟩
      exact hno ⟨hopens, hemptied, hfull.mp hf⟩
  | opened fd u hopens hfree =>
    refine iff_of_true (fun hfd => absurd hfd (fd_ne_neg_one fd)) fun hspills => ?_
    exact hfree (hfull.mpr hspills.2.2)

/-- Where a file has been created, it is left behind. -/
theorem Opening.created_iff (h : Opening disk t flags err spec o) {f : disk.File}
    (habsent : disk.contents s.mac f = none) (hcreated : disk.contents t.mac f = some [])
    (hfull : t.Full ↔ s.Full) :
    (o.1 = -1 → Untouched disk s o.2) ↔ Opens t.mac flags err spec ∧ ¬ s.Full := by
  have hleft : ∀ u : FileState fm, disk.contents u.mac f = some [] → ¬ Untouched disk s u := by
    intro u hu huntouched
    rw [huntouched.contents, habsent] at hu
    cases hu
  cases h with
  | refused u hopens hu hutable =>
    refine iff_of_false (fun h => hleft u ?_ (h rfl)) fun hthrough => hopens hthrough.1
    rw [hu, hcreated]
  | full u hopens hf hempties hkept hutable =>
    refine iff_of_false (fun h => hleft u (hkept f hcreated) (h rfl)) fun hthrough => ?_
    exact hthrough.2 (hfull.mp hf)
  | opened fd u hopens hfree =>
    refine iff_of_true (fun hfd => absurd hfd (fd_ne_neg_one fd)) ⟨hopens, ?_⟩
    exact mt hfull.mpr hfree

/-- A failed open has changed nothing exactly when every file it creates is opened and gets a descriptor,
    and it empties none that gets none. -/
theorem failsClean_iff_carriesThrough (hdisk : disk.Lawful) (s : FileState fm) (path : CStr)
    (flags : BitVec 32) : FailsClean disk s path flags ↔ CarriesThrough disk s path flags := by
  rcases hmake : fm.FSMakeFSSpec (basicPPath path) s.mac with ⟨err, spec⟩
  by_cases habsent : err = fnfErr ∧ has flags O_CREAT
  · rcases hcreate : fm.FSpCreate spec s.mac with ⟨created, mac⟩
    rcases hagain : fm.FSMakeFSSpec (basicPPath path) mac with ⟨err', spec'⟩
    have hopening := openResolved_opening hdisk (t := { s.init_fd_table with mac }) init_initialized
      flags err' spec'
    have hfull : ({ s.init_fd_table with mac } : FileState fm).Full ↔ s.Full := by
      have hsame := init_of_initialized (s := { s.init_fd_table with mac }) init_initialized
      rw [Full, hsame, Full]
    rw [FailsClean, open_creates hmake habsent hcreate hagain, CarriesThrough]
    simp only [hmake, hcreate, hagain, habsent, and_self, if_true]
    by_cases hnew : created = noErr
    · subst hnew
      obtain ⟨hnone, hempty⟩ := hdisk.create _ _ _ hcreate
      rw [if_neg (by simp), hopening.created_iff hnone hempty hfull]
      refine ⟨fun h => ⟨fun _ => h, fun hdup => ?_⟩, fun h => h.1 rfl⟩
      exact absurd hdup (by decide)
    · have hsame : disk.contents mac = disk.contents s.mac := by
        have hfailed := hdisk.create_failed spec s.mac
        rw [hcreate] at hfailed
        exact hfailed hnew
      by_cases hdup : created = dupFNErr
      · rw [if_neg fun h => h.2 hdup, hopening.untouched_iff hsame rfl hfull]
        exact ⟨fun h => ⟨fun hno => absurd hno hnew, fun _ => h⟩, fun h => h.2 hdup⟩
      · rw [if_pos ⟨hnew, hdup⟩]
        refine iff_of_true (fun _ => ⟨hsame, rfl⟩) ⟨fun hno => absurd hno hnew, ?_⟩
        exact fun hno => absurd hno hdup
  · have hopening := openResolved_opening hdisk (t := s.init_fd_table) init_initialized flags err spec
    rw [FailsClean, open_resolves hmake habsent, CarriesThrough]
    simp only [hmake]
    rw [if_neg habsent, hopening.untouched_iff (by rw [init_mac]) rfl full_init, init_mac]

/-- The library behind its start, over files in memory. -/
def onRamDisk (mac : RamDisk) : FileState ramDisk := FileState.start mac fun _ => false

theorem not_full_onRamDisk (mac : RamDisk) : ¬ (onRamDisk mac).Full := by
  intro h
  have hused := h ⟨3, by decide⟩ (mem_slots.mpr (Nat.le_refl 3))
  exact Bool.false_ne_true hused

/-- A file that is not there, on an empty disk: open fails, and nothing has changed. -/
theorem failsClean_no_file : ((onRamDisk .empty).open_ "notes".toList O_RDWR).1 = -1 ∧
    Untouched ramFiles (onRamDisk .empty) ((onRamDisk .empty).open_ "notes".toList O_RDWR).2 := by
  have hfails : ((onRamDisk .empty).open_ "notes".toList O_RDWR).1 = -1 := by decide +kernel
  refine ⟨hfails, (failsClean_iff_carriesThrough ramFiles_lawful _ _ _).mpr ?_ hfails⟩
  rw [CarriesThrough, if_neg (by decide +kernel)]
  exact fun hspills => not_full_onRamDisk _ hspills.2.2

/-- open makes the lock file, takes it for one that was there before, and fails. -/
theorem failed_open_leaves_file :
    ramFiles.Lawful ∧ ¬ FailsClean ramFiles (onRamDisk .empty) "lock".toList (O_CREAT ||| O_EXCL) := by
  refine ⟨ramFiles_lawful, fun h => ?_⟩
  have hsame := congrFun (h (by decide +kernel)).contents ⟨-1, 2, basicPPath "lock".toList⟩
  exact absurd hsame (by decide +kernel)

/-! ### O_EXCL -/

theorem openResolved_exclusive (hcreat : has flags O_CREAT = true) (hexcl : has flags O_EXCL = true) :
    t.openResolved flags err spec =
      if err = noErr then (-1, t.setErrno EEXIST) else t.fail err := by
  rw [openResolved]
  by_cases herr : err = noErr
  · rw [if_pos ⟨hcreat, hexcl, herr⟩, if_pos herr]
  · rw [if_neg fun h => herr h.2.2, if_pos herr, if_neg herr]

/-- With both flags open never succeeds. -/
theorem open_exclusive_fails (s : FileState fm) (path : CStr) (hcreat : has flags O_CREAT = true)
    (hexcl : has flags O_EXCL = true) :
    (s.open_ path flags).1 = -1 := by
  have hresolved : ∀ (t : FileState fm) err spec, (t.openResolved flags err spec).1 = -1 := by
    intro t err spec
    rw [openResolved_exclusive hcreat hexcl]
    split <;> rfl
  rw [open_]
  dsimp only
  split
  · split
    · rfl
    · exact hresolved _ _ _
  · exact hresolved _ _ _

theorem ite_ne {c : Prop} [Decidable c] {x y e : ℤ} (hx : x ≠ e) (hy : y ≠ e) :
    (if c then x else y) ≠ e := by
  split
  · exact hx
  · exact hy

theorem macos_to_errno_eq_EEXIST : posix9_macos_to_errno err = EEXIST ↔ err = dupFNErr := by
  constructor
  · intro h
    by_contra hne
    rw [posix9_macos_to_errno, if_neg hne] at h
    refine absurd h ?_
    repeat' first | decide | refine ite_ne ?_ ?_
  · rintro rfl
    decide

/-- Where nothing is to be created, the result of the resolution decides. -/
theorem open_exclusive_present (hcreat : has flags O_CREAT = true) (hexcl : has flags O_EXCL = true)
    (hpresent : (fm.FSMakeFSSpec (basicPPath path) s.mac).1 ≠ fnfErr) :
    (s.open_ path flags).2.posix9_errno = EEXIST ↔
      (fm.FSMakeFSSpec (basicPPath path) s.mac).1 = noErr ∨
        (fm.FSMakeFSSpec (basicPPath path) s.mac).1 = dupFNErr := by
  rcases hmake : fm.FSMakeFSSpec (basicPPath path) s.mac with ⟨err, spec⟩
  rw [hmake] at hpresent
  rw [open_resolves hmake fun h => hpresent h.1, openResolved_exclusive hcreat hexcl]
  split
  · rename_i hok
    exact iff_of_true rfl (.inl hok)
  · rename_i herr
    rw [or_iff_right herr]
    exact macos_to_errno_eq_EEXIST

/-- open with O_CREAT and O_EXCL tells a file that exists from one that does not exactly when there is no
    file to be created. -/
theorem createsExclusively_iff_present (s : FileState fm) (path : CStr) (hcreat : has flags O_CREAT = true)
    (hexcl : has flags O_EXCL = true) : CreatesExclusively s path flags ↔
      (fm.FSMakeFSSpec (basicPPath path) s.mac).1 ≠ fnfErr ∧
        (fm.FSMakeFSSpec (basicPPath path) s.mac).1 ≠ dupFNErr := by
  have hfails := open_exclusive_fails s path hcreat hexcl
  constructor
  · intro h
    have hpresent : (fm.FSMakeFSSpec (basicPPath path) s.mac).1 ≠ fnfErr := fun habsent =>
      h.absent.mpr habsent hfails
    refine ⟨hpresent, fun hdup => ?_⟩
    have hexists := h.present.mp ⟨hfails, (open_exclusive_present hcreat hexcl hpresent).mpr (.inr hdup)⟩
    rw [hdup] at hexists
    exact absurd hexists (by decide)
  · rintro ⟨hpresent, hdup⟩
    have herrno := open_exclusive_present hcreat hexcl hpresent
    refine ⟨iff_of_false (fun h => h hfails) hpresent, fun h => ?_, fun h => ⟨hfails, herrno.mpr (.inl h)⟩⟩
    exact (herrno.mp h.2).resolve_right hdup

/-- A lock file that somebody else holds. -/
theorem createsExclusively_held : CreatesExclusively
    (onRamDisk (RamDisk.empty.setFile ⟨-1, 2, basicPPath "lock".toList⟩ [])) "lock".toList
      (O_CREAT ||| O_EXCL) :=
  (createsExclusively_iff_present _ _ (by decide) (by decide)).mpr (by decide +kernel)

/-- A lock file that nobody holds is created, and open reports that it exists. -/
theorem free_lock_exists : ¬ (onRamDisk .empty).Full ∧
    (ramDisk.FSMakeFSSpec (basicPPath "lock".toList) .empty).1 = fnfErr ∧
    (RamDisk.create ⟨-1, 2, basicPPath "lock".toList⟩ .empty).1 = noErr ∧
    (RamDisk.openFile ⟨-1, 2, basicPPath "lock".toList⟩
      (RamDisk.create ⟨-1, 2, basicPPath "lock".toList⟩ .empty).2).1.1 = noErr ∧
    ¬ CreatesExclusively (onRamDisk .empty) "lock".toList (O_CREAT ||| O_EXCL) := by
  refine ⟨not_full_onRamDisk _, by decide +kernel, by decide +kernel, by decide +kernel, fun h => ?_⟩
  exact h.absent.mpr (by decide +kernel) (by decide +kernel)

end Posix9.FileState
