import Posix9.FileManager

/-! What the disks hold. The File Manager's state is opaque; a `Disk` says which file a specification names,
    what that file contains and which file an access path leads to, as far as the calls that open makes
    can change it. -/

namespace Posix9

structure FileManager.Disk (fm : FileManager) where
  File : Type
  /-- The file a specification names, whether there is one or not. -/
  file : FSSpec → File
  /-- The data fork, or none where there is no such file. -/
  contents : fm.State → File → Option (List UInt8)
  /-- The file an access path leads to. -/
  leadsTo : fm.State → RefNum → Option File

/-- A call that fails changes nothing; of those that succeed FSpCreate makes an empty file where there
    was none, SetEOF(r, 0) empties the file of `r`, and the others change no file. -/
structure FileManager.Disk.Lawful {fm : FileManager} (disk : fm.Disk) : Prop where
  create : ∀ spec st st', fm.FSpCreate spec st = (noErr, st') →
    disk.contents st (disk.file spec) = none ∧ disk.contents st' (disk.file spec) = some []
  create_failed : ∀ spec st, (fm.FSpCreate spec st).1 ≠ noErr →
    disk.contents (fm.FSpCreate spec st).2 = disk.contents st
  open_ : ∀ spec perm st, disk.contents (fm.FSpOpenDF spec perm st).2 = disk.contents st
  leadsTo : ∀ spec perm st r st', fm.FSpOpenDF spec perm st = ((noErr, r), st') →
    disk.leadsTo st' r = some (disk.file spec)
  truncate : ∀ r f st st', fm.SetEOF r 0 st = (noErr, st') → disk.leadsTo st r = some f →
    disk.contents st' f = some [] ∧ ∀ g, g ≠ f → disk.contents st' g = disk.contents st g
  truncate_failed : ∀ r st, (fm.SetEOF r 0 st).1 ≠ noErr →
    disk.contents (fm.SetEOF r 0 st).2 = disk.contents st
  setFPos : ∀ r mode off st, disk.contents (fm.SetFPos r mode off st).2 = disk.contents st
  close : ∀ r st, disk.contents (fm.FSClose r st).2 = disk.contents st

/-! ### A File Manager -/

/-- Files in memory, the access paths to them, each with its mark, and the next refNum. -/
structure RamDisk where
  files : FSSpec → Option (List UInt8)
  paths : RefNum → Option (FSSpec × ℕ)
  next : RefNum

namespace RamDisk

variable {st st' : RamDisk} {spec : FSSpec} {r : RefNum}

def empty : RamDisk := ⟨fun _ => none, fun _ => none, 1⟩

/-- The access path: the file it leads to, its mark and what the file contains. -/
def lookup (st : RamDisk) (r : RefNum) : Option (FSSpec × ℕ × List UInt8) :=
  match st.paths r with
  | none => none
  | some (spec, mark) => (st.files spec).map fun bytes => (spec, mark, bytes)

def setMark (st : RamDisk) (r : RefNum) (spec : FSSpec) (mark : ℕ) : RamDisk :=
  { st with paths := Function.update st.paths r (some (spec, mark)) }

def setFile (st : RamDisk) (spec : FSSpec) (bytes : List UInt8) : RamDisk :=
  { st with files := Function.update st.files spec (some bytes) }

def create (spec : FSSpec) (st : RamDisk) : OSErr × RamDisk :=
  if (st.files spec).isSome then (dupFNErr, st) else (noErr, st.setFile spec [])

def openFile (spec : FSSpec) (st : RamDisk) : (OSErr × RefNum) × RamDisk :=
  if (st.files spec).isSome then
    ((noErr, st.next), { st.setMark st.next spec 0 with next := st.next + 1 })
  else ((fnfErr, 0), st)

def close (r : RefNum) (st : RamDisk) : OSErr × RamDisk :=
  if (st.paths r).isSome then (noErr, { st with paths := Function.update st.paths r none })
  else (rfNumErr, st)

def read (r : RefNum) (count : ℕ) (st : RamDisk) : (OSErr × List UInt8) × RamDisk :=
  match st.lookup r with
  | none => ((rfNumErr, []), st)
  | some (spec, mark, bytes) =>
    let got := (bytes.drop mark).take count
    ((if got.length < count then eofErr else noErr, got), st.setMark r spec (mark + got.length))

def write (r : RefNum) (buf : List UInt8) (st : RamDisk) : (OSErr × ℕ) × RamDisk :=
  match st.lookup r with
  | none => ((rfNumErr, 0), st)
  | some (spec, mark, bytes) =>
    ((noErr, buf.length), (st.setFile spec
      (bytes.take mark ++ buf ++ bytes.drop (mark + buf.length))).setMark r spec (mark + buf.length))

def target (mode : PosMode) (off : ℤ) (mark eof : ℕ) : ℤ :=
  match mode with
  | .fsFromStart => off
  | .fsFromMark => mark + off
  | .fsFromLEOF => eof + off

def setPos (r : RefNum) (mode : PosMode) (off : ℤ) (st : RamDisk) : OSErr × RamDisk :=
  match st.lookup r with
  | none => (rfNumErr, st)
  | some (spec, mark, bytes) =>
    let pos := target mode off mark bytes.length
    if pos < 0 then (posErr, st)
    else if bytes.length < pos then (eofErr, st.setMark r spec bytes.length)
    else (noErr, st.setMark r spec pos.toNat)

def setEOF (r : RefNum) (len : ℤ) (st : RamDisk) : OSErr × RamDisk :=
  match st.lookup r with
  | none => (rfNumErr, st)
  | some (spec, _, bytes) =>
    if len < 0 then (paramErr, st)
    else (noErr, st.setFile spec
      (bytes.take len.toNat ++ List.replicate (len.toNat - bytes.length) 0))

/-- An open access path has its file and its mark. -/
theorem lookup_eq_some {mark : ℕ} {bytes : List UInt8} (h : st.lookup r = some (spec, mark, bytes)) :
    st.paths r = some (spec, mark) ∧ st.files spec = some bytes := by
  rw [lookup] at h
  split at h
  · cases h
  · rename_i q m hpath
    obtain ⟨b, hfile, heq⟩ := Option.map_eq_some_iff.mp h
    obtain ⟨rfl, rfl, rfl⟩ : q = spec ∧ m = mark ∧ b = bytes := by simpa using heq
    exact ⟨hpath, hfile⟩

/-- Create makes an empty file, where there was none. -/
theorem create_noErr (h : create spec st = (noErr, st')) :
    st.files spec = none ∧ st'.files spec = some [] := by
  rw [create] at h
  split at h
  · exact absurd (congrArg Prod.fst h) (by decide : dupFNErr ≠ noErr)
  · rename_i hnone
    obtain rfl := congrArg Prod.snd h
    exact ⟨by simpa using hnone, Function.update_self ..⟩

theorem create_failed (h : (create spec st).1 ≠ noErr) : (create spec st).2 = st := by
  rw [create] at h ⊢
  split
  · rfl
  · rename_i hnone
    rw [if_neg hnone] at h
    exact absurd rfl h

/-- Opening changes no file, and the new access path stands at the front. -/
theorem openFile_files (spec : FSSpec) (st : RamDisk) : (openFile spec st).2.files = st.files := by
  rw [openFile]
  split <;> rfl

theorem openFile_paths (h : openFile spec st = ((noErr, r), st')) :
    st'.paths r = some (spec, 0) := by
  rw [openFile] at h
  split at h
  · obtain rfl := congrArg (fun x => x.1.2) h
    obtain rfl := congrArg Prod.snd h
    exact Function.update_self ..
  · exact absurd (congrArg (fun x => x.1.1) h) (by decide : fnfErr ≠ noErr)

/-- SetEOF to zero empties the file of its access path, and no other. -/
theorem setEOF_noErr (h : setEOF r 0 st = (noErr, st')) {q : FSSpec}
    (hq : (st.paths r).map Prod.fst = some q) :
    st'.files q = some [] ∧ ∀ g, g ≠ q → st'.files g = st.files g := by
  rw [setEOF] at h
  split at h
  · exact absurd (congrArg Prod.fst h) (by decide : rfNumErr ≠ noErr)
  · rename_i spec mark bytes hlookup
    rw [(lookup_eq_some hlookup).1] at hq
    obtain rfl : spec = q := by simpa using hq
    obtain rfl := congrArg Prod.snd h
    refine ⟨?_, fun g hg => ?_⟩
    · simp [setFile]
    · simp [setFile, hg]

theorem setEOF_failed (h : (setEOF r 0 st).1 ≠ noErr) : (setEOF r 0 st).2 = st := by
  rw [setEOF] at h ⊢
  split
  · rfl
  · rename_i hlookup
    rw [hlookup] at h
    exact absurd rfl h

/-- Nor do positioning and closing change any file. -/
theorem setPos_files (r : RefNum) (mode : PosMode) (off : ℤ) (st : RamDisk) :
    (setPos r mode off st).2.files = st.files := by
  rw [setPos]
  split
  · rfl
  · dsimp only
    split
    · rfl
    · split <;> rfl

theorem close_files (r : RefNum) (st : RamDisk) : (close r st).2.files = st.files := by
  rw [close]
  split <;> rfl

end RamDisk

/-- A File Manager with one volume and one directory. -/
def ramDisk : FileManager where
  State := RamDisk
  isOpen st r := (st.paths r).isSome
  FSMakeFSSpec name st := (if (st.files ⟨-1, 2, name⟩).isSome then noErr else fnfErr, ⟨-1, 2, name⟩)
  FSpCreate := RamDisk.create
  FSpOpenDF spec _ := RamDisk.openFile spec
  FSClose := RamDisk.close
  FSRead := RamDisk.read
  FSWrite := RamDisk.write
  SetFPos := RamDisk.setPos
  GetFPos r st :=
    match st.lookup r with
    | none => (rfNumErr, 0)
    | some (_, mark, _) => (noErr, mark)
  SetEOF := RamDisk.setEOF

/-- The files of it, by their specifications. -/
def ramFiles : ramDisk.Disk where
  File := FSSpec
  file := id
  contents := RamDisk.files
  leadsTo st r := (st.paths r).map Prod.fst

theorem ramFiles_lawful : ramFiles.Lawful where
  create _ _ _ h := RamDisk.create_noErr h
  create_failed _ _ h := congrArg RamDisk.files (RamDisk.create_failed h)
  open_ spec _ st := RamDisk.openFile_files spec st
  leadsTo _ _ _ _ _ h := congrArg (Option.map Prod.fst) (RamDisk.openFile_paths h)
  truncate _ _ _ _ h hq := RamDisk.setEOF_noErr h hq
  truncate_failed _ _ h := congrArg RamDisk.files (RamDisk.setEOF_failed h)
  setFPos := RamDisk.setPos_files
  close := RamDisk.close_files

end Posix9
