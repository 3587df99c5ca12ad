import Posix9.Disk
import Posix9.Lib.ByteFile
import Posix9.TableSteps

/-! read, write, lseek and ftruncate of posix9_file.c on a table of open descriptors, against files with a
    mark: in whatever order the calls come, they are calls on such files. -/

namespace Posix9

/-! ### The File Manager -/

/-- An access path, the file it leads to, what that contains and where the mark of the path is. -/
structure FileManager.Disk.Placed {fm : FileManager} (disk : fm.Disk) (mark : fm.State → RefNum → ℕ) (st : fm.State)
    (r : RefNum) (g : disk.File) (f : ByteFile) : Prop where
  leadsTo : disk.leadsTo st r = some g
  contents : disk.contents st g = some f.contents
  mark : mark st r = f.mark

/-- A call on an access path leaves it at `f`, and is nothing to other access paths to other files. -/
structure FileManager.Disk.Moves {fm : FileManager} (disk : fm.Disk) (mark : fm.State → RefNum → ℕ) (st : fm.State)
    (r : RefNum) (g : disk.File) (f : ByteFile) (st' : fm.State) : Prop where
  placed : disk.Placed mark st' r g f
  others : ∀ r' g' f', r' ≠ r → g' ≠ g → disk.Placed mark st r' g' f' → disk.Placed mark st' r' g' f'

namespace FileManager.Disk

variable {fm : FileManager} {disk : fm.Disk} {mark : fm.State → RefNum → ℕ} {st st' st'' : fm.State} {r : RefNum}
  {g : disk.File} {f f' : ByteFile}

theorem Moves.refl (h : disk.Placed mark st r g f) : disk.Moves mark st r g f st := ⟨h, fun _ _ _ _ _ h => h⟩

theorem Moves.trans (h : disk.Moves mark st r g f st') (h' : disk.Moves mark st' r g f' st'') :
    disk.Moves mark st r g f' st'' where
  placed := h'.placed
  others r' g' f'' hr hg hplaced := h'.others r' g' f'' hr hg (h.others r' g' f'' hr hg hplaced)

end FileManager.Disk

/-- Where SetFPos is to move the mark. -/
def seekTarget (f : ByteFile) (mode : PosMode) (off : ℤ) : ℤ :=
  match mode with
  | .fsFromStart => off
  | .fsFromMark => f.mark + off
  | .fsFromLEOF => f.size + off

/-- What SetFPos does with the mark: it does not go in front of the file and stops at its end. -/
def seekTo (f : ByteFile) (mode : PosMode) (off : ℤ) : OSErr × ByteFile :=
  if seekTarget f mode off < 0 then (posErr, f)
  else (if f.size < seekTarget f mode off then eofErr else noErr, f.toward (seekTarget f mode off).toNat)

/-- Where SetFPos succeeds, the mark is where it was to go. -/
theorem seekTo_mark {f : ByteFile} {mode : PosMode} {off : ℤ} (h : (seekTo f mode off).1 = noErr) :
    ((seekTo f mode off).2.mark : ℤ) = seekTarget f mode off := by
  rw [seekTo] at h ⊢
  split at h
  · exact absurd h (by decide : posErr ≠ noErr)
  rename_i hneg
  rw [if_neg hneg]
  dsimp only at h ⊢
  split at h
  · exact absurd h (by decide : eofErr ≠ noErr)
  rename_i hin
  change ((min (seekTarget f mode off).toNat f.size : ℕ) : ℤ) = _
  omega

theorem seekTo_end (f : ByteFile) : seekTo f .fsFromLEOF 0 = (noErr, f.goto f.size (Nat.le_refl _)) := by
  have htarget : seekTarget f .fsFromLEOF 0 = f.size := Int.add_zero _
  have hend : f.toward f.size = f.goto f.size (Nat.le_refl _) := by
    simp only [ByteFile.toward, Nat.min_self]
  rw [seekTo, htarget, if_neg (Int.not_lt.mpr (Int.natCast_nonneg _)), if_neg (Int.lt_irrefl _), Int.toNat_natCast, hend]

/-- What is relied on of access paths: the device may fail in the middle of a call, SetEOF may be refused, and it does
    not say what it puts behind the end of a file that it makes longer. -/
structure FileManager.Disk.Sound {fm : FileManager} (disk : fm.Disk) (mark : fm.State → RefNum → ℕ) : Prop where
  read : ∀ st r g f count, disk.Placed mark st r g f → ∃ err n st',
    fm.FSRead r count st = ((err, f.next n), st') ∧ n ≤ count ∧ (err = noErr ∨ err = eofErr → n = count) ∧
      disk.Moves mark st r g (f.skip n) st'
  write : ∀ st r g f buf, disk.Placed mark st r g f → ∃ err n st',
    fm.FSWrite r buf st = ((err, n), st') ∧ n ≤ buf.length ∧ (err = noErr → n = buf.length) ∧
      disk.Moves mark st r g (f.write (buf.take n)) st'
  seek : ∀ st r g f mode off, disk.Placed mark st r g f → ∃ st',
    fm.SetFPos r mode off st = ((seekTo f mode off).1, st') ∧ disk.Moves mark st r g (seekTo f mode off).2 st'
  tell : ∀ st r g f, disk.Placed mark st r g f → fm.GetFPos r st = (noErr, (f.mark : ℤ))
  resize : ∀ st r g f len, disk.Placed mark st r g f → ∃ err st', fm.SetEOF r len st = (err, st') ∧
    (err ≠ noErr ∧ disk.Moves mark st r g f st' ∨
      err = noErr ∧ 0 ≤ len ∧ ∃ pad : List UInt8, (pad.length : ℤ) = max 0 (len - f.size) ∧
        disk.Moves mark st r g (f.resize len.toNat pad) st')

/-! ### Calls on descriptors -/

inductive IoOp where
  | read (count : ℕ)
  | write (buf : List UInt8)
  | lseek (offset whence : ℤ)
  | ftruncate (length : ℤ)

structure IoCall where
  fd : Fd
  op : IoOp

/-- What a call returns, and what it puts into the buffer of its caller. -/
abbrev IoResult := ℤ × List UInt8

/-- What a call may return and do to the file of its descriptor; `appends` is O_APPEND. A read or a write that the
    device stops on the way returns -1 although it got somewhere. -/
def IoOp.Does (appends : Bool) (f : ByteFile) : IoOp → IoResult → ByteFile → Prop
  | .read count, result, f' => ∃ n ≤ count, f' = f.skip n ∧
    (result = (-1, f.next n) ∨ n = count ∧ result = (((f.next n).length : ℤ), f.next n))
  | .write buf, result, f' => ∃ n ≤ buf.length,
    f' = (if appends then f.goto f.size (Nat.le_refl _) else f).write (buf.take n) ∧
      (result = (-1, []) ∨ n = buf.length ∧ result = ((n : ℤ), []))
  | .lseek offset whence, result, f' =>
    match FileState.posMode whence with
    | none => result = (-1, []) ∧ f' = f
    | some mode =>
      result = (if (seekTo f mode offset).1 = noErr then seekTarget f mode offset else -1, []) ∧
        f' = (seekTo f mode offset).2
  | .ftruncate length, result, f' =>
    (result = (-1, []) ∧ f' = f) ∨
      (0 ≤ length ∧ result = (0, []) ∧
        ∃ pad : List UInt8, (pad.length : ℤ) = max 0 (length - f.size) ∧ f' = f.resize length.toNat pad)

/-- A run of calls with their results, each on the file behind the access path of its descriptor. -/
inductive IoRun (path : Fd → RefNum) (appends : Fd → Bool) :
    (RefNum → ByteFile) → List (IoCall × IoResult) → (RefNum → ByteFile) → Prop
  | nil {T : RefNum → ByteFile} : IoRun path appends T [] T
  | cons {T T' : RefNum → ByteFile} {c : IoCall} {result : IoResult} {f : ByteFile} {rest : List (IoCall × IoResult)} :
    c.op.Does (appends c.fd) (T (path c.fd)) result f → IoRun path appends (Function.update T (path c.fd) f) rest T' →
      IoRun path appends T ((c, result) :: rest) T'

namespace FileState

variable {fm : FileManager} {disk : fm.Disk} {mark : fm.State → RefNum → ℕ} {s t : FileState fm} {i j : Fd}

def perform (s : FileState fm) (c : IoCall) : IoResult × FileState fm :=
  match c.op with
  | .read count => s.read c.fd count
  | .write buf => (((s.write c.fd buf).1, []), (s.write c.fd buf).2)
  | .lseek offset whence => (((s.lseek c.fd offset whence).1, []), (s.lseek c.fd offset whence).2)
  | .ftruncate length => (((s.ftruncate c.fd length).1, []), (s.ftruncate c.fd length).2)

/-- The calls of a run with what they return, and the state behind it. -/
def performAll (s : FileState fm) : List IoCall → List (IoCall × IoResult) × FileState fm
  | [] => ([], s)
  | c :: cs =>
    let (result, s) := s.perform c
    let (rest, s) := s.performAll cs
    ((c, result) :: rest, s)

/-! ### One call -/

variable {g : disk.File} {f : ByteFile} {st' : fm.State} {err : OSErr}

theorem read_answers (hi : s.Holds i) {count : ℕ} {bytes : List UInt8}
    (hread : fm.FSRead (s.fd_table i).refNum count s.mac = ((err, bytes), st')) :
    (s.read i count).1 = (if err = noErr ∨ err = eofErr then (bytes.length : ℤ) else -1, bytes) ∧
      (s.read i count).2.mac = st' := by
  rw [read, get_fd_entry_self hi.1]
  dsimp only
  rw [if_neg (by simp [hi.2]), FSRead, hread]
  dsimp only
  by_cases heof : err = eofErr
  · rw [if_pos heof, if_pos (.inr heof)]
    exact ⟨rfl, rfl⟩
  by_cases hok : err = noErr
  · rw [if_neg heof, if_neg (not_not.mpr hok), if_pos (.inl hok)]
    exact ⟨rfl, rfl⟩
  · rw [if_neg heof, if_pos hok, if_neg (not_or.mpr ⟨hok, heof⟩)]
    exact ⟨rfl, rfl⟩

theorem write_answers (hi : s.Holds i) {buf : List UInt8} {st : fm.State} {n : ℕ}
    (hseek : (s.seekEnd (s.fd_table i).flags (s.ledger.origin i) (s.fd_table i).refNum).mac = st)
    (hwrite : fm.FSWrite (s.fd_table i).refNum buf st = ((err, n), st')) :
    (s.write i buf).1 = (if err = noErr then (n : ℤ) else -1) ∧ (s.write i buf).2.mac = st' := by
  rw [write, get_fd_entry_self hi.1]
  dsimp only
  rw [if_neg (by simp [hi.2]), FSWrite, hseek, hwrite]
  dsimp only
  by_cases hok : err = noErr
  · rw [if_neg (not_not.mpr hok), if_pos hok]
    exact ⟨rfl, rfl⟩
  · rw [if_pos hok, if_neg hok]
    exact ⟨rfl, rfl⟩

theorem lseek_answers (hi : s.Holds i) {offset whence : ℤ} {mode : PosMode} (hmode : posMode whence = some mode)
    (hseek : fm.SetFPos (s.fd_table i).refNum mode offset s.mac = (err, st')) {pos : ℤ}
    (htell : fm.GetFPos (s.fd_table i).refNum st' = (noErr, pos)) :
    (s.lseek i offset whence).1 = (if err = noErr then pos else -1) ∧ (s.lseek i offset whence).2.mac = st' := by
  rw [lseek, get_fd_entry_self hi.1]
  dsimp only
  rw [if_neg (by simp [hi.2]), hmode]
  dsimp only
  rw [SetFPos, hseek]
  by_cases herr : err = noErr
  · have hok : (fm.GetFPos (s.fd_table i).refNum st').1 = noErr := by rw [htell]
    rw [if_pos herr, if_neg (not_not.mpr herr)]
    dsimp only
    rw [if_neg (not_not.mpr hok)]
    exact ⟨congrArg Prod.snd htell, rfl⟩
  · rw [if_neg herr, if_pos herr]
    exact ⟨rfl, rfl⟩

theorem ftruncate_answers (hi : s.Holds i) {length : ℤ}
    (hset : fm.SetEOF (s.fd_table i).refNum length s.mac = (err, st')) :
    (s.ftruncate i length).1 = (if err = noErr then 0 else -1) ∧ (s.ftruncate i length).2.mac = st' := by
  rw [ftruncate, get_fd_entry_self hi.1]
  dsimp only
  rw [if_neg (by simp [hi.2]), SetEOF, hset]
  by_cases herr : err = noErr
  · rw [if_pos herr, if_neg (not_not.mpr herr)]
    exact ⟨rfl, rfl⟩
  · rw [if_neg herr, if_pos herr]
    exact ⟨rfl, rfl⟩

theorem read_does (hsound : disk.Sound mark) (hi : s.Holds i)
    (hplaced : disk.Placed mark s.mac (s.fd_table i).refNum g f) (count : ℕ) :
    ∃ f', (IoOp.read count).Does (has (s.fd_table i).flags O_APPEND) f (s.perform ⟨i, .read count⟩).1 f' ∧
      disk.Moves mark s.mac (s.fd_table i).refNum g f' (s.perform ⟨i, .read count⟩).2.mac := by
  obtain ⟨err, n, st', hread, hn, hall, hmoves⟩ := hsound.read _ _ _ _ count hplaced
  obtain ⟨hresult, hmac⟩ := read_answers hi hread
  refine ⟨f.skip n, ⟨n, hn, rfl, ?_⟩, ?_⟩
  · simp only [perform, hresult]
    split
    · rename_i hok
      exact .inr ⟨hall hok, rfl⟩
    · exact .inl rfl
  · simp only [perform, hmac]
    exact hmoves

/-- What write does in front of FSWrite. -/
theorem seekEnd_moves (hsound : disk.Sound mark) (hplaced : disk.Placed mark s.mac (s.fd_table i).refNum g f) :
    disk.Moves mark s.mac (s.fd_table i).refNum g
      (if has (s.fd_table i).flags O_APPEND then f.goto f.size (Nat.le_refl _) else f)
      (s.seekEnd (s.fd_table i).flags (s.ledger.origin i) (s.fd_table i).refNum).mac := by
  rw [seekEnd]
  by_cases happends : has (s.fd_table i).flags O_APPEND = true
  · obtain ⟨st, hseek, hmoves⟩ := hsound.seek _ _ _ _ .fsFromLEOF 0 hplaced
    rw [seekTo_end] at hseek hmoves
    rw [if_pos happends, if_pos happends, SetFPos, hseek]
    exact hmoves
  · rw [if_neg happends, if_neg happends]
    exact .refl hplaced

theorem write_does (hsound : disk.Sound mark) (hi : s.Holds i)
    (hplaced : disk.Placed mark s.mac (s.fd_table i).refNum g f) (buf : List UInt8) :
    ∃ f', (IoOp.write buf).Does (has (s.fd_table i).flags O_APPEND) f (s.perform ⟨i, .write buf⟩).1 f' ∧
      disk.Moves mark s.mac (s.fd_table i).refNum g f' (s.perform ⟨i, .write buf⟩).2.mac := by
  have hseeks := seekEnd_moves hsound hplaced
  obtain ⟨err, n, st', hwrite, hn, hall, hmoves⟩ := hsound.write _ _ _ _ buf hseeks.placed
  obtain ⟨hresult, hmac⟩ := write_answers hi rfl hwrite
  refine ⟨_, ⟨n, hn, rfl, ?_⟩, ?_⟩
  · simp only [perform, hresult]
    split
    · rename_i hok
      exact .inr ⟨hall hok, rfl⟩
    · exact .inl rfl
  · simp only [perform, hmac]
    exact hseeks.trans hmoves

theorem lseek_does (hsound : disk.Sound mark) (hi : s.Holds i)
    (hplaced : disk.Placed mark s.mac (s.fd_table i).refNum g f) (offset whence : ℤ) :
    ∃ f', (IoOp.lseek offset whence).Does (has (s.fd_table i).flags O_APPEND) f
        (s.perform ⟨i, .lseek offset whence⟩).1 f' ∧
      disk.Moves mark s.mac (s.fd_table i).refNum g f' (s.perform ⟨i, .lseek offset whence⟩).2.mac := by
  rcases hmode : posMode whence with _ | mode
  · have hfails : s.lseek i offset whence = (-1, s.setErrno EINVAL) := by
      rw [lseek, get_fd_entry_self hi.1]
      dsimp only
      rw [if_neg (by simp [hi.2]), hmode]
    refine ⟨f, ?_, ?_⟩
    · simp only [IoOp.Does, hmode, perform, hfails, and_self]
    · simp only [perform, hfails]
      exact .refl hplaced
  · obtain ⟨st', hseek, hmoves⟩ := hsound.seek _ _ _ _ mode offset hplaced
    have htell := hsound.tell _ _ _ _ hmoves.placed
    obtain ⟨hresult, hmac⟩ := lseek_answers hi hmode hseek htell
    refine ⟨(seekTo f mode offset).2, ?_, ?_⟩
    · simp only [IoOp.Does, hmode, perform, hresult, and_true]
      split
      · rename_i herr
        rw [seekTo_mark herr]
      · rfl
    · simp only [perform, hmac]
      exact hmoves

theorem ftruncate_does (hsound : disk.Sound mark) (hi : s.Holds i)
    (hplaced : disk.Placed mark s.mac (s.fd_table i).refNum g f) (length : ℤ) :
    ∃ f', (IoOp.ftruncate length).Does (has (s.fd_table i).flags O_APPEND) f (s.perform ⟨i, .ftruncate length⟩).1 f' ∧
      disk.Moves mark s.mac (s.fd_table i).refNum g f' (s.perform ⟨i, .ftruncate length⟩).2.mac := by
  obtain ⟨err, st', hset, ⟨hfailed, hmoves⟩ | ⟨hok, hlen, pad, hpad, hmoves⟩⟩ := hsound.resize _ _ _ _ length hplaced
  · obtain ⟨hresult, hmac⟩ := ftruncate_answers hi hset
    rw [if_neg hfailed] at hresult
    refine ⟨f, .inl ⟨?_, rfl⟩, ?_⟩
    · simp only [perform, hresult]
    · simp only [perform, hmac]
      exact hmoves
  · obtain ⟨hresult, hmac⟩ := ftruncate_answers hi hset
    rw [if_pos hok] at hresult
    refine ⟨f.resize length.toNat pad, .inr ⟨hlen, ?_, pad, hpad, rfl⟩, ?_⟩
    · simp only [perform, hresult]
    · simp only [perform, hmac]
      exact hmoves

/-- What a call on a descriptor returns, and what it does to the file. -/
theorem perform_does (hsound : disk.Sound mark) (hi : s.Holds i)
    (hplaced : disk.Placed mark s.mac (s.fd_table i).refNum g f) (op : IoOp) :
    ∃ f', op.Does (has (s.fd_table i).flags O_APPEND) f (s.perform ⟨i, op⟩).1 f' ∧
      disk.Moves mark s.mac (s.fd_table i).refNum g f' (s.perform ⟨i, op⟩).2.mac := by
  cases op with
  | read count => exact read_does hsound hi hplaced count
  | write buf => exact write_does hsound hi hplaced buf
  | lseek offset whence => exact lseek_does hsound hi hplaced offset whence
  | ftruncate length => exact ftruncate_does hsound hi hplaced length

theorem perform_kept (s : FileState fm) (c : IoCall) : SameTable s (s.perform c).2 := by
  rcases c with ⟨i, op⟩
  cases op with
  | read count =>
    simp only [perform]
    exact read_kept s i count
  | write buf =>
    simp only [perform]
    exact write_kept s i buf
  | lseek offset whence =>
    simp only [perform]
    exact lseek_kept s i offset whence
  | ftruncate length =>
    simp only [perform]
    exact ftruncate_kept s i length

/-! ### Every run -/

/-- Behind each access path that a descriptor holds there is a file of its own, as `T` has it. Descriptors that are
    copies of each other share an access path, and so the file with its mark. -/
structure Backed (disk : fm.Disk) (mark : fm.State → RefNum → ℕ) (s : FileState fm) (place : RefNum → disk.File)
    (T : RefNum → ByteFile) : Prop where
  placed : ∀ i, s.Holds i →
    disk.Placed mark s.mac (s.fd_table i).refNum (place (s.fd_table i).refNum) (T (s.fd_table i).refNum)
  apart : ∀ i j, s.Holds i → s.Holds j → (s.fd_table i).refNum ≠ (s.fd_table j).refNum →
    place (s.fd_table i).refNum ≠ place (s.fd_table j).refNum

/-- Calls on descriptors that are open and have another access path than `r`. -/
def Others (s : FileState fm) (r : RefNum) (calls : List IoCall) : Prop :=
  ∀ c ∈ calls, s.Holds c.fd ∧ (s.fd_table c.fd).refNum ≠ r

/-- A descriptor that holds the access path `r`. -/
def Has (s : FileState fm) (i : Fd) (r : RefNum) : Prop := s.Holds i ∧ (s.fd_table i).refNum = r

theorem SameTable.holds (h : SameTable s t) (hi : s.Holds i) : t.Holds i := by
  rw [Holds, h.table]
  exact hi

theorem SameTable.has {r : RefNum} (h : SameTable s t) (hi : s.Has i r) : t.Has i r :=
  ⟨h.holds hi.1, by rw [h.table, hi.2]⟩

theorem SameTable.others {r : RefNum} {calls : List IoCall} (h : SameTable s t) (hcalls : s.Others r calls) :
    t.Others r calls := by
  intro c hc
  obtain ⟨hholds, hne⟩ := hcalls c hc
  refine ⟨h.holds hholds, ?_⟩
  rw [h.table]
  exact hne

theorem Backed.step (hsound : disk.Sound mark) {place : RefNum → disk.File} {T : RefNum → ByteFile}
    (h : Backed disk mark s place T) {c : IoCall} (hc : s.Holds c.fd) :
    ∃ f, c.op.Does (has (s.fd_table c.fd).flags O_APPEND) (T (s.fd_table c.fd).refNum) (s.perform c).1 f ∧
      Backed disk mark (s.perform c).2 place (Function.update T (s.fd_table c.fd).refNum f) := by
  obtain ⟨f, hdoes, hmoves⟩ := perform_does hsound hc (h.placed c.fd hc) c.op
  have hkept := perform_kept s c
  have hholds : ∀ j, (s.perform c).2.Holds j → s.Holds j := fun j hj => by rwa [Holds, ← hkept.table]
  refine ⟨f, hdoes, fun j hj => ?_, fun j k hj hk hne => ?_⟩
  · have hj := hholds j hj
    rw [hkept.table]
    rcases eq_or_ne (s.fd_table j).refNum (s.fd_table c.fd).refNum with hsame | hne
    · rw [hsame, Function.update_self]
      exact hmoves.placed
    · rw [Function.update_of_ne hne]
      exact hmoves.others _ _ _ hne (h.apart j c.fd hj hc hne) (h.placed j hj)
  · rw [hkept.table] at hne ⊢
    exact h.apart j k (hholds j hj) (hholds k hk) hne

/-- In every run of read, write, lseek and ftruncate on open descriptors, each call returns and does what it should on
    the file behind its access path, and that file is changed by no call on another one. -/
theorem io_refines (hsound : disk.Sound mark) {place : RefNum → disk.File} {T : RefNum → ByteFile}
    (h : Backed disk mark s place T) (calls : List IoCall) (hcalls : ∀ c ∈ calls, s.Holds c.fd) :
    ∃ T', IoRun (fun i => (s.fd_table i).refNum) (fun i => has (s.fd_table i).flags O_APPEND) T
      (s.performAll calls).1 T' ∧ Backed disk mark (s.performAll calls).2 place T' := by
  induction calls generalizing s T with
  | nil => exact ⟨T, .nil, h⟩
  | cons c calls ih =>
    obtain ⟨f, hdoes, hbacked⟩ := h.step hsound (hcalls c List.mem_cons_self)
    have hkept := perform_kept s c
    have hrest : ∀ d ∈ calls, (s.perform c).2.Holds d.fd := fun d hd =>
      hkept.holds (hcalls d (List.mem_cons_of_mem c hd))
    obtain ⟨T', hrun, hbacked'⟩ := ih hbacked hrest
    rw [hkept.table] at hrun
    exact ⟨T', .cons hdoes hrun, hbacked'⟩

/-- Calls on other access paths leave the file behind an access path as it is. -/
theorem Backed.frame (hsound : disk.Sound mark) {place : RefNum → disk.File} {T : RefNum → ByteFile} {r : RefNum}
    (h : Backed disk mark s place T) (calls : List IoCall) (hcalls : s.Others r calls) :
    ∃ T', T' r = T r ∧ Backed disk mark (s.performAll calls).2 place T' := by
  induction calls generalizing s T with
  | nil => exact ⟨T, rfl, h⟩
  | cons c calls ih =>
    obtain ⟨hc, hne⟩ := hcalls c List.mem_cons_self
    obtain ⟨f, -, hbacked⟩ := h.step hsound hc
    have hrest : s.Others r calls := fun d hd => hcalls d (List.mem_cons_of_mem c hd)
    obtain ⟨T', hsame, hbacked'⟩ := ih hbacked ((perform_kept s c).others hrest)
    rw [Function.update_of_ne hne.symm] at hsame
    exact ⟨T', hsame, hbacked'⟩

theorem performAll_kept (s : FileState fm) (calls : List IoCall) : SameTable s (s.performAll calls).2 := by
  induction calls generalizing s with
  | nil => exact ⟨rfl, rfl⟩
  | cons c calls ih => exact (perform_kept s c).trans (ih _)

/-! ### Writing, going back and reading -/

variable {place : RefNum → disk.File} {T : RefNum → ByteFile} {r : RefNum} {buf : List UInt8}

theorem mark_le_write (f : ByteFile) (buf : List UInt8) : f.mark ≤ (f.write buf).size :=
  Nat.le_trans (Nat.le_add_right f.mark buf.length) (f.write buf).mark_le

/-- The file of a descriptor that has written `buf` and gone back over it. -/
def rewound (f : ByteFile) (buf : List UInt8) : ByteFile := (f.write buf).goto f.mark (mark_le_write f buf)

theorem seekTo_back (f : ByteFile) (buf : List UInt8) :
    seekTo (f.write buf) .fsFromMark (-buf.length) = (noErr, rewound f buf) := by
  have htarget : seekTarget (f.write buf) .fsFromMark (-buf.length) = f.mark := by
    change ((f.mark + buf.length : ℕ) : ℤ) + -buf.length = f.mark
    omega
  have hle := mark_le_write f buf
  rw [seekTo, htarget, if_neg (by omega), if_neg (by omega), Int.toNat_natCast, rewound]
  simp only [ByteFile.toward, Nat.min_eq_left hle]

theorem Backed.write (hsound : disk.Sound mark) (h : Backed disk mark s place T) (hi : s.Has i r)
    (hwritten : (s.write i buf).1 = buf.length) :
    ∃ (f : ByteFile) (T' : RefNum → ByteFile), T' r = f.write buf ∧ Backed disk mark (s.write i buf).2 place T' := by
  obtain ⟨hi, rfl⟩ := hi
  obtain ⟨f', ⟨n, -, hf', hresult⟩, hbacked⟩ := h.step (c := ⟨i, .write buf⟩) hsound hi
  simp only [perform] at hresult hbacked
  have hall : n = buf.length := by
    rcases hresult with hfailed | ⟨hall, -⟩
    · have := congrArg Prod.fst hfailed
      dsimp only at this
      omega
    · exact hall
  rw [hall, List.take_length] at hf'
  exact ⟨_, _, (Function.update_self ..).trans hf', hbacked⟩

theorem Backed.back (hsound : disk.Sound mark) (h : Backed disk mark s place T) (hi : s.Has i r)
    (hfile : T r = f.write buf) :
    ∃ T', T' r = rewound f buf ∧ Backed disk mark (s.lseek i (-buf.length) 1).2 place T' := by
  obtain ⟨hi, rfl⟩ := hi
  obtain ⟨f', hdoes, hbacked⟩ := h.step (c := ⟨i, .lseek (-buf.length) 1⟩) hsound hi
  simp only [perform] at hbacked
  have hmode : posMode 1 = some .fsFromMark := rfl
  simp only [IoOp.Does, hmode, hfile, seekTo_back] at hdoes
  exact ⟨_, (Function.update_self ..).trans hdoes.2, hbacked⟩

theorem Backed.read (hsound : disk.Sound mark) (h : Backed disk mark s place T) (hi : s.Has i r)
    (hfile : T r = rewound f buf) :
    (s.read i buf.length).1 = ((buf.length : ℤ), buf) ∨ (s.read i buf.length).1.1 = -1 := by
  obtain ⟨hi, rfl⟩ := hi
  obtain ⟨f', ⟨n, -, -, hresult⟩, -⟩ := h.step (c := ⟨i, .read buf.length⟩) hsound hi
  simp only [perform, hfile] at hresult
  rcases hresult with hfailed | ⟨hall, hresult⟩
  · right
    rw [hfailed]
  · have hnext : (rewound f buf).next n = buf := by
      rw [hall, rewound]
      exact ByteFile.next_write rfl _
    left
    rw [hresult, hnext]

/-- What write has taken is what read gives once lseek has gone back over it, whatever is done on other access paths
    in between. -/
theorem write_read_back (hsound : disk.Sound mark) (h : Backed disk mark s place T) (hi : s.Has i r)
    (buf : List UInt8) (before after : List IoCall) (hbefore : s.Others r before) (hafter : s.Others r after)
    (hwritten : (s.write i buf).1 = buf.length) :
    let there := ((s.write i buf).2.performAll before).2
    let back := ((there.lseek i (-buf.length) 1).2.performAll after).2
    (back.read i buf.length).1 = ((buf.length : ℤ), buf) ∨ (back.read i buf.length).1.1 = -1 := by
  intro there back
  have hkept₁ : SameTable s (s.write i buf).2 := write_kept s i buf
  have hkept₂ : SameTable s there := hkept₁.trans (performAll_kept _ before)
  have hkept₃ : SameTable s (there.lseek i (-buf.length) 1).2 := hkept₂.trans (lseek_kept there i _ _)
  have hkept₄ : SameTable s back := hkept₃.trans (performAll_kept _ after)
  obtain ⟨f, T₁, hfile₁, hbacked₁⟩ := h.write hsound hi hwritten
  obtain ⟨T₂, hfile₂, hbacked₂⟩ := hbacked₁.frame hsound before (hkept₁.others hbefore)
  obtain ⟨T₃, hfile₃, hbacked₃⟩ := hbacked₂.back hsound (hkept₂.has hi) (hfile₂.trans hfile₁)
  obtain ⟨T₄, hfile₄, hbacked₄⟩ := hbacked₃.frame hsound after (hkept₃.others hafter)
  exact hbacked₄.read hsound (hkept₄.has hi) (hfile₄.trans hfile₃)

end FileState

/-! ### Files in memory -/

namespace RamDisk

variable {st : RamDisk} {r r' : RefNum} {spec : FSSpec} {f f' : ByteFile}

/-- SetEOF with the mark brought back to the end of the file. -/
def trimEOF (r : RefNum) (len : ℤ) (st : RamDisk) : OSErr × RamDisk :=
  match st.lookup r with
  | none => (rfNumErr, st)
  | some (spec, mark, bytes) =>
    if len < 0 then (paramErr, st)
    else
      let bytes := bytes.take len.toNat ++ List.replicate (len.toNat - bytes.length) 0
      (noErr, (st.setFile spec bytes).setMark r spec (min mark bytes.length))

def markOf (st : RamDisk) (r : RefNum) : ℕ := ((st.paths r).map Prod.snd).getD 0

end RamDisk

def trimDisk : FileManager := { ramDisk with SetEOF := RamDisk.trimEOF }

def trimFiles : trimDisk.Disk where
  File := FSSpec
  file := id
  contents := RamDisk.files
  leadsTo st r := (st.paths r).map Prod.fst

namespace RamDisk

variable {st : RamDisk} {r : RefNum} {spec : FSSpec} {f f' : ByteFile}

theorem lookup_of_placed (h : trimFiles.Placed markOf st r spec f) : st.lookup r = some (spec, f.mark, f.contents) := by
  obtain ⟨hleads, hcontents, hmark⟩ := h
  change (st.paths r).map Prod.fst = some spec at hleads
  change st.files spec = some f.contents at hcontents
  obtain ⟨⟨q, mark⟩, hpath, rfl⟩ := Option.map_eq_some_iff.mp hleads
  have hmark : mark = f.mark := by simpa [markOf, hpath] using hmark
  subst hmark
  rw [lookup, hpath]
  dsimp only
  rw [hcontents]
  rfl

/-- A file that is given other contents and the access path to it another mark. -/
theorem moves_update (files : FSSpec → Option (List UInt8)) (hfile : files spec = some f'.contents)
    (hother : ∀ q, q ≠ spec → files q = st.files q) :
    trimFiles.Moves markOf st r spec f' ({ st with files := files }.setMark r spec f'.mark) where
  placed :=
    { leadsTo := by simp [trimFiles, setMark]
      contents := hfile
      mark := by simp [markOf, setMark] }
  others r' q g hr hq hplaced :=
    { leadsTo := by
        have := hplaced.leadsTo
        simpa [trimFiles, setMark, hr] using this
      contents := (hother q hq).trans hplaced.contents
      mark := by
        have := hplaced.mark
        simpa [markOf, setMark, hr] using this }

theorem moves_setMark (h : trimFiles.Placed markOf st r spec f) (hsame : f'.contents = f.contents) :
    trimFiles.Moves markOf st r spec f' (st.setMark r spec f'.mark) :=
  moves_update st.files (h.contents.trans (congrArg some hsame.symm)) fun _ _ => rfl

theorem moves_setFile (f' : ByteFile) :
    trimFiles.Moves markOf st r spec f' ((st.setFile spec f'.contents).setMark r spec f'.mark) :=
  moves_update (Function.update st.files spec (some f'.contents)) (Function.update_self ..) fun _ hq =>
    Function.update_of_ne hq _ _

theorem read_placed (h : trimFiles.Placed markOf st r spec f) (count : ℕ) :
    read r count st = ((if (f.next count).length < count then eofErr else noErr, f.next count),
      st.setMark r spec (f.skip count).mark) := by
  rw [read, lookup_of_placed h]
  rfl

theorem write_placed (h : trimFiles.Placed markOf st r spec f) (buf : List UInt8) :
    write r buf st = ((noErr, buf.length),
      (st.setFile spec (f.write buf).contents).setMark r spec (f.write buf).mark) := by
  rw [write, lookup_of_placed h]
  rfl

theorem setPos_placed (h : trimFiles.Placed markOf st r spec f) (mode : PosMode) (off : ℤ) :
    ∃ st', setPos r mode off st = ((seekTo f mode off).1, st') ∧
      trimFiles.Moves markOf st r spec (seekTo f mode off).2 st' := by
  have htarget : target mode off f.mark f.contents.length = seekTarget f mode off := by
    cases mode <;> rfl
  have hmark : (f.toward (seekTarget f mode off).toNat).mark = min (seekTarget f mode off).toNat f.size := rfl
  have hmoves : trimFiles.Moves markOf st r spec (f.toward (seekTarget f mode off).toNat)
      (st.setMark r spec (f.toward (seekTarget f mode off).toNat).mark) := moves_setMark h rfl
  have hsize : f.contents.length = f.size := rfl
  rw [setPos, lookup_of_placed h, seekTo]
  dsimp only
  rw [htarget, hsize]
  split
  · exact ⟨st, rfl, .refl h⟩
  refine ⟨_, ?_, hmoves⟩
  split
  · rw [hmark, Nat.min_eq_right (by omega)]
  · rw [hmark, Nat.min_eq_left (by omega)]

theorem trimEOF_placed (h : trimFiles.Placed markOf st r spec f) (len : ℤ) :
    ∃ err st', trimEOF r len st = (err, st') ∧
      (err ≠ noErr ∧ trimFiles.Moves markOf st r spec f st' ∨
        err = noErr ∧ 0 ≤ len ∧ ∃ pad : List UInt8, (pad.length : ℤ) = max 0 (len - f.size) ∧
          trimFiles.Moves markOf st r spec (f.resize len.toNat pad) st') := by
  rw [trimEOF, lookup_of_placed h]
  dsimp only
  split
  · exact ⟨paramErr, st, rfl, .inl ⟨by decide, .refl h⟩⟩
  · rename_i hlen
    refine ⟨noErr, _, rfl, .inr ⟨rfl, Int.not_lt.mp hlen, List.replicate (len.toNat - f.contents.length) 0, ?_, ?_⟩⟩
    · rw [List.length_replicate, ByteFile.size]
      omega
    · exact moves_setFile (f.resize len.toNat _)

end RamDisk

theorem trimFiles_sound : trimFiles.Sound RamDisk.markOf where
  read st r spec f count h :=
    ⟨_, count, _, RamDisk.read_placed h count, Nat.le_refl _, fun _ => rfl, RamDisk.moves_setMark h rfl⟩
  write st r spec f buf h := by
    refine ⟨noErr, buf.length, _, RamDisk.write_placed h buf, Nat.le_refl _, fun _ => rfl, ?_⟩
    rw [List.take_length]
    exact RamDisk.moves_setFile _
  seek st r spec f mode off h := RamDisk.setPos_placed h mode off
  tell st r spec f h := by
    have hlookup := RamDisk.lookup_of_placed h
    simp only [trimDisk, ramDisk, hlookup]
  resize st r spec f len h := RamDisk.trimEOF_placed h len

/-- Two files that are open, the second on two descriptors. -/
def twoFiles : FileState trimDisk where
  fd_table i :=
    if i.val = 3 then ⟨1, -1, 2, 0, true, false, []⟩
    else if i.val = 4 ∨ i.val = 5 then ⟨2, -1, 2, O_RDWR ||| O_APPEND, true, false, []⟩
    else ⟨0, 0, 0, 0, false, false, []⟩
  fd_table_initialized := true
  posix9_errno := 0
  socket_inUse _ := false
  mac :=
    { files := fun _ => some []
      paths := fun r => some (⟨-1, r, basicPPath []⟩, 0)
      next := 3 }
  ledger := Ledger.empty

def firstFile : Fd := ⟨3, by decide⟩
def secondFile : Fd := ⟨4, by decide⟩
def copy : Fd := ⟨5, by decide⟩

theorem twoFiles_backed : FileState.Backed trimFiles RamDisk.markOf twoFiles (fun r => ⟨-1, r, basicPPath []⟩)
    fun _ => ⟨[], 0, Nat.le_refl _⟩ where
  placed _ _ := ⟨rfl, rfl, rfl⟩
  apart _ _ _ _ hne heq := hne (congrArg FSSpec.parID heq)

/-- What one copy of a descriptor has written the other reads once it has gone back. -/
theorem io_refines_twoFiles : ∃ T',
    IoRun (fun i => (twoFiles.fd_table i).refNum) (fun i => has (twoFiles.fd_table i).flags O_APPEND)
      (fun _ => ⟨[], 0, Nat.le_refl _⟩)
      [(⟨secondFile, .write [7]⟩, (1, [])), (⟨firstFile, .ftruncate 5⟩, (0, [])), (⟨copy, .lseek 0 0⟩, (0, [])),
        (⟨copy, .read 9⟩, (1, [7]))] T' := by
  obtain ⟨T', hrun, -⟩ := FileState.io_refines trimFiles_sound twoFiles_backed
    [⟨secondFile, .write [7]⟩, ⟨firstFile, .ftruncate 5⟩, ⟨copy, .lseek 0 0⟩, ⟨copy, .read 9⟩]
    (by
      intro c hc
      simp only [List.mem_cons, List.not_mem_nil, or_false] at hc
      rcases hc with rfl | rfl | rfl | rfl <;> exact ⟨rfl, rfl⟩)
  exact ⟨T', hrun⟩

theorem others_twoFiles (i : Fd) (op : IoOp) (hi : twoFiles.Has i 2) : twoFiles.Others 1 [⟨i, op⟩] := by
  intro c hc
  obtain rfl := List.mem_singleton.mp hc
  refine ⟨hi.1, ?_⟩
  dsimp only
  rw [hi.2]
  decide

theorem write_read_back_twoFiles :
    let there := ((twoFiles.write firstFile [7, 8]).2.performAll [⟨secondFile, .write [9]⟩]).2
    let back := ((there.lseek firstFile (-([7, 8] : List UInt8).length) 1).2.performAll [⟨secondFile, .lseek 0 0⟩]).2
    (back.read firstFile ([7, 8] : List UInt8).length).1 = ((([7, 8] : List UInt8).length : ℤ), [7, 8]) ∨
      (back.read firstFile ([7, 8] : List UInt8).length).1.1 = -1 :=
  FileState.write_read_back trimFiles_sound twoFiles_backed ⟨⟨rfl, rfl⟩, rfl⟩ [7, 8] [⟨secondFile, .write [9]⟩]
    [⟨secondFile, .lseek 0 0⟩] (others_twoFiles secondFile _ ⟨⟨rfl, rfl⟩, rfl⟩)
    (others_twoFiles secondFile _ ⟨⟨rfl, rfl⟩, rfl⟩) (by decide)

end Posix9
