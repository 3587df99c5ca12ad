import Posix9.Directory
import Posix9.Lib.Runs
import Mathlib.Data.List.Nodup

/-! What successive readdir calls return. A stream keeps the index of its next entry in a short: the entries
    of a directory are all returned, each once and in order, unless there are 32767 of them or more. -/

namespace Posix9

variable {fm : FileManager}

/-- A call on the pool of streams, or anything else that is done to the disks. -/
inductive DirCall (fm : FileManager) where
  | opendir (name : CStr)
  | readdir (dirp : Option DirIdx) (name : Str255)
  | closedir (dirp : Option DirIdx)
  | rewinddir (dirp : Option DirIdx)
  | elsewhere (mac : fm.State)

/-- The call neither closes nor rewinds the stream. -/
def DirCall.keeps (d : DirIdx) : DirCall fm → Prop
  | .closedir dirp | .rewinddir dirp => dirp ≠ some d
  | _ => True

/-- The entries of a directory, as PBGetCatInfoSync describes them by their indices, and the directory
    itself. -/
structure FileManager.Catalog.Lists (cat : fm.Catalog) (vRefNum dirID : ℤ) (entries : List CatRec)
    (own : CatRec) (mac : fm.State) : Prop where
  entry : ∀ name (i : BitVec 16) (k : ℕ) (hk : k < entries.length), i.toInt = k + 1 →
    cat.catInfo vRefNum dirID name i mac = (noErr, entries[k])
  beyond : ∀ name (i : BitVec 16), (entries.length : ℤ) < i.toInt →
    (cat.catInfo vRefNum dirID name i mac).1 = fnfErr
  itself : ∀ name (i : BitVec 16), i.toInt < 0 → cat.catInfo vRefNum dirID name i mac = (noErr, own)
  names : (entries.map CatRec.ioNamePtr).Nodup

namespace DirState

open Runs

section

variable (cat : fm.Catalog) (default_volume : VolumeName)

def step (s : DirState fm) : DirCall fm → DirState fm
  | .opendir name => (s.opendir cat default_volume name).2
  | .readdir dirp name => (s.readdir cat dirp name).2
  | .closedir dirp => (s.closedir dirp).2
  | .rewinddir dirp => s.rewinddir dirp
  | .elsewhere mac => s.setMac mac

/-- The call opens the stream, or rewinds it. -/
def Begins (s : DirState fm) (d : DirIdx) : DirCall fm → Prop
  | .opendir name => (s.opendir cat default_volume name).1 = some d
  | .rewinddir dirp => dirp = some d ∧ (s.dir_pool d).inUse = true
  | _ => False

/-- A stream in use, on a directory. -/
def OnDirectory (s : DirState fm) (d : DirIdx) (vRefNum dirID : ℤ) : Prop :=
  (s.dir_pool d).inUse = true ∧ (s.dir_pool d).vRefNum = vRefNum ∧ (s.dir_pool d).dirID = dirID

/-- What the readdir calls on a stream return, in order. -/
def results (d : DirIdx) : DirState fm → List (DirCall fm) → List (Option Dirent)
  | _, [] => []
  | s, c :: cs =>
    match c with
    | .readdir dirp name =>
      if dirp = some d then (s.readdir cat dirp name).1 :: results d (s.step cat default_volume c) cs
      else results d (s.step cat default_volume c) cs
    | c => results d (s.step cat default_volume c) cs

/-- In every run, once a stream on the directory has been opened or rewound, and as long as it is not closed or
    rewound and the directory does not change, the readdir calls on it return the entries, each once and in
    order, and NULL behind them. -/
def Enumerates (vRefNum dirID : ℤ) (entries : List CatRec) (own : CatRec) : Prop :=
  ∀ (mac : fm.State) (before : List (DirCall fm)) (c : DirCall fm) (d : DirIdx) (after : List (DirCall fm)),
    let s := run (step cat default_volume) (start mac) before
    s.Begins cat default_volume d c → (s.step cat default_volume c).OnDirectory d vRefNum dirID →
    cat.Lists vRefNum dirID entries own (s.step cat default_volume c).mac →
    (∀ mac, .elsewhere mac ∈ after → cat.Lists vRefNum dirID entries own mac) → (∀ c ∈ after, c.keeps d) →
    ∀ (k : ℕ) (r : Option Dirent), (results cat default_volume d (s.step cat default_volume c) after)[k]? = some r →
      r = (entries.map direntOf)[k]?

end

variable {cat : fm.Catalog} {default_volume : VolumeName} {s : DirState fm} {d e : DirIdx} {c : DirCall fm}
  {vRefNum dirID : ℤ} {entries : List CatRec} {own : CatRec} {name : Str255} {n p k : ℕ}

/-! ### The pool -/

/-- No stream is in use before the pool has been initialized. -/
def Ready (s : DirState fm) : Prop := s.dir_pool_initialized = false → ∀ d, (s.dir_pool d).inUse = false

theorem initFor_mac (path : CStr) : (s.initFor cat default_volume path).mac = s.mac :=
  (CwdState.initFor_spec cat.toInfo default_volume s.cwd path).1

theorem init_dir_pool_spec (hs : s.Ready) : s.init_dir_pool.dir_pool = s.dir_pool ∧
    s.init_dir_pool.dir_pool_initialized = true ∧ s.init_dir_pool.mac = s.mac := by
  rw [init_dir_pool]
  split
  · exact ⟨rfl, ‹_›, rfl⟩
  · rename_i hinit
    refine ⟨funext fun d => ?_, rfl, rfl⟩
    have hfree := hs (by simpa using hinit) d
    change { s.dir_pool d with inUse := false } = s.dir_pool d
    rw [← hfree]

/-- alloc_dir finds a stream that is not in use, or leaves the pool alone. -/
theorem alloc_dir_cases (hs : s.Ready) : s.alloc_dir.2.mac = s.mac ∧ s.alloc_dir.2.dir_pool_initialized = true ∧
    ((s.alloc_dir.1 = none ∧ s.alloc_dir.2.dir_pool = s.dir_pool) ∨
      ∃ d, s.alloc_dir.1 = some d ∧ (s.dir_pool d).inUse = false ∧ (s.alloc_dir.2.dir_pool d).inUse = true ∧
        ∀ e, e ≠ d → s.alloc_dir.2.dir_pool e = s.dir_pool e) := by
  obtain ⟨hpool, hinit, hmac⟩ := init_dir_pool_spec hs
  rw [alloc_dir]
  dsimp only
  split
  · rename_i d hfind
    have hfree := List.find?_some hfind
    rw [hpool] at hfree ⊢
    refine ⟨hmac, hinit, .inr ⟨d, rfl, by simpa using hfree, ?_, fun e he => ?_⟩⟩
    · rw [setStream_self]
    · rw [setStream_of_ne _ _ he, hpool]
  · exact ⟨hmac, hinit, .inl ⟨rfl, hpool⟩⟩

/-- opendir sets up a stream that was not in use, or leaves the pool alone. -/
theorem opendir_cases (cat : fm.Catalog) (default_volume : VolumeName) (hs : s.Ready) (path : CStr) :
    (s.opendir cat default_volume path).2.mac = s.mac ∧
    (((s.opendir cat default_volume path).1 = none ∧ (s.opendir cat default_volume path).2.Ready ∧
        (s.opendir cat default_volume path).2.dir_pool = s.dir_pool) ∨
      ∃ d, (s.opendir cat default_volume path).1 = some d ∧ (s.dir_pool d).inUse = false ∧
        (s.opendir cat default_volume path).2.dir_pool_initialized = true ∧
        ((s.opendir cat default_volume path).2.dir_pool d).inUse = true ∧
        ((s.opendir cat default_volume path).2.dir_pool d).index = 1 ∧
        ∀ e, e ≠ d → (s.opendir cat default_volume path).2.dir_pool e = s.dir_pool e) := by
  have hready : (s.initFor cat default_volume path).Ready := hs
  have hmac : (s.initFor cat default_volume path).mac = s.mac := initFor_mac path
  have hpool : (s.initFor cat default_volume path).dir_pool = s.dir_pool := rfl
  rw [opendir]
  generalize s.initFor cat default_volume path = t at hready hmac hpool
  dsimp only
  rw [← hmac, ← hpool]
  split
  · exact ⟨rfl, .inl ⟨rfl, hready, rfl⟩⟩
  split
  · exact ⟨rfl, .inl ⟨rfl, hready, rfl⟩⟩
  split
  · exact ⟨rfl, .inl ⟨rfl, hready, rfl⟩⟩
  obtain ⟨hmac', hinit, halloc⟩ := alloc_dir_cases hready
  split
  · rename_i t' heq
    rw [heq] at hmac' hinit halloc
    rcases halloc with ⟨-, hsame⟩ | ⟨d, hsome, -⟩
    · exact ⟨hmac', .inl ⟨rfl, fun h => absurd (hinit.symm.trans h) (by decide), hsame⟩⟩
    · cases hsome
  · rename_i d t' heq
    rw [heq] at hmac' hinit halloc
    rcases halloc with ⟨hnone, -⟩ | ⟨d', hsome, hfree, huse, hframe⟩
    · cases hnone
    · obtain rfl := Option.some.inj hsome
      refine ⟨hmac', .inr ⟨d, rfl, hfree, hinit, ?_, ?_, fun e he => ?_⟩⟩
      · rw [setStream_self]
        exact huse
      · rw [setStream_self]
      · exact (setStream_of_ne _ _ he).trans (hframe e he)

/-- What a call on a stream changes: of the streams in use that one only, and nothing of the disks. -/
structure Touches (s t : DirState fm) (dirp : Option DirIdx) : Prop where
  mac : t.mac = s.mac
  initialized : t.dir_pool_initialized = s.dir_pool_initialized
  pool : t.dir_pool = s.dir_pool ∨
    ∃ d dir, dirp = some d ∧ (s.dir_pool d).inUse = true ∧ t.dir_pool = Function.update s.dir_pool d dir

variable {t : DirState fm} {dirp : Option DirIdx}

theorem Touches.same (s : DirState fm) (e : ℤ) : Touches s (s.setErrno e) dirp := ⟨rfl, rfl, .inl rfl⟩

theorem Touches.refl (s : DirState fm) : Touches s s dirp := ⟨rfl, rfl, .inl rfl⟩

theorem Touches.setStream (dir : DirStream) (huse : (s.dir_pool d).inUse = true) :
    Touches s (s.setStream d dir) (some d) :=
  ⟨rfl, rfl, .inr ⟨d, dir, rfl, huse, rfl⟩⟩

theorem Touches.ready (h : Touches s t dirp) (hs : s.Ready) : t.Ready := by
  intro hinit e
  rw [h.initialized] at hinit
  rcases h.pool with hpool | ⟨d, dir, -, huse, -⟩
  · rw [hpool]
    exact hs hinit e
  · rw [hs hinit d] at huse
    cases huse

theorem Touches.stream (h : Touches s t dirp) (hne : dirp ≠ some d) : t.dir_pool d = s.dir_pool d := by
  rcases h.pool with hpool | ⟨e, dir, rfl, -, hpool⟩
  · rw [hpool]
  · rw [hpool]
    exact Function.update_of_ne (fun heq => hne (congrArg some heq.symm)) _ _

theorem readdir_touches (cat : fm.Catalog) (s : DirState fm) (dirp : Option DirIdx) (name : Str255) :
    Touches s (s.readdir cat dirp name).2 dirp := by
  rw [readdir.eq_def]
  split
  · exact Touches.same s EBADF
  split
  · rename_i d huse
    rw [readEntry]
    dsimp only
    split
    · exact Touches.refl s
    split
    · exact Touches.same s _
    · exact Touches.setStream _ huse
  · exact Touches.same s EBADF

theorem closedir_touches (s : DirState fm) (dirp : Option DirIdx) : Touches s (s.closedir dirp).2 dirp := by
  rw [closedir.eq_def]
  split
  · exact Touches.same s EBADF
  split
  · exact Touches.setStream _ ‹_›
  · exact Touches.same s EBADF

theorem rewinddir_touches (s : DirState fm) (dirp : Option DirIdx) : Touches s (s.rewinddir dirp) dirp := by
  rw [rewinddir.eq_def]
  split
  · exact Touches.refl s
  split
  · exact Touches.setStream _ ‹_›
  · exact Touches.refl s

/-! ### Steps -/

theorem Ready.step (hs : s.Ready) (c : DirCall fm) : (s.step cat default_volume c).Ready := by
  cases c with
  | opendir path =>
    rcases (opendir_cases cat default_volume hs path).2 with ⟨-, h, -⟩ | ⟨d, -, -, hinit, -⟩
    · exact h
    · exact fun h => absurd (hinit.symm.trans h) (by decide)
  | readdir dirp name => exact (readdir_touches cat s dirp name).ready hs
  | closedir dirp => exact (closedir_touches s dirp).ready hs
  | rewinddir dirp => exact (rewinddir_touches s dirp).ready hs
  | elsewhere mac => exact hs

theorem step_mac (hs : s.Ready) (hc : ∀ mac, c ≠ .elsewhere mac) :
    (s.step cat default_volume c).mac = s.mac := by
  cases c with
  | opendir path => exact (opendir_cases cat default_volume hs path).1
  | readdir dirp name => exact (readdir_touches cat s dirp name).mac
  | closedir dirp => exact (closedir_touches s dirp).mac
  | rewinddir dirp => exact (rewinddir_touches s dirp).mac
  | elsewhere mac => exact absurd rfl (hc mac)

/-- A stream in use is left alone by every call that is not made on it. -/
theorem step_stream (hs : s.Ready) (huse : (s.dir_pool d).inUse = true) (hkeeps : c.keeps d)
    (hread : ∀ name, c ≠ .readdir (some d) name) :
    (s.step cat default_volume c).dir_pool d = s.dir_pool d := by
  cases c with
  | opendir path =>
    rcases (opendir_cases cat default_volume hs path).2 with ⟨-, -, hsame⟩ | ⟨e, -, hfree, -, -, -, hframe⟩
    · exact congrFun hsame d
    · refine hframe d ?_
      rintro rfl
      rw [huse] at hfree
      cases hfree
  | readdir dirp name =>
    refine (readdir_touches cat s dirp name).stream ?_
    rintro rfl
    exact hread name rfl
  | closedir dirp => exact (closedir_touches s dirp).stream hkeeps
  | rewinddir dirp => exact (rewinddir_touches s dirp).stream hkeeps
  | elsewhere mac => rfl

/-! ### Where a stream stands -/

/-- The stream is in use on the directory, and its index is that of the entry behind `p` others. -/
structure At (s : DirState fm) (d : DirIdx) (vRefNum dirID : ℤ) (p : ℕ) : Prop where
  on : s.OnDirectory d vRefNum dirID
  index : (s.dir_pool d).index = BitVec.ofNat 16 (p + 1)

theorem At.of_eq (h : s.At d vRefNum dirID p) {t : DirState fm} (heq : t.dir_pool d = s.dir_pool d) :
    t.At d vRefNum dirID p := by
  refine ⟨?_, ?_⟩
  · rw [OnDirectory, heq]
    exact h.on
  · rw [heq]
    exact h.index

/-- What has begun a stream leaves it before the first entry. -/
theorem Begins.at (hs : s.Ready) (h : s.Begins cat default_volume d c)
    (hon : (s.step cat default_volume c).OnDirectory d vRefNum dirID) :
    (s.step cat default_volume c).At d vRefNum dirID 0 := by
  refine ⟨hon, ?_⟩
  cases c with
  | opendir path =>
    rcases (opendir_cases cat default_volume hs path).2 with ⟨hnone, -⟩ | ⟨e, hsome, -, -, -, hindex, -⟩
    · rw [h] at hnone
      cases hnone
    · obtain rfl : d = e := Option.some.inj (h.symm.trans hsome)
      exact hindex
  | rewinddir dirp =>
    obtain ⟨rfl, huse⟩ := h
    rw [step, rewinddir, if_pos huse, setStream_self]
    rfl
  | readdir dirp name => exact h.elim
  | closedir dirp => exact h.elim
  | elsewhere mac => exact h.elim

theorem readdir_eq (h : s.At d vRefNum dirID p) (name : Str255) :
    s.readdir cat (some d) name = s.readEntry cat d name :=
  if_pos h.on.1

/-- The block has been filled in: its entry is returned and the index goes up. -/
theorem At.read {rec : CatRec} (h : s.At d vRefNum dirID p)
    (hcat : cat.catInfo vRefNum dirID name (BitVec.ofNat 16 (p + 1)) s.mac = (noErr, rec)) :
    (s.readdir cat (some d) name).1 = some (direntOf rec) ∧
      (s.readdir cat (some d) name).2.At d vRefNum dirID (p + 1) := by
  have hindex : BitVec.ofNat 16 (p + 1) + 1 = BitVec.ofNat 16 (p + 1 + 1) := by
    rw [BitVec.ofNat_add (p + 1) 1]
    rfl
  rw [readdir_eq h, readEntry, h.on.2.1, h.on.2.2, h.index, hcat]
  refine ⟨rfl, ⟨?_, ?_⟩⟩
  · change ((s.setStream d _).dir_pool d).inUse = true ∧ ((s.setStream d _).dir_pool d).vRefNum = vRefNum ∧
      ((s.setStream d _).dir_pool d).dirID = dirID
    rw [setStream_self]
    exact ⟨h.on.1, rfl, rfl⟩
  · change ((s.setStream d _).dir_pool d).index = _
    rw [setStream_self]
    exact hindex

theorem toInt_index (hp : p < 32767) : (BitVec.ofNat 16 (p + 1)).toInt = p + 1 := by
  rw [BitVec.toInt_ofNat', Int.bmod_def]
  omega

/-- Past the greatest short the index is negative. -/
theorem toInt_index_wrapped (hp : 32767 ≤ p) (hlt : p + 1 < 65536) : (BitVec.ofNat 16 (p + 1)).toInt < 0 := by
  rw [BitVec.toInt_ofNat', Int.bmod_def]
  omega

theorem At.read_entry (h : s.At d vRefNum dirID p) (hlists : cat.Lists vRefNum dirID entries own s.mac)
    (name : Str255) (hk : p < entries.length) (hp : p < 32767) :
    (s.readdir cat (some d) name).1 = some (direntOf entries[p]) ∧
      (s.readdir cat (some d) name).2.At d vRefNum dirID (p + 1) :=
  h.read (hlists.entry name _ p hk (toInt_index hp))

theorem At.read_itself (h : s.At d vRefNum dirID p) (hlists : cat.Lists vRefNum dirID entries own s.mac)
    (name : Str255) (hp : 32767 ≤ p) (hlt : p + 1 < 65536) :
    (s.readdir cat (some d) name).1 = some (direntOf own) ∧
      (s.readdir cat (some d) name).2.At d vRefNum dirID (p + 1) :=
  h.read (hlists.itself name _ (toInt_index_wrapped hp hlt))

theorem At.read_end (h : s.At d vRefNum dirID p) (hlists : cat.Lists vRefNum dirID entries own s.mac)
    (name : Str255) (hk : entries.length ≤ p) (hp : p < 32767) : s.readdir cat (some d) name = (none, s) := by
  have hbeyond := hlists.beyond name (BitVec.ofNat 16 (p + 1)) (by rw [toInt_index hp]; omega)
  rw [readdir_eq h, readEntry, h.on.2.1, h.on.2.2, h.index]
  exact if_pos hbeyond

/-! ### Fewer than 32767 entries -/

theorem results_at (hn : entries.length < 32767) {after : List (DirCall fm)} (hs : s.Ready)
    (h : s.At d vRefNum dirID p) (hp : p ≤ entries.length) (hlists : cat.Lists vRefNum dirID entries own s.mac)
    (helse : ∀ mac, .elsewhere mac ∈ after → cat.Lists vRefNum dirID entries own mac)
    (hkeeps : ∀ c ∈ after, c.keeps d) {r : Option Dirent}
    (hr : (results cat default_volume d s after)[k]? = some r) : r = (entries.map direntOf)[p + k]? := by
  induction after generalizing s p k with
  | nil => cases hr
  | cons c cs ih =>
    have hready : (s.step cat default_volume c).Ready := hs.step c
    have hmac : cat.Lists vRefNum dirID entries own (s.step cat default_volume c).mac := by
      by_cases hc : ∃ mac, c = .elsewhere mac
      · obtain ⟨mac, rfl⟩ := hc
        exact helse mac List.mem_cons_self
      · rw [step_mac hs fun mac heq => hc ⟨mac, heq⟩]
        exact hlists
    have helse' : ∀ mac, .elsewhere mac ∈ cs → cat.Lists vRefNum dirID entries own mac :=
      fun mac hmem => helse mac (List.mem_cons_of_mem _ hmem)
    have hkeeps' : ∀ c ∈ cs, c.keeps d := fun c hc => hkeeps c (List.mem_cons_of_mem _ hc)
    by_cases hread : ∃ name, c = .readdir (some d) name
    · obtain ⟨name, rfl⟩ := hread
      rw [results, if_pos rfl] at hr
      rcases Nat.lt_or_ge p entries.length with hlt | hge
      · obtain ⟨hfirst, hat⟩ := h.read_entry hlists name hlt (by omega)
        cases k with
        | zero =>
          obtain rfl := Option.some.inj hr
          rw [hfirst]
          simp [hlt]
        | succ k =>
          have hrest := ih hready hat hlt hmac helse' hkeeps' hr
          rw [hrest, Nat.add_right_comm, Nat.add_assoc]
      · have hend := h.read_end hlists name hge (by omega)
        have hbeyond : ∀ j, (entries.map direntOf)[p + j]? = none :=
          fun j => List.getElem?_eq_none (by rw [List.length_map]; omega)
        cases k with
        | zero =>
          obtain rfl := Option.some.inj hr
          rw [hend, hbeyond]
        | succ k =>
          have hat : (s.step cat default_volume (.readdir (some d) name)).At d vRefNum dirID p := by
            rw [step, hend]
            exact h
          have hrest := ih hready hat hp hmac helse' hkeeps' hr
          rw [hrest, hbeyond, hbeyond]
    · have hat : (s.step cat default_volume c).At d vRefNum dirID p :=
        h.of_eq (step_stream hs h.on.1 (hkeeps c List.mem_cons_self) fun name heq => hread ⟨name, heq⟩)
      have hskip : results cat default_volume d s (c :: cs) =
          results cat default_volume d (s.step cat default_volume c) cs := by
        cases c with
        | readdir dirp name => exact if_neg fun heq => hread ⟨name, congrArg (DirCall.readdir · name) heq⟩
        | _ => rfl
      rw [hskip] at hr
      exact ih hready hat hp hmac helse' hkeeps' hr

/-! ### 32767 entries or more -/

theorem start_ready (mac : fm.State) : (start mac).Ready := fun _ _ => rfl

/-- Successive calls on one stream return what each of them finds. -/
theorem results_replicate (s : DirState fm) (name : Str255) (hk : k < n) :
    (results cat default_volume d s (List.replicate n (.readdir (some d) name)))[k]? =
      some ((run (step cat default_volume) s (List.replicate k (.readdir (some d) name))).readdir cat
        (some d) name).1 := by
  induction n generalizing s k with
  | zero => exact absurd hk (Nat.not_lt_zero k)
  | succ n ih =>
    rw [List.replicate_succ, results, if_pos rfl]
    cases k with
    | zero => rfl
    | succ k =>
      rw [List.getElem?_cons_succ, ih _ (Nat.lt_of_succ_lt_succ hk), List.replicate_succ]
      rfl

/-- With so many entries each call finds a block filled in, with an entry or with the directory. -/
theorem run_at (default_volume : VolumeName) (hn : 32767 ≤ entries.length) (hs : s.Ready) (h : s.At d vRefNum dirID 0)
    (hlists : cat.Lists vRefNum dirID entries own s.mac) (name : Str255) (hk : k < 65535) :
    (run (step cat default_volume) s (List.replicate k (.readdir (some d) name))).At d vRefNum dirID k ∧
      (run (step cat default_volume) s (List.replicate k (.readdir (some d) name))).Ready ∧
      (run (step cat default_volume) s (List.replicate k (.readdir (some d) name))).mac = s.mac := by
  induction k with
  | zero => exact ⟨h, hs, rfl⟩
  | succ k ih =>
    obtain ⟨hat, hready, hmac⟩ := ih (by omega)
    rw [List.replicate_succ', run_concat]
    generalize run (step cat default_volume) s _ = t at hat hready hmac ⊢
    have hnext : (t.readdir cat (some d) name).2.At d vRefNum dirID (k + 1) := by
      rw [← hmac] at hlists
      rcases Nat.lt_or_ge k 32767 with hlt | hge
      · exact (hat.read_entry hlists name (by omega) hlt).2
      · exact (hat.read_itself hlists name hge (by omega)).2
    refine ⟨hnext, hready.step _, ?_⟩
    rw [← hmac]
    exact step_mac (c := .readdir (some d) name) hready fun mac heq => by cases heq

theorem direntOf_name {a b : CatRec} (h : direntOf a = direntOf b) : a.ioNamePtr = b.ioNamePtr := by
  have hname : ∀ pstr : Str255, p_to_cstr pstr 256 = pstr.chars := fun pstr =>
    List.take_of_length_le pstr.length_le
  have hchars := congrArg Dirent.d_name h
  simp only [direntOf, hname] at hchars
  obtain ⟨⟨_, _⟩, _⟩ := a
  obtain ⟨⟨_, _⟩, _⟩ := b
  obtain rfl := hchars
  rfl

/-- The directory itself is returned behind 32767 entries, again and again. -/
theorem not_enumerates (hn : 32767 ≤ entries.length) {mac : fm.State} {path : CStr}
    (hopen : ((start mac).opendir cat default_volume path).1 = some d)
    (hon : ((start mac).opendir cat default_volume path).2.OnDirectory d vRefNum dirID)
    (hlists : cat.Lists vRefNum dirID entries own mac) :
    ¬ Enumerates cat default_volume vRefNum dirID entries own := by
  intro henum
  have hbegins : (start mac).Begins cat default_volume d (.opendir path) := hopen
  have hready : ((start mac).step cat default_volume (.opendir path)).Ready := (start_ready mac).step _
  have hat := hbegins.at (start_ready mac) hon
  have hmac : ((start mac).step cat default_volume (.opendir path)).mac = mac :=
    step_mac (start_ready mac) fun mac heq => by cases heq
  rw [← hmac] at hlists
  generalize hcs : List.replicate 32769 (.readdir (some d) (c_to_pstr []) : DirCall fm) = cs
  have hexpected : ∀ (k : ℕ) (r : Option Dirent), (results cat default_volume d
      ((start mac).step cat default_volume (.opendir path)) cs)[k]? = some r → r = (entries.map direntOf)[k]? := by
    refine henum mac [] (.opendir path) d cs hbegins hon hlists (fun mac hmem => ?_) fun c hc => ?_
    · rw [← hcs] at hmem
      cases List.eq_of_mem_replicate hmem
    · rw [← hcs] at hc
      rw [List.eq_of_mem_replicate hc]
      trivial
  have hitself : ∀ k, 32767 ≤ k → k < 32769 → (entries.map direntOf)[k]? = some (direntOf own) := by
    intro k hge hlt
    refine (hexpected k _ ?_).symm
    rw [← hcs, results_replicate _ _ hlt]
    obtain ⟨hat', -, hmac'⟩ := run_at default_volume hn hready hat hlists (c_to_pstr [])
      (k := k) (by omega)
    rw [← hmac'] at hlists
    rw [(hat'.read_itself hlists _ hge (by omega)).1]
  have hfirst := hitself 32767 (by omega) (by omega)
  have hsecond := hitself 32768 (by omega) (by omega)
  rw [List.getElem?_map, Option.map_eq_some_iff] at hfirst hsecond
  obtain ⟨a, ha, hown⟩ := hfirst
  obtain ⟨b, hb, hown'⟩ := hsecond
  have hnames : (entries.map CatRec.ioNamePtr)[32767]? = (entries.map CatRec.ioNamePtr)[32768]? := by
    rw [List.getElem?_map, List.getElem?_map, ha, hb, Option.map_some, Option.map_some,
      direntOf_name (hown.trans hown'.symm)]
  have hlen : 32767 < (entries.map CatRec.ioNamePtr).length := by
    rw [List.length_map]
    exact (List.getElem?_eq_some_iff.mp ha).1
  exact absurd ((List.getElem?_inj hlen hlists.names).mp hnames) (by decide)

/-- Directory enumeration is complete exactly where a directory has fewer than 32767 entries: any directory
    that opendir opens. -/
theorem enumerates_iff {mac : fm.State} {path : CStr}
    (hopen : ((start mac).opendir cat default_volume path).1 = some d)
    (hon : ((start mac).opendir cat default_volume path).2.OnDirectory d vRefNum dirID)
    (hlists : cat.Lists vRefNum dirID entries own mac) :
    Enumerates cat default_volume vRefNum dirID entries own ↔ entries.length < 32767 := by
  constructor
  · intro henum
    by_contra hn
    exact not_enumerates (Nat.not_lt.mp hn) hopen hon hlists henum
  · intro hn mac before c d after s hbegins hon hlists helse hkeeps k r hr
    have hready : (run (step cat default_volume) (start mac) before).Ready :=
      (always_of_step (fun _ c hs => hs.step c) (start_ready mac) before).last
    have hat := Begins.at hready hbegins hon
    have hrest := results_at hn (hready.step c) hat (Nat.zero_le _) hlists helse hkeeps hr
    rwa [Nat.zero_add] at hrest

end DirState

/-! ### A directory with as many entries as it is asked for -/

def letter (k : ℕ) : Char := Char.ofNat (97 + k)

/-- Three letters, of 32. -/
def numberName (k : ℕ) : CStr := [letter (k / 1024), letter (k / 32 % 32), letter (k % 32)]

def numberEntry (k : ℕ) : CatRec := ⟨c_to_pstr (numberName k), 0, 17 + k, 0, 0, 0⟩

def numberDirectory (n : ℕ) : CatRec := ⟨c_to_pstr "Numbers".toList, ioDirMask, 16, 0, 0, n⟩

/-- A volume on which every path leads to the one directory. -/
def numberDisk : FileManager where
  State := Unit
  isOpen _ _ := false
  FSMakeFSSpec _ _ := (noErr, ⟨-1, fsRtDirID, c_to_pstr "Numbers".toList⟩)
  FSpCreate _ st := (vLckdErr, st)
  FSpOpenDF _ _ st := ((fnfErr, 0), st)
  FSClose _ st := (rfNumErr, st)
  FSRead _ _ st := ((rfNumErr, []), st)
  FSWrite _ _ st := ((rfNumErr, 0), st)
  SetFPos _ _ _ st := (rfNumErr, st)
  GetFPos _ _ := (rfNumErr, 0)
  SetEOF _ _ st := (rfNumErr, st)

def numberCatalog (n : ℕ) : numberDisk.Catalog where
  GetEOF _ _ := (rfNumErr, 0)
  PBGetCatInfoSync _ _ := (noErr, (numberDirectory n).info)
  PBFlushFileSync _ st := (rfNumErr, st)
  PBFlushVolSync _ st := (noErr, st)
  HGetVol _ := (noErr, c_to_pstr "Macintosh HD".toList, -1, fsRtDirID)
  HSetVol _ _ st := (noErr, st)
  catInfo _ _ _ i _ :=
    if i.toInt ≤ 0 then (noErr, numberDirectory n)
    else if i.toInt ≤ n then (noErr, numberEntry (i.toInt.toNat - 1))
    else (fnfErr, numberDirectory n)
  info_eq _ _ := rfl
  FSpDelete _ st := (vLckdErr, st)
  FSpRename _ _ st := (vLckdErr, st)
  DirCreate _ _ _ st := (vLckdErr, st)

theorem letter_inj : ∀ a < 32, ∀ b < 32, letter a = letter b → a = b := by decide

theorem numberName_inj {a b : ℕ} (ha : a < 32768) (hb : b < 32768) (h : numberName a = numberName b) :
    a = b := by
  simp only [numberName, List.cons.injEq, and_true] at h
  have hhigh := letter_inj _ (by omega) _ (by omega) h.1
  have hmid := letter_inj _ (by omega) _ (by omega) h.2.1
  have hlow := letter_inj _ (by omega) _ (by omega) h.2.2
  omega

theorem numberCatalog_lists {n : ℕ} (hn : n ≤ 32768) :
    (numberCatalog n).Lists (-1) 16 ((List.range n).map numberEntry) (numberDirectory n) () where
  entry name i k hk hi := by
    rw [List.length_map, List.length_range] at hk
    change (if i.toInt ≤ 0 then _ else if i.toInt ≤ n then _ else _) = _
    rw [if_neg (by omega), if_pos (by omega), List.getElem_map, List.getElem_range, hi]
    rfl
  beyond name i hi := by
    rw [List.length_map, List.length_range] at hi
    change (if i.toInt ≤ 0 then ((noErr, numberDirectory n) : OSErr × CatRec)
      else if i.toInt ≤ n then (noErr, numberEntry (i.toInt.toNat - 1)) else (fnfErr, numberDirectory n)).1 = fnfErr
    rw [if_neg (by omega), if_neg (by omega)]
  itself name i hi := if_pos (Int.le_of_lt hi)
  names := by
    rw [List.map_map]
    refine List.Nodup.map_on (fun a ha b hb h => ?_) List.nodup_range
    have hchars := congrArg Str255.chars h
    exact numberName_inj (by simpa using Nat.lt_of_lt_of_le (List.mem_range.mp ha) hn)
      (by simpa using Nat.lt_of_lt_of_le (List.mem_range.mp hb) hn) hchars

namespace DirState

theorem enumerates_three : Enumerates (numberCatalog 3) macintoshHD (-1) 16 ((List.range 3).map numberEntry)
    (numberDirectory 3) := by
  have hopen : ((start ()).opendir (numberCatalog 3) macintoshHD "/Numbers".toList).1 = some ⟨0, by decide⟩ := by
    decide +kernel
  exact (enumerates_iff hopen ⟨rfl, rfl, rfl⟩ (numberCatalog_lists (by decide))).mpr (by decide)

/-- 32767 entries: the next call returns the directory. -/
theorem enumerates_wraps : ¬ Enumerates (numberCatalog 32767) macintoshHD (-1) 16
    ((List.range 32767).map numberEntry) (numberDirectory 32767) := by
  have hopen : ((start ()).opendir (numberCatalog 32767) macintoshHD "/Numbers".toList).1 =
      some ⟨0, by decide⟩ := by
    decide +kernel
  have hn : 32767 ≤ ((List.range 32767).map numberEntry).length := by
    simp only [List.length_map, List.length_range, Nat.le_refl]
  exact not_enumerates hn hopen ⟨rfl, rfl, rfl⟩ (numberCatalog_lists (by decide))

end DirState

end Posix9
