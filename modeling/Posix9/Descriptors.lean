import Posix9.File
import Posix9.Lib.Runs

/-! Which open() a descriptor's refNum stands for. dup and dup2 copy an entry with its refNum and
    keep no count of the copies, so closing one copy closes the file of all. A run keeps every
    descriptor on its own file exactly when no step of it closes a refNum that another descriptor
    holds. -/

namespace Posix9
open Runs

namespace FileState

variable {fm : FileManager} {s : FileState fm} {i j : Fd} {r : RefNum} {o n : ℕ}

/-! ### The law -/

/-- An entry in use that is no stdio entry: it holds a refNum. -/
def Holds (s : FileState fm) (i : Fd) : Prop :=
  (s.fd_table i).inUse = true ∧ (s.fd_table i).isStdio = false

/-- Every refNum held is open and stems from the open() its descriptor descends from; a file is
    closed at most once; no call was made on a file that another open() produced. -/
structure Owned (s : FileState fm) : Prop where
  holds : ∀ i, s.Holds i → s.fileOf (s.fd_table i).refNum = some (s.ledger.origin i)
  closed_once : ∀ n, s.ledger.closes n ≤ 1
  own_file : ∀ u ∈ s.ledger.uses, u.file = some u.origin

/-- No other entry holds the refNum of this one. -/
def Sole (s : FileState fm) (i : Fd) : Prop :=
  ∀ j, j ≠ i → s.Holds j → (s.fd_table j).refNum ≠ (s.fd_table i).refNum

/-- The steps that close no refNum another descriptor holds, a dup2 onto itself included, and do not
    dup descriptor 3 between posix9_cleanup and the next initialisation. -/
def Spares (s : FileState fm) : FileCall → Prop
  | .close fd => ∀ i : Fd, fd = i.val → s.Holds i → s.Sole i
  | .dup oldfd => ¬(s.fd_table_initialized = false ∧ ∃ i, s.get_fd_entry oldfd = some i ∧ i.val = 3)
  | .dup2 oldfd newfd =>
    ∀ j i : Fd, s.get_fd_entry oldfd = some j → newfd = i.val → s.Holds i → j ≠ i ∧ s.Sole i
  | .posix9_cleanup => ∀ i : Fd, 3 ≤ i.val → s.Holds i → s.Sole i
  | _ => True

instance (s : FileState fm) (i : Fd) : Decidable (s.Holds i) :=
  inferInstanceAs (Decidable (_ ∧ _))

instance (s : FileState fm) (i : Fd) : Decidable (s.Sole i) :=
  inferInstanceAs (Decidable (∀ j, j ≠ i → s.Holds j → _))

instance (s : FileState fm) : (c : FileCall) → Decidable (s.Spares c)
  | .close fd => inferInstanceAs (Decidable (∀ i : Fd, fd = i.val → s.Holds i → s.Sole i))
  | .dup oldfd => inferInstanceAs (Decidable (¬(s.fd_table_initialized = false ∧
      ∃ i, s.get_fd_entry oldfd = some i ∧ i.val = 3)))
  | .dup2 oldfd newfd => inferInstanceAs (Decidable (∀ j i : Fd, s.get_fd_entry oldfd = some j →
      newfd = i.val → s.Holds i → j ≠ i ∧ s.Sole i))
  | .posix9_cleanup => inferInstanceAs (Decidable (∀ i : Fd, 3 ≤ i.val → s.Holds i → s.Sole i))
  | .open_ .. | .read .. | .write .. | .lseek .. | .ftruncate .. => .isTrue trivial

/-- What carries the law: besides, each refNum stems from one call only, and a call whose refNum is
    still open, or that has not been made, has no FSClose to its name. -/
structure Inv (s : FileState fm) : Prop extends Owned s where
  stems_lt : ∀ r n, s.ledger.stems r = some n → n < s.ledger.opens
  stems_inj : ∀ r r' n, s.ledger.stems r = some n → s.ledger.stems r' = some n → r = r'
  unclosed : ∀ r n, s.fileOf r = some n → s.ledger.closes n = 0
  closes_le : ∀ n, s.ledger.opens ≤ n → s.ledger.closes n = 0

/-- The law is broken for good: a held refNum is closed, or a call went to another file. -/
def Broken (s : FileState fm) : Prop :=
  (∃ i, s.Holds i ∧ fm.isOpen s.mac (s.fd_table i).refNum = false) ∨
    ∃ u ∈ s.ledger.uses, u.file ≠ some u.origin

/-- `r` is open and stands for the file of call `o`. -/
structure At (s : FileState fm) (r : RefNum) (o : ℕ) : Prop where
  inv : s.Inv
  file : s.fileOf r = some o

/-- `r` has just been handed out to call `o`, so no entry holds it. -/
structure Fresh (s : FileState fm) (r : RefNum) (o : ℕ) : Prop extends s.At r o where
  unheld : ∀ i, s.Holds i → (s.fd_table i).refNum ≠ r

theorem fileOf_eq_some : s.fileOf r = some n ↔
    fm.isOpen s.mac r = true ∧ s.ledger.stems r = some n := by
  rw [fileOf]
  split <;> simp_all

theorem Broken.not_owned (h : s.Broken) : ¬ s.Owned := by
  intro hown
  rcases h with ⟨i, hi, hclosed⟩ | ⟨u, hu, hfile⟩
  · have hopen := (fileOf_eq_some.mp (hown.holds i hi)).1
    rw [hclosed] at hopen
    cases hopen
  · exact hfile (hown.own_file u hu)

theorem Inv.start (mac : fm.State) (socket_inUse : Fin MAX_SOCKETS → Bool) :
    (start mac socket_inUse : FileState fm).Inv := by
  refine ⟨⟨fun i hi => ?_, fun n => Nat.zero_le 1, fun u hu => ?_⟩, fun r n h => ?_,
    fun r r' n h => ?_, fun r n h => ?_, fun n _ => rfl⟩
  · cases hi.1
  · cases hu
  · cases h
  · cases h
  · cases (fileOf_eq_some.mp h).2

/-! ### What keeps the invariant -/

theorem Inv.setErrno (h : s.Inv) (e : ℤ) : (s.setErrno e).Inv :=
  ⟨⟨h.holds, h.closed_once, h.own_file⟩, h.stems_lt, h.stems_inj, h.unclosed, h.closes_le⟩

theorem Inv.uninit (h : s.Inv) :
    ({ s with fd_table_initialized := false } : FileState fm).Inv :=
  ⟨⟨h.holds, h.closed_once, h.own_file⟩, h.stems_lt, h.stems_inj, h.unclosed, h.closes_le⟩

theorem Broken.uninit (h : s.Broken) :
    ({ s with fd_table_initialized := false } : FileState fm).Broken := h

theorem Inv.fail (h : s.Inv) (err : OSErr) : (s.fail err).2.Inv := h.setErrno _

theorem Inv.badFd (h : s.Inv) : s.badFd.2.Inv := h.setErrno _

/-- A File Manager call that opens and closes nothing. -/
theorem Inv.mac (h : s.Inv) {mac : fm.State} (hmac : fm.isOpen mac = fm.isOpen s.mac) :
    ({ s with mac } : FileState fm).Inv := by
  have hfile : ∀ r, ({ s with mac } : FileState fm).fileOf r = s.fileOf r := fun r => by
    rw [fileOf, fileOf, hmac]
  refine ⟨⟨fun i hi => ?_, h.closed_once, h.own_file⟩, h.stems_lt, h.stems_inj, fun r n hn => ?_,
    h.closes_le⟩
  · rw [hfile]
    exact h.holds i hi
  · exact h.unclosed r n (hfile r ▸ hn)

/-- A call on a refNum that stands for the caller's own file. -/
theorem Inv.noteUse (h : s.Inv) (hfile : s.fileOf r = some o) : (s.noteUse o r).Inv := by
  refine ⟨⟨h.holds, h.closed_once, fun u hu => ?_⟩, h.stems_lt, h.stems_inj, h.unclosed, h.closes_le⟩
  rcases List.mem_cons.mp hu with rfl | hu
  · exact hfile
  · exact h.own_file u hu

/-- Writing an entry whose refNum, if it holds one, stands for the file of its origin. -/
theorem Inv.put (h : s.Inv) {e : FdEntry}
    (he : e.inUse = true → e.isStdio = false → s.fileOf e.refNum = some o) :
    ((s.setEntry i e).install i o).Inv := by
  refine ⟨⟨fun j hj => ?_, h.closed_once, h.own_file⟩, h.stems_lt, h.stems_inj, h.unclosed,
    h.closes_le⟩
  change s.fileOf (Function.update s.fd_table i e j).refNum =
    some (Function.update s.ledger.origin i o j)
  have hj' : (Function.update s.fd_table i e j).inUse = true ∧
      (Function.update s.fd_table i e j).isStdio = false := hj
  rcases eq_or_ne j i with rfl | hne
  · rw [Function.update_self] at hj' ⊢
    rw [Function.update_self]
    exact he hj'.1 hj'.2
  · rw [Function.update_of_ne hne] at hj' ⊢
    rw [Function.update_of_ne hne]
    exact h.holds j hj'

theorem Inv.setEntry (h : s.Inv) {e : FdEntry}
    (he : e.inUse = true → e.isStdio = false → s.fileOf e.refNum = some (s.ledger.origin i)) :
    (s.setEntry i e).Inv := by
  have hput : ((s.setEntry i e).install i (s.ledger.origin i)).Inv := h.put he
  have heq : (s.setEntry i e).install i (s.ledger.origin i) = s.setEntry i e := by
    rw [install, Ledger.installed]
    exact congrArg (fun f => { s.setEntry i e with ledger := { s.ledger with origin := f } })
      (Function.update_eq_self i s.ledger.origin)
  rwa [heq] at hput

theorem Inv.openFailed (hfm : fm.Lawful) (h : s.Inv) (spec : FSSpec) (perm : Permission)
    (herr : (s.FSpOpenDF spec perm).1.1 ≠ noErr) : (s.FSpOpenDF spec perm).2.Inv := by
  have hmac := hfm.open_failed spec perm s.mac herr
  have hs : (s.FSpOpenDF spec perm).2 = { s with mac := (fm.FSpOpenDF spec perm s.mac).2 } := by
    have hledger : (s.FSpOpenDF spec perm).2.ledger = s.ledger := if_neg herr
    exact congrArg (fun l => { s with mac := (fm.FSpOpenDF spec perm s.mac).2, ledger := l }) hledger
  rw [hs]
  exact h.mac hmac

/-- A refNum that was closed has been handed out: it stands for a new open(), and the others for what they
    stood for. -/
structure HandsOut (s : FileState fm) (r : RefNum) (t : FileState fm) : Prop where
  table : t.fd_table = s.fd_table
  initialized : t.fd_table_initialized = s.fd_table_initialized
  opens : t.ledger.opens = s.ledger.opens + 1
  closes : t.ledger.closes = s.ledger.closes
  uses : t.ledger.uses = s.ledger.uses
  origin : t.ledger.origin = s.ledger.origin
  closed : fm.isOpen s.mac r = false
  isOpen : ∀ q, fm.isOpen t.mac q = true ↔ fm.isOpen s.mac q = true ∨ q = r
  stem : t.ledger.stems r = some s.ledger.opens
  other : ∀ q, q ≠ r → t.ledger.stems q = s.ledger.stems q

theorem handsOut (hfm : fm.Lawful) {spec : FSSpec} {perm : Permission} {t : FileState fm}
    (hcall : s.FSpOpenDF spec perm = ((noErr, r), t)) : HandsOut s r t := by
  rcases hmac : fm.FSpOpenDF spec perm s.mac with ⟨⟨err, r'⟩, mac⟩
  rw [FSpOpenDF, hmac] at hcall
  obtain ⟨⟨rfl, rfl⟩, rfl⟩ : (err = noErr ∧ r' = r) ∧
      { s with mac, ledger := if err = noErr then s.ledger.opened r' else s.ledger } = t := by
    simpa using hcall
  obtain ⟨hfresh, hopen⟩ := hfm.open_fresh spec perm s.mac r' mac hmac
  rw [if_pos rfl]
  exact ⟨rfl, rfl, rfl, rfl, rfl, rfl, hfresh, hopen, Function.update_self ..,
    fun q hq => Function.update_of_ne hq _ _⟩

theorem HandsOut.fileOf {t : FileState fm} (h : HandsOut s r t) (q : RefNum) (n : ℕ) :
    t.fileOf q = some n ↔ s.fileOf q = some n ∨ (q = r ∧ n = s.ledger.opens) := by
  rw [fileOf_eq_some, fileOf_eq_some, h.isOpen q]
  rcases eq_or_ne q r with rfl | hne
  · simp [h.closed, h.stem, eq_comm]
  · simp [hne, h.other q hne]

/-- Each refNum stands for the new open(), or for an earlier one as before. -/
theorem HandsOut.stems_cases {t : FileState fm} (h : HandsOut s r t)
    (hlt : ∀ q n, s.ledger.stems q = some n → n < s.ledger.opens) {q : RefNum}
    (hq : t.ledger.stems q = some n) :
    (q = r ∧ n = s.ledger.opens) ∨ (s.ledger.stems q = some n ∧ n < s.ledger.opens) := by
  rcases eq_or_ne q r with rfl | hne
  · exact .inl ⟨rfl, (Option.some.inj (h.stem.symm.trans hq)).symm⟩
  · rw [h.other q hne] at hq
    exact .inr ⟨hq, hlt q n hq⟩

theorem HandsOut.stems_lt {t : FileState fm} (h : HandsOut s r t)
    (hlt : ∀ q n, s.ledger.stems q = some n → n < s.ledger.opens) (q : RefNum) (n : ℕ)
    (hq : t.ledger.stems q = some n) : n < t.ledger.opens := by
  rw [h.opens]
  rcases h.stems_cases hlt hq with ⟨-, rfl⟩ | ⟨-, hold⟩
  · exact Nat.lt_succ_self _
  · exact Nat.lt_succ_of_lt hold

theorem HandsOut.stems_inj {t : FileState fm} (h : HandsOut s r t)
    (hlt : ∀ q n, s.ledger.stems q = some n → n < s.ledger.opens)
    (hinj : ∀ q q' n, s.ledger.stems q = some n → s.ledger.stems q' = some n → q = q') (q q' : RefNum) (n : ℕ)
    (hq : t.ledger.stems q = some n) (hq' : t.ledger.stems q' = some n) : q = q' := by
  rcases h.stems_cases hlt hq with ⟨rfl, hn⟩ | ⟨hold, hn⟩ <;>
    rcases h.stems_cases hlt hq' with ⟨rfl, hn'⟩ | ⟨hold', hn'⟩
  · rfl
  · omega
  · omega
  · exact hinj q q' n hold hold'

theorem HandsOut.unclosed {t : FileState fm} (h : HandsOut s r t)
    (hunclosed : ∀ q n, s.fileOf q = some n → s.ledger.closes n = 0)
    (hle : ∀ n, s.ledger.opens ≤ n → s.ledger.closes n = 0) (q : RefNum) (n : ℕ) (hn : t.fileOf q = some n) :
    t.ledger.closes n = 0 := by
  rw [h.closes]
  rcases (h.fileOf q n).mp hn with hold | ⟨-, rfl⟩
  · exact hunclosed q n hold
  · exact hle _ (Nat.le_refl _)

theorem Inv.opened (hfm : fm.Lawful) (h : s.Inv) {spec : FSSpec} {perm : Permission} {s' : FileState fm}
    (hcall : s.FSpOpenDF spec perm = ((noErr, r), s')) : s'.Fresh r (s'.ledger.opens - 1) := by
  have hout := handsOut hfm hcall
  have hholds : ∀ i, s'.Holds i ↔ s.Holds i := fun i => by rw [Holds, Holds, hout.table]
  refine ⟨⟨⟨⟨fun i hi => ?_, ?_, ?_⟩, hout.stems_lt h.stems_lt, hout.stems_inj h.stems_lt h.stems_inj,
    hout.unclosed h.unclosed h.closes_le, fun n hn => ?_⟩, ?_⟩, fun i hi heq => ?_⟩
  · rw [hout.table, hout.origin]
    exact (hout.fileOf _ _).mpr (.inl (h.holds i ((hholds i).mp hi)))
  · rw [hout.closes]
    exact h.closed_once
  · rw [hout.uses]
    exact h.own_file
  · rw [hout.closes]
    rw [hout.opens] at hn
    exact h.closes_le n (Nat.le_of_succ_le hn)
  · refine (hout.fileOf r _).mpr (.inr ⟨rfl, ?_⟩)
    rw [hout.opens, Nat.add_sub_cancel]
  · have hheld := (fileOf_eq_some.mp (h.holds i ((hholds i).mp hi))).1
    rw [← hout.table, heq, hout.closed] at hheld
    cases hheld

/-- What FSClose leaves open. -/
theorem FSClose_isOpen (hfm : fm.Lawful) (o : ℕ) (r r' : RefNum) :
    fm.isOpen (s.FSClose o r).2.mac r' = true ↔ fm.isOpen s.mac r' = true ∧ r' ≠ r :=
  hfm.close r s.mac r'

theorem FSClose_stems (o : ℕ) (r : RefNum) :
    (s.FSClose o r).2.ledger.stems = s.ledger.stems := by
  change ((s.noteUse o r).ledger.closed r).stems = _
  rw [Ledger.closed]
  split <;> rfl

theorem FSClose_fileOf (hfm : fm.Lawful) {r' : RefNum} : (s.FSClose o r).2.fileOf r' = some n ↔
    s.fileOf r' = some n ∧ r' ≠ r := by
  rw [fileOf_eq_some, fileOf_eq_some, FSClose_isOpen hfm, FSClose_stems]
  tauto

/-- FSClose of a refNum that no entry holds any more. -/
theorem Inv.closed (hfm : fm.Lawful) (h : s.Inv) (hfile : s.fileOf r = some o)
    (hno : ∀ j, s.Holds j → (s.fd_table j).refNum ≠ r) : (s.FSClose o r).2.Inv := by
  have hstem := (fileOf_eq_some.mp hfile).2
  have hledger : (s.FSClose o r).2.ledger = { (s.noteUse o r).ledger with
      closes := Function.update s.ledger.closes o (s.ledger.closes o + 1) } := by
    change (s.noteUse o r).ledger.closed r = _
    rw [Ledger.closed, show (s.noteUse o r).ledger.stems r = some o from hstem]
    rfl
  have hcloses : ∀ n, n ≠ o → (s.FSClose o r).2.ledger.closes n = s.ledger.closes n := by
    intro n hn
    rw [hledger]
    exact Function.update_of_ne hn _ _
  have hclose : (s.FSClose o r).2.ledger.closes o = 1 := by
    rw [hledger]
    exact (Function.update_self ..).trans (by rw [h.unclosed r o hfile])
  refine ⟨⟨fun i hi => ?_, fun n => ?_, ?_⟩, ?_, ?_, fun r' n hn => ?_, fun n hn => ?_⟩
  · rw [FSClose_fileOf hfm, hledger]
    exact ⟨h.holds i hi, hno i hi⟩
  · rcases eq_or_ne n o with rfl | hne
    · exact Nat.le_of_eq hclose
    · rw [hcloses n hne]
      exact h.closed_once n
  · rw [hledger]
    exact (h.noteUse hfile).own_file
  · rw [hledger]
    exact h.stems_lt
  · rw [hledger]
    exact h.stems_inj
  · obtain ⟨hold, hne⟩ := (FSClose_fileOf hfm).mp hn
    have hno' : n ≠ o := by
      rintro rfl
      exact hne (h.stems_inj _ _ _ (fileOf_eq_some.mp hold).2 hstem)
    rw [hcloses n hno']
    exact h.unclosed r' n hold
  · have hlt := h.stems_lt r o hstem
    rw [hledger] at hn
    rw [hcloses n (by rintro rfl; exact absurd hn (Nat.not_le_of_lt hlt))]
    exact h.closes_le n hn

/-! ### The calls on one descriptor -/

theorem get_fd_entry_eq_some {fd : ℤ} :
    s.get_fd_entry fd = some i ↔ fd = i.val ∧ (s.fd_table i).inUse = true := by
  rw [get_fd_entry]
  split
  · rename_i h
    obtain ⟨k, rfl⟩ := Int.eq_ofNat_of_zero_le h.1
    constructor
    · intro hi
      dsimp only at hi
      split at hi
      · rename_i huse
        obtain rfl := Option.some.inj hi
        exact ⟨rfl, huse⟩
      · cases hi
    · rintro ⟨hk, huse⟩
      obtain rfl : k = i.val := Int.ofNat.inj hk
      exact if_pos huse
  · rename_i h
    refine iff_of_false (by simp) ?_
    rintro ⟨rfl, -⟩
    exact h ⟨by omega, by have := i.isLt; omega⟩

theorem not_socket (i : Fd) : s.posix9_is_socket i.val = false := by
  have hlt : i.val < 256 := i.isLt
  rw [posix9_is_socket, socketIndex, dif_neg]
  rw [SOCKET_FD_BASE]
  omega

theorem close_eq {fd : ℤ} (hfd : fd = i.val) (huse : (s.fd_table i).inUse = true) :
    s.close fd = s.closeEntry i := by
  subst hfd
  rw [close, not_socket, get_fd_entry_eq_some.mpr ⟨rfl, huse⟩]
  simp

/-- closeEntry of an entry that holds a refNum, up to errno: the slot is freed and the refNum closed. -/
theorem closeEntry_holds (hi : s.Holds i) : ∃ e, (s.closeEntry i).2 = { ((s.setEntry i
    { s.fd_table i with inUse := false, refNum := 0 }).FSClose (s.ledger.origin i)
      (s.fd_table i).refNum).2 with posix9_errno := e } := by
  rw [closeEntry, if_neg (by simp [hi.2])]
  have hfree : (s.FSClose (s.ledger.origin i) (s.fd_table i).refNum).2.free_fd i =
      ((s.setEntry i { s.fd_table i with inUse := false, refNum := 0 }).FSClose
        (s.ledger.origin i) (s.fd_table i).refNum).2 := by
    have hstdio : ¬((s.FSClose (s.ledger.origin i) (s.fd_table i).refNum).2.fd_table i).isStdio :=
      fun habs => Bool.false_ne_true (hi.2.symm.trans habs)
    rw [free_fd, if_neg hstdio]
    rfl
  dsimp only
  split
  · refine ⟨posix9_macos_to_errno (s.FSClose (s.ledger.origin i) (s.fd_table i).refNum).1, ?_⟩
    rw [fail, hfree]
    rfl
  · exact ⟨_, hfree⟩

/-- close of a descriptor that is alone with its refNum. -/
theorem Inv.closeEntry (hfm : fm.Lawful) (h : s.Inv) (hi : s.Holds i) (hsole : s.Sole i) :
    (s.closeEntry i).2.Inv := by
  obtain ⟨e, he⟩ := closeEntry_holds hi
  have hfreed : (s.setEntry i { s.fd_table i with inUse := false, refNum := 0 }).Inv :=
    h.setEntry fun habs => by cases habs
  rw [he]
  refine (hfreed.closed hfm (h.holds i hi) fun j hj => ?_).setErrno e
  rcases eq_or_ne j i with rfl | hne
  · have huse := hj.1
    simp [FileState.setEntry] at huse
  · have hj' : s.Holds j := by
      simpa [Holds, FileState.setEntry, Function.update_of_ne hne] using hj
    simpa [FileState.setEntry, Function.update_of_ne hne] using hsole j hne hj'

theorem Inv.close (hfm : fm.Lawful) (h : s.Inv) {fd : ℤ}
    (hsole : ∀ i : Fd, fd = i.val → s.Holds i → s.Sole i) : (s.close fd).2.Inv := by
  rw [FileState.close]
  split
  · rw [posix9_close_socket]
    split
    · split
      · exact ⟨⟨h.holds, h.closed_once, h.own_file⟩, h.stems_lt, h.stems_inj, h.unclosed, h.closes_le⟩
      · exact h.badFd
    · exact h.badFd
  · split
    · exact h.badFd
    · rename_i i hi
      obtain ⟨hfd, huse⟩ := get_fd_entry_eq_some.mp hi
      rcases hstdio : (s.fd_table i).isStdio with _ | _
      · exact h.closeEntry hfm ⟨huse, hstdio⟩ (hsole i hfd ⟨huse, hstdio⟩)
      · rw [FileState.closeEntry, if_pos hstdio]
        exact h

/-! ### The calls on a file -/

/-- A File Manager call on `r` for its own descriptor. -/
theorem At.call (h : s.At r o) {mac : fm.State} (hmac : fm.isOpen mac = fm.isOpen s.mac) :
    ({ s.noteUse o r with mac } : FileState fm).At r o := by
  refine ⟨(h.inv.noteUse h.file).mac hmac, ?_⟩
  have hfile := h.file
  rw [fileOf_eq_some] at hfile ⊢
  rw [hmac]
  exact hfile

theorem At.setFPos (hfm : fm.Lawful) (h : s.At r o) (mode : PosMode) (off : ℤ) :
    (s.SetFPos o r mode off).2.At r o := h.call (hfm.setFPos r mode off s.mac)

theorem At.seekEnd (hfm : fm.Lawful) (h : s.At r o) (flags : BitVec 32) :
    (s.seekEnd flags o r).At r o := by
  rw [FileState.seekEnd]
  split
  · exact h.setFPos hfm _ _
  · exact h

theorem At.setEOF (hfm : fm.Lawful) (h : s.At r o) (len : ℤ) : (s.SetEOF o r len).2.At r o :=
  h.call (hfm.setEOF r len s.mac)

theorem At.fsRead (hfm : fm.Lawful) (h : s.At r o) (count : ℕ) :
    (s.FSRead o r count).2.At r o := h.call (hfm.read r count s.mac)

theorem At.fsWrite (hfm : fm.Lawful) (h : s.At r o) (buf : List UInt8) :
    (s.FSWrite o r buf).2.At r o := h.call (hfm.write r buf s.mac)

theorem Inv.at (h : s.Inv) (hi : s.Holds i) : s.At (s.fd_table i).refNum (s.ledger.origin i) :=
  ⟨h, h.holds i hi⟩

theorem Inv.read (hfm : fm.Lawful) (h : s.Inv) (fd : ℤ) (count : ℕ) : (s.read fd count).2.Inv := by
  rw [FileState.read]
  split
  · exact h.setErrno _
  rename_i i hi
  dsimp only
  split
  · exact h.setErrno _
  rename_i hstdio
  have hat := (h.at ⟨(get_fd_entry_eq_some.mp hi).2, by simpa using hstdio⟩).fsRead hfm count
  split
  · exact hat.inv
  · split
    · exact hat.inv.setErrno _
    · exact hat.inv

theorem Inv.write (hfm : fm.Lawful) (h : s.Inv) (fd : ℤ) (buf : List UInt8) :
    (s.write fd buf).2.Inv := by
  rw [FileState.write]
  split
  · exact h.badFd
  rename_i i hi
  dsimp only
  split
  · split
    · exact h
    · exact h.badFd
  rename_i hstdio
  have hat := h.at ⟨(get_fd_entry_eq_some.mp hi).2, by simpa using hstdio⟩
  have hwrite := (hat.seekEnd hfm (s.fd_table i).flags).fsWrite hfm buf
  split
  · exact hwrite.inv.fail _
  · exact hwrite.inv

theorem Inv.lseek (hfm : fm.Lawful) (h : s.Inv) (fd offset whence : ℤ) :
    (s.lseek fd offset whence).2.Inv := by
  rw [FileState.lseek]
  split
  · exact h.badFd
  rename_i i hi
  dsimp only
  split
  · exact h.setErrno _
  rename_i hstdio
  split
  · exact h.setErrno _
  rename_i mode _
  have hat := (h.at ⟨(get_fd_entry_eq_some.mp hi).2, by simpa using hstdio⟩).setFPos hfm mode offset
  split
  · exact hat.inv.fail _
  · split
    · exact hat.inv.fail _
    · exact hat.inv

theorem Inv.ftruncate (hfm : fm.Lawful) (h : s.Inv) (fd length : ℤ) :
    (s.ftruncate fd length).2.Inv := by
  rw [FileState.ftruncate]
  split
  · exact h.badFd
  rename_i i hi
  dsimp only
  split
  · exact h.setErrno _
  rename_i hstdio
  have hat := (h.at ⟨(get_fd_entry_eq_some.mp hi).2, by simpa using hstdio⟩).setEOF hfm length
  split
  · exact hat.inv.fail _
  · exact hat.inv

/-! ### The table -/

theorem Inv.init (h : s.Inv) : s.init_fd_table.Inv := by
  rw [init_fd_table]
  split
  · exact h
  · refine ⟨⟨fun i hi => ?_, h.closed_once, h.own_file⟩, h.stems_lt, h.stems_inj, h.unclosed,
      h.closes_le⟩
    exact absurd (hi.1.symm.trans hi.2) (by decide)

theorem init_of_initialized (h : s.fd_table_initialized = true) : s.init_fd_table = s := by
  rw [init_fd_table, if_pos h]

theorem init_holds (hi : s.init_fd_table.Holds i) : s.init_fd_table = s := by
  rw [init_fd_table] at hi ⊢
  split
  · rfl
  · rename_i hinit
    rw [if_neg hinit] at hi
    exact absurd (hi.1.symm.trans hi.2) (by decide)

theorem init_fileOf (r : RefNum) : s.init_fd_table.fileOf r = s.fileOf r := by
  rw [init_fd_table]
  split <;> rfl

theorem mem_slots : i ∈ slots ↔ 3 ≤ i.val := by
  rw [slots, List.mem_drop_iff_getElem]
  constructor
  · rintro ⟨k, hk, rfl⟩
    simp
  · intro h
    exact ⟨i.val - 3, by simp; omega, by simp [Fin.ext_iff]; omega⟩

/-- alloc_fd takes a slot behind stdio that is free, and fails only where there is none. -/
theorem alloc_fd_cases (s : FileState fm) :
    (∃ i ∈ slots, (s.init_fd_table.fd_table i).inUse = false ∧ s.alloc_fd =
      (some i, s.init_fd_table.setEntry i { s.init_fd_table.fd_table i with inUse := true })) ∨
    (∀ i ∈ slots, (s.init_fd_table.fd_table i).inUse = true) ∧
      s.alloc_fd = (none, s.init_fd_table.setErrno EMFILE) := by
  rw [alloc_fd]
  dsimp only
  rcases hfind : slots.find? (fun i => !(s.init_fd_table.fd_table i).inUse) with _ | i
  · refine .inr ⟨fun i hi => ?_, rfl⟩
    simpa using List.find?_eq_none.mp hfind i hi
  · have hfree : (s.init_fd_table.fd_table i).inUse = false := by simpa using List.find?_some hfind
    exact .inl ⟨i, List.mem_of_find?_eq_some hfind, hfree, rfl⟩

/-- Behind an initialisation the first slot is 3. -/
theorem alloc_fd_first (hinit : s.fd_table_initialized = false) : ∃ i : Fd, i.val = 3 ∧ s.alloc_fd =
    (some i, s.init_fd_table.setEntry i { s.init_fd_table.fd_table i with inUse := true }) := by
  have hslots : slots = ⟨3, by decide⟩ :: slots.tail := by decide +kernel
  have hfree : (s.init_fd_table.fd_table ⟨3, by decide⟩).inUse = false := by
    rw [init_fd_table, hinit]
    rfl
  refine ⟨⟨3, by decide⟩, rfl, ?_⟩
  rw [alloc_fd, hslots]
  simp [hfree]

theorem setEntry_self (e : FdEntry) : (s.setEntry i e).fd_table i = e := Function.update_self ..

theorem setEntry_of_ne (hne : j ≠ i) (e : FdEntry) : (s.setEntry i e).fd_table j = s.fd_table j :=
  Function.update_of_ne hne _ _

theorem setEntry_setEntry (e e' : FdEntry) : (s.setEntry i e).setEntry i e' = s.setEntry i e' := by
  simp [FileState.setEntry]

/-! ### open -/

theorem Fresh.seekEnd (hfm : fm.Lawful) (h : s.Fresh r o) (flags : BitVec 32) :
    (s.seekEnd flags o r).Fresh r o := by
  refine ⟨h.toAt.seekEnd hfm flags, ?_⟩
  rw [FileState.seekEnd]
  split <;> exact h.unheld

theorem Fresh.init (h : s.Fresh r o) : s.init_fd_table.Fresh r o := by
  refine ⟨⟨h.inv.init, (init_fileOf r).trans h.file⟩, fun i hi => ?_⟩
  have heq := init_holds hi
  rw [heq] at hi ⊢
  exact h.unheld i hi

theorem Inv.openFork (hfm : fm.Lawful) (h : s.Inv) (flags : BitVec 32) (spec : FSSpec) :
    (s.openFork flags spec).2.Inv := by
  rcases hcall : s.FSpOpenDF spec (permission flags) with ⟨⟨err, refNum⟩, s₁⟩
  rw [FileState.openFork, hcall]
  dsimp only
  split
  · rename_i herr
    have hfailed := h.openFailed hfm spec (permission flags)
    rw [hcall] at hfailed
    exact (hfailed herr).fail _
  rename_i hok
  obtain rfl := not_not.mp hok
  have hopened := h.opened hfm hcall
  generalize s₁.ledger.opens - 1 = origin at hopened ⊢
  have htrunc : (if has flags O_TRUNC then (s₁.SetEOF origin refNum 0).2 else s₁).Fresh
      refNum origin := by
    split
    · exact ⟨hopened.toAt.setEOF hfm 0, hopened.unheld⟩
    · exact hopened
  generalize (if has flags O_TRUNC then (s₁.SetEOF origin refNum 0).2 else s₁) = s₂ at htrunc ⊢
  have hinit := (htrunc.seekEnd hfm flags).init
  rcases alloc_fd_cases (s₂.seekEnd flags origin refNum) with ⟨i, -, -, halloc⟩ | ⟨-, halloc⟩ <;>
    rw [halloc]
  · dsimp only
    rw [setEntry_setEntry]
    exact hinit.inv.put fun _ _ => hinit.file
  · exact (hinit.inv.setErrno _).closed hfm hinit.file hinit.unheld

theorem Inv.open_ (hfm : fm.Lawful) (h : s.Inv) (path : CStr) (flags : BitVec 32) :
    (s.open_ path flags).2.Inv := by
  have hresolved : ∀ {t : FileState fm}, t.Inv → ∀ err spec,
      (t.openResolved flags err spec).2.Inv := by
    intro t ht err spec
    rw [openResolved]
    split
    · exact ht.setErrno _
    · split
      · exact ht.fail _
      · exact ht.openFork hfm flags spec
  rw [FileState.open_]
  dsimp only
  split
  · have hcreate : ∀ spec, (s.init_fd_table.FSpCreate spec).2.Inv := fun spec =>
      h.init.mac (hfm.create spec _)
    split
    · exact (hcreate _).fail _
    · exact hresolved (hcreate _) _ _
  · exact hresolved h.init _ _

/-! ### dup and dup2 -/

/-- The slot alloc_fd finds is the descriptor being duplicated only behind an initialisation. -/
theorem alloc_fd_ne {oldfd : ℤ} (hC : s.Spares (.dup oldfd)) (hold : s.get_fd_entry oldfd = some j)
    {t : FileState fm} (halloc : s.alloc_fd = (some i, t))
    (hfree : (s.init_fd_table.fd_table i).inUse = false) : j ≠ i := by
  rintro rfl
  have huse := (get_fd_entry_eq_some.mp hold).2
  rcases hinit : s.fd_table_initialized with _ | _
  · obtain ⟨k, hk, hfirst⟩ := alloc_fd_first hinit
    rw [hfirst] at halloc
    obtain rfl : k = j := Option.some.inj (congrArg Prod.fst halloc)
    exact hC ⟨hinit, k, hold, hk⟩
  · rw [init_of_initialized hinit, huse] at hfree
    cases hfree

theorem Inv.dup (h : s.Inv) {oldfd : ℤ} (hC : s.Spares (.dup oldfd)) : (s.dup oldfd).2.Inv := by
  rw [FileState.dup]
  split
  · exact h.badFd
  rename_i old hold
  rcases alloc_fd_cases s with ⟨i, -, hfree, halloc⟩ | ⟨-, halloc⟩
  · have hne := alloc_fd_ne hC hold halloc hfree
    rw [halloc]
    dsimp only
    rw [copyEntry, setEntry_setEntry]
    refine h.init.put fun huse hstdio => ?_
    change (Function.update s.init_fd_table.fd_table i _ old).inUse = true at huse
    change (Function.update s.init_fd_table.fd_table i _ old).isStdio = false at hstdio
    change s.init_fd_table.fileOf (Function.update s.init_fd_table.fd_table i _ old).refNum =
      some (s.init_fd_table.ledger.origin old)
    rw [Function.update_of_ne hne] at huse hstdio ⊢
    exact h.init.holds old ⟨huse, hstdio⟩
  · rw [halloc]
    exact h.init.setErrno _

/-- What dup2 does to the table behind its checks and its close. -/
def overwrite (s : FileState fm) (old new : Fd) : FileState fm :=
  (s.copyEntry old new).setEntry new { (s.copyEntry old new).fd_table new with inUse := true }

theorem overwrite_self : (s.overwrite j i).fd_table i = { s.fd_table j with inUse := true } := by
  have hcopy : (s.copyEntry j i).fd_table i = s.fd_table j := setEntry_self _
  rw [overwrite, setEntry_self, hcopy]

theorem overwrite_of_ne {k : Fd} (hne : k ≠ i) : (s.overwrite j i).fd_table k = s.fd_table k :=
  (setEntry_of_ne hne _).trans (setEntry_of_ne hne _)

theorem Inv.copyInUse (h : s.Inv) (huse : (s.fd_table j).inUse = true) :
    (s.overwrite j i).Inv := by
  have hcopy : (s.copyEntry j i).Inv := h.put fun huse hstdio => h.holds j ⟨huse, hstdio⟩
  have hentry : (s.copyEntry j i).fd_table i = s.fd_table j := Function.update_self ..
  have horigin : (s.copyEntry j i).ledger.origin i = s.ledger.origin j := Function.update_self ..
  refine hcopy.setEntry fun _ hstdio => ?_
  rw [hentry] at hstdio ⊢
  rw [horigin]
  exact h.holds j ⟨huse, hstdio⟩

/-- What is left by closing an entry that holds a refNum. -/
structure ClosedTo (s : FileState fm) (i : Fd) (t : FileState fm) : Prop where
  entry : t.fd_table i = { s.fd_table i with inUse := false, refNum := 0 }
  other : ∀ j, j ≠ i → t.fd_table j = s.fd_table j
  isOpen : ∀ r, fm.isOpen t.mac r = true ↔ fm.isOpen s.mac r = true ∧ r ≠ (s.fd_table i).refNum
  uses : t.ledger.uses =
    ⟨s.ledger.origin i, s.fileOf (s.fd_table i).refNum⟩ :: s.ledger.uses

theorem closeEntry_closedTo (hfm : fm.Lawful) (hi : s.Holds i) :
    ClosedTo s i (s.closeEntry i).2 := by
  obtain ⟨e, he⟩ := closeEntry_holds hi
  rw [he]
  refine ⟨Function.update_self .., fun j hne => Function.update_of_ne hne _ _,
    fun r => hfm.close (s.fd_table i).refNum s.mac r, ?_⟩
  change (Ledger.closed _ _).uses = _
  rw [Ledger.closed]
  split <;> rfl

theorem dup2_eq {oldfd newfd : ℤ} (hold : s.get_fd_entry oldfd = some j) (hnew : newfd = i.val) :
    (s.dup2 oldfd newfd).2 =
      (if (s.fd_table i).inUse ∧ ¬(s.fd_table i).isStdio then (s.closeEntry i).2 else s).overwrite
        j i := by
  subst hnew
  have hrange : 0 ≤ (i.val : ℤ) ∧ (i.val : ℤ) < POSIX9_OPEN_MAX :=
    ⟨Int.natCast_nonneg _, Int.ofNat_lt.mpr i.isLt⟩
  rw [dup2, hold]
  dsimp only
  rw [dif_pos hrange]
  have hi : (⟨(i.val : ℤ).toNat, by omega⟩ : Fd) = i := rfl
  simp only [hi]
  split
  · rename_i hheld
    rw [close_eq rfl hheld.1]
    rfl
  · rfl

theorem Inv.dup2 (hfm : fm.Lawful) (h : s.Inv) {oldfd newfd : ℤ}
    (hC : s.Spares (.dup2 oldfd newfd)) : (s.dup2 oldfd newfd).2.Inv := by
  rcases hold : s.get_fd_entry oldfd with _ | old
  · rw [FileState.dup2, hold]
    exact h.badFd
  have huse := (get_fd_entry_eq_some.mp hold).2
  by_cases hrange : 0 ≤ newfd ∧ newfd < POSIX9_OPEN_MAX
  · obtain ⟨new, rfl⟩ : ∃ new : Fd, newfd = new.val :=
      ⟨⟨newfd.toNat, by omega⟩, (Int.toNat_of_nonneg hrange.1).symm⟩
    rw [dup2_eq hold rfl]
    split
    · rename_i hheld
      have hi : s.Holds new := ⟨hheld.1, by simpa using hheld.2⟩
      obtain ⟨hne, hsole⟩ := hC old new hold rfl hi
      have hclosed := closeEntry_closedTo hfm hi
      exact (h.closeEntry hfm hi hsole).copyInUse (by rw [hclosed.other old hne]; exact huse)
    · exact h.copyInUse huse
  · rw [FileState.dup2, hold]
    dsimp only
    rw [dif_neg hrange]
    exact h.badFd

/-! ### A shared refNum -/

section ClosedTo

variable {t : FileState fm}

theorem ClosedTo.holds (h : ClosedTo s i t) : t.Holds j ↔ j ≠ i ∧ s.Holds j := by
  rcases eq_or_ne j i with rfl | hne
  · simp [Holds, h.entry]
  · simp [Holds, h.other j hne, hne]

theorem ClosedTo.sole (h : ClosedTo s i t) (hne : j ≠ i) (hsole : s.Sole j) : t.Sole j := by
  intro k hk hheld
  obtain ⟨hki, hheld⟩ := h.holds.mp hheld
  rw [h.other k hki, h.other j hne]
  exact hsole k hk hheld

theorem ClosedTo.closed (h : ClosedTo s i t) (hr : fm.isOpen s.mac r = false ∨
    r = (s.fd_table i).refNum) : fm.isOpen t.mac r = false := by
  rw [← Bool.not_eq_true, h.isOpen]
  rcases hr with hr | rfl <;> simp_all

/-- Closing a refNum that another entry holds leaves that entry with a closed one. -/
theorem ClosedTo.broken (h : ClosedTo s i t) (hsole : ¬ s.Sole i) : t.Broken := by
  simp only [Sole, not_forall, not_not] at hsole
  obtain ⟨j, hne, hj, hsame⟩ := hsole
  refine .inl ⟨j, h.holds.mpr ⟨hne, hj⟩, h.closed (.inr ?_)⟩
  rw [h.other j hne, hsame]

/-- What is broken stays broken: a closed refNum is held on, or closed a second time. -/
theorem Broken.closedTo (hb : s.Broken) (h : ClosedTo s i t) : t.Broken := by
  rcases hb with ⟨j, hj, hclosed⟩ | ⟨u, hu, hfile⟩
  · rcases eq_or_ne j i with rfl | hne
    · refine .inr ⟨_, by rw [h.uses]; exact List.mem_cons_self, ?_⟩
      simp [fileOf, hclosed]
    · refine .inl ⟨j, h.holds.mpr ⟨hne, hj⟩, h.closed (.inl ?_)⟩
      rw [h.other j hne]
      exact hclosed
  · exact .inr ⟨u, by rw [h.uses]; exact List.mem_cons_of_mem _ hu, hfile⟩

end ClosedTo

/-! ### posix9_cleanup -/

theorem cleanupEntry_cases (hfm : fm.Lawful) (s : FileState fm) (i : Fd) :
    (¬ s.Holds i ∧ s.cleanupEntry i = s) ∨
      (s.Holds i ∧ s.cleanupEntry i = (s.closeEntry i).2 ∧ ClosedTo s i (s.cleanupEntry i)) := by
  rw [cleanupEntry]
  split
  · rename_i hheld
    have hi : s.Holds i := ⟨hheld.1, by simpa using hheld.2⟩
    rw [close_eq rfl hi.1]
    exact .inr ⟨hi, rfl, closeEntry_closedTo hfm hi⟩
  · rename_i hheld
    exact .inl ⟨fun hi => hheld ⟨hi.1, by simp [hi.2]⟩, rfl⟩

/-- Every other entry that is alone with its refNum stays so over a round of the loop. -/
theorem sole_cleanupEntry (hfm : fm.Lawful) {l : List Fd}
    (hsole : ∀ j ∈ l, s.Holds j → s.Sole j) :
    ∀ j ∈ l, (s.cleanupEntry i).Holds j → (s.cleanupEntry i).Sole j := by
  intro j hj hheld
  rcases cleanupEntry_cases hfm s i with ⟨-, heq⟩ | ⟨-, -, hclosed⟩
  · rw [heq] at hheld ⊢
    exact hsole j hj hheld
  · obtain ⟨hne, hheld⟩ := hclosed.holds.mp hheld
    exact hclosed.sole hne (hsole j hj hheld)

theorem Inv.cleanupEntry (hfm : fm.Lawful) (h : s.Inv) (hsole : s.Holds i → s.Sole i) :
    (s.cleanupEntry i).Inv := by
  rcases cleanupEntry_cases hfm s i with ⟨-, heq⟩ | ⟨hi, heq, -⟩
  · rwa [heq]
  · rw [heq]
    exact h.closeEntry hfm hi (hsole hi)

theorem Inv.cleanup (hfm : fm.Lawful) {l : List Fd} (h : s.Inv)
    (hsole : ∀ i ∈ l, s.Holds i → s.Sole i) : (l.foldl FileState.cleanupEntry s).Inv := by
  induction l generalizing s with
  | nil => exact h
  | cons i l ih =>
    refine ih (h.cleanupEntry hfm (hsole i List.mem_cons_self)) (sole_cleanupEntry hfm ?_)
    exact fun j hj => hsole j (List.mem_cons_of_mem _ hj)

theorem Broken.cleanup (hfm : fm.Lawful) (l : List Fd) (hb : s.Broken) :
    (l.foldl FileState.cleanupEntry s).Broken := by
  induction l generalizing s with
  | nil => exact hb
  | cons i l ih =>
    refine ih ?_
    rcases cleanupEntry_cases hfm s i with ⟨-, heq⟩ | ⟨-, -, hclosed⟩
    · rwa [heq]
    · exact hb.closedTo hclosed

theorem sole_of_cleanup (hfm : fm.Lawful) {l : List Fd}
    (hok : ¬ (l.foldl FileState.cleanupEntry s).Broken) : ∀ i ∈ l, s.Holds i → s.Sole i := by
  induction l generalizing s with
  | nil => intro i hi; cases hi
  | cons i l ih =>
    have hnext := ih hok
    rcases cleanupEntry_cases hfm s i with ⟨hno, heq⟩ | ⟨hi, -, hclosed⟩
    · rw [heq] at hnext
      rintro j hj hheld
      rcases List.mem_cons.mp hj with rfl | hj
      · exact absurd hheld hno
      · exact hnext j hj hheld
    · have hsole : s.Sole i := by
        by_contra habs
        exact hok ((hclosed.broken habs).cleanup hfm l)
      intro j hj hheld
      rcases eq_or_ne j i with rfl | hne
      · exact hsole
      have hj : j ∈ l := (List.mem_cons.mp hj).resolve_left hne
      have hj' := hnext j hj (hclosed.holds.mpr ⟨hne, hheld⟩)
      intro k hk hheldk
      rcases eq_or_ne k i with rfl | hki
      · exact (hsole j hne hheld).symm
      · have hkj := hj' k hk (hclosed.holds.mpr ⟨hki, hheldk⟩)
        rwa [hclosed.other k hki, hclosed.other j hne] at hkj

/-! ### Runs -/

theorem Inv.step (hfm : fm.Lawful) (s : FileState fm) (c : FileCall) (h : s.Inv)
    (hC : s.Spares c) : (s.step c).Inv := by
  cases c with
  | open_ path flags => exact h.open_ hfm path flags
  | close fd => exact h.close hfm hC
  | read fd count => exact h.read hfm fd count
  | write fd buf => exact h.write hfm fd buf
  | lseek fd offset whence => exact h.lseek hfm fd offset whence
  | ftruncate fd length => exact h.ftruncate hfm fd length
  | dup oldfd => exact h.dup hC
  | dup2 oldfd newfd => exact h.dup2 hfm hC
  | posix9_cleanup =>
    exact (h.cleanup hfm fun i hi => hC i (mem_slots.mp hi)).uninit

/-- A step that does not spare a shared refNum breaks the law at once. -/
theorem broken_of_not_spares (hfm : fm.Lawful) (s : FileState fm) (c : FileCall)
    (hC : ¬ s.Spares c) : (s.step c).Broken := by
  cases c with
  | open_ | read | write | lseek | ftruncate => exact absurd trivial hC
  | close fd =>
    simp only [Spares, not_forall] at hC
    obtain ⟨i, hfd, hi, hsole⟩ := hC
    rw [FileState.step, close_eq hfd hi.1]
    exact (closeEntry_closedTo hfm hi).broken hsole
  | dup oldfd =>
    simp only [Spares, not_not] at hC
    obtain ⟨hinit, i, hold, hi⟩ := hC
    obtain ⟨k, hk, halloc⟩ := alloc_fd_first hinit
    obtain rfl : k = i := Fin.ext (hk.trans hi.symm)
    have hfresh : (s.init_fd_table.fd_table k).refNum = 0 ∧
        (s.init_fd_table.fd_table k).isStdio = false := by
      rw [init_fd_table, hinit]
      refine ⟨rfl, decide_eq_false ?_⟩
      simp [Fin.ext_iff, STDIN_FILENO, STDOUT_FILENO, STDERR_FILENO, hk]
    rw [FileState.step, FileState.dup, hold]
    dsimp only
    rw [halloc]
    dsimp only
    rw [copyEntry, setEntry_setEntry]
    refine .inl ⟨k, ?_, ?_⟩
    · change ((FileState.setEntry _ k _).fd_table k).inUse = true ∧
        ((FileState.setEntry _ k _).fd_table k).isStdio = false
      rw [setEntry_self, setEntry_self]
      exact ⟨rfl, hfresh.2⟩
    · change fm.isOpen _ ((FileState.setEntry _ k _).fd_table k).refNum = false
      rw [setEntry_self, setEntry_self]
      exact (congrArg _ hfresh.1).trans (hfm.zero _)
  | dup2 oldfd newfd =>
    simp only [Spares, not_forall] at hC
    obtain ⟨j, i, hold, hnew, hi, hboth⟩ := hC
    have hclosed := closeEntry_closedTo hfm hi
    rw [FileState.step, dup2_eq hold hnew, if_pos ⟨hi.1, by simp [hi.2]⟩]
    rcases eq_or_ne j i with rfl | hne
    · refine .inl ⟨j, ?_, ?_⟩
      · rw [Holds, overwrite_self, hclosed.entry]
        exact ⟨rfl, hi.2⟩
      · rw [overwrite_self, hclosed.entry]
        exact hfm.zero _
    · have hsole : ¬ s.Sole i := fun habs => hboth ⟨hne, habs⟩
      simp only [Sole, not_forall, not_not] at hsole
      obtain ⟨k, hki, hk, hsame⟩ := hsole
      refine .inl ⟨k, ?_, ?_⟩
      · rw [Holds, overwrite_of_ne hki, hclosed.other k hki]
        exact hk
      · rw [overwrite_of_ne hki, hclosed.other k hki]
        exact hclosed.closed (.inr hsame)
  | posix9_cleanup =>
    by_contra hok
    have hsole := sole_of_cleanup hfm (s := s) (l := slots) fun hb => hok hb.uninit
    exact hC fun i hi => hsole i (mem_slots.mpr hi)

/-- Every descriptor keeps to the file of its own open() throughout a run exactly when no step closes
    a refNum that another descriptor holds. -/
theorem owned_iff_spares (hfm : fm.Lawful) (mac : fm.State) (socket_inUse : Fin MAX_SOCKETS → Bool)
    (calls : List FileCall) :
    Always step Owned (FileState.start mac socket_inUse) calls ↔
      Meets step Spares (FileState.start mac socket_inUse) calls :=
  always_iff_meets (Inv.step hfm) (fun _ h => h.toOwned)
    (fun s c _ hown => by_contra fun hC => (broken_of_not_spares hfm s c hC).not_owned hown)
    (Inv.start mac socket_inUse)

end FileState

/-! ### A File Manager -/

section BareDisk

variable {opened opened' : List RefNum} {r r' : RefNum}

/-- The least refNum that is free. -/
def freeRefNum (opened : List RefNum) : Option RefNum :=
  ((List.range (opened.length + 1)).map fun k : ℕ => (k : RefNum) + 1).find? (· ∉ opened)

theorem freeRefNum_eq_some (h : freeRefNum opened = some r) : r ≠ 0 ∧ r ∉ opened := by
  have hfree := List.find?_some h
  obtain ⟨k, -, hk⟩ := List.mem_map.mp (List.mem_of_find?_eq_some h)
  refine ⟨?_, of_decide_eq_true hfree⟩
  rintro rfl
  have hpos : (k : ℤ) + 1 = 0 := hk
  omega

def isOpenOn (opened : List RefNum) (r : RefNum) : Bool := r ≠ 0 ∧ r ∈ opened

def openOn (opened : List RefNum) : (OSErr × RefNum) × List RefNum :=
  match freeRefNum opened with
  | some r => ((noErr, r), r :: opened)
  | none => ((tmfoErr, 0), opened)

def closeOn (r : RefNum) (opened : List RefNum) : OSErr × List RefNum :=
  (if isOpenOn opened r then noErr else rfNumErr, opened.filter (· ≠ r))

theorem isOpenOn_iff : isOpenOn opened r = true ↔ r ≠ 0 ∧ r ∈ opened := decide_eq_true_iff

theorem openOn_fresh (h : openOn opened = ((noErr, r), opened')) : isOpenOn opened r = false ∧
    ∀ r', isOpenOn opened' r' = true ↔ isOpenOn opened r' = true ∨ r' = r := by
  rw [openOn] at h
  split at h
  · rename_i q hfree
    obtain ⟨rfl, rfl⟩ : q = r ∧ q :: opened = opened' := by simpa using h
    obtain ⟨hzero, hnew⟩ := freeRefNum_eq_some hfree
    refine ⟨Bool.eq_false_iff.mpr fun habs => hnew (isOpenOn_iff.mp habs).2, fun r' => ?_⟩
    rw [isOpenOn_iff, isOpenOn_iff, List.mem_cons]
    constructor
    · rintro ⟨hr, rfl | hmem⟩
      · exact .inr rfl
      · exact .inl ⟨hr, hmem⟩
    · rintro (⟨hr, hmem⟩ | rfl)
      · exact ⟨hr, .inr hmem⟩
      · exact ⟨hzero, .inl rfl⟩
  · simp [tmfoErr, noErr] at h

theorem openOn_failed (h : (openOn opened).1.1 ≠ noErr) : (openOn opened).2 = opened := by
  rw [openOn] at h ⊢
  split at h
  · exact absurd rfl h
  · rfl

theorem closeOn_iff : isOpenOn (closeOn r opened).2 r' = true ↔ isOpenOn opened r' = true ∧ r' ≠ r := by
  rw [isOpenOn_iff, isOpenOn_iff, closeOn, List.mem_filter]
  simp [and_assoc]

/-- A File Manager on whose disk every file exists and is empty. It numbers its access paths from 1. -/
def bareDisk : FileManager where
  State := List RefNum
  isOpen := isOpenOn
  FSMakeFSSpec name _ := (noErr, ⟨-1, 2, name⟩)
  FSpCreate _ opened := (dupFNErr, opened)
  FSpOpenDF _ _ opened := openOn opened
  FSClose := closeOn
  FSRead _ _ opened := ((eofErr, []), opened)
  FSWrite _ buf opened := ((noErr, buf.length), opened)
  SetFPos _ _ _ opened := (noErr, opened)
  GetFPos _ _ := (noErr, 0)
  SetEOF _ _ opened := (noErr, opened)

theorem bareDisk_lawful : bareDisk.Lawful where
  zero _ := rfl
  open_fresh _ _ _ _ _ := openOn_fresh
  open_failed _ _ _ h := congrArg isOpenOn (openOn_failed h)
  close _ _ _ := closeOn_iff
  create _ _ := rfl
  read _ _ _ := rfl
  write _ _ _ := rfl
  setFPos _ _ _ _ := rfl
  setEOF _ _ _ := rfl

end BareDisk

open FileState

/-- Two files, a copy of the second, and a close of the first. -/
theorem owned_two_files : Always step Owned
    (FileState.start [] (fun _ => false) : FileState bareDisk)
    [.open_ "a".toList O_RDWR, .open_ "b".toList O_RDWR, .dup 4, .close 3, .write 5 [104, 105]] :=
  (owned_iff_spares bareDisk_lawful [] (fun _ => false) _).mpr (by decide +kernel)

/-- A copy outlives its file: behind `dup`, closing the first descriptor closes the file of both, the
    next open gets its refNum, and writing through the copy goes to the new file. -/
theorem dup_writes_to_another_file : bareDisk.Lawful ∧ ¬ Always step Owned
    (FileState.start [] (fun _ => false) : FileState bareDisk)
    [.open_ "a".toList O_RDWR, .dup 3, .close 3, .open_ "b".toList O_RDWR, .write 4 [104, 105]] := by
  refine ⟨bareDisk_lawful, fun h => ?_⟩
  have hown := always_iff_prefix.mp h _ List.prefix_rfl
  have huse : (⟨0, some 1⟩ : Use) ∈ (run step (FileState.start [] (fun _ => false) : FileState bareDisk)
      [.open_ "a".toList O_RDWR, .dup 3, .close 3, .open_ "b".toList O_RDWR,
        .write 4 [104, 105]]).ledger.uses := by
    decide +kernel
  exact absurd (hown.own_file _ huse) (by decide)

end Posix9
