import Posix9.Endpoints
import Posix9.OneNamespace

/-! What posix9_cleanup leaves open. It closes the entries of fd_table from 3 on that are no stdio entries. A
    file that dup2 has put on one of the first three is closed with the entry it was copied from; the sockets and
    the copies of stdio entries stay. -/

namespace Posix9

namespace FileState

variable {fm : FileManager} {s t : FileState fm} {i j : Fd} {p r : RefNum} {o n : ℕ} {e : FdEntry}

/-! ### What is known of each open() -/

/-- Every open() whose file has not been closed has an entry from 3 on that holds its refNum, or `p` is its
    refNum; a refNum stands for one open() only, which has not been closed while the refNum is open. -/
structure Tracked (p : RefNum) (s : FileState fm) : Prop where
  stems_lt : ∀ r n, s.ledger.stems r = some n → n < s.ledger.opens
  stems_inj : ∀ r r' n, s.ledger.stems r = some n → s.ledger.stems r' = some n → r = r'
  unclosed : ∀ r n, s.fileOf r = some n → s.ledger.closes n = 0
  closes_le : ∀ n, s.ledger.opens ≤ n → s.ledger.closes n = 0
  known : ∀ i, fm.isOpen s.mac (s.fd_table i).refNum = true → (s.ledger.stems (s.fd_table i).refNum).isSome = true
  stdio : ∀ i, (s.fd_table i).isStdio = true → (s.fd_table i).inUse = true
  free : ∀ i, (s.fd_table i).inUse = false → (s.fd_table i).refNum = 0
  held : ∀ n < s.ledger.opens, s.ledger.closes n = 0 →
    (∃ i : Fd, 3 ≤ i.val ∧ s.Holds i ∧ s.fileOf (s.fd_table i).refNum = some n) ∨ s.fileOf p = some n
  idle : s.fd_table_initialized = false → ∀ n < s.ledger.opens, 0 < s.ledger.closes n

theorem Tracked.start (mac : fm.State) (socket_inUse : Fin MAX_SOCKETS → Bool)
    (hzero : fm.isOpen mac 0 = false) : (start mac socket_inUse : FileState fm).Tracked 0 where
  stems_lt _ _ h := by cases h
  stems_inj _ _ _ h := by cases h
  unclosed _ _ h := by cases (fileOf_eq_some.mp h).2
  closes_le _ _ := rfl
  known _ h := by cases hzero.symm.trans h
  stdio _ h := by cases h
  free _ _ := rfl
  held n hn := absurd hn (Nat.not_lt_zero n)
  idle _ n hn := absurd hn (Nat.not_lt_zero n)

/-- A call that opens and closes nothing and leaves the table as it is. -/
theorem Tracked.same (h : s.Tracked p) (htable : t.fd_table = s.fd_table)
    (hopens : t.ledger.opens = s.ledger.opens) (hstems : t.ledger.stems = s.ledger.stems)
    (hcloses : t.ledger.closes = s.ledger.closes) (hmac : fm.isOpen t.mac = fm.isOpen s.mac)
    (hinit : t.fd_table_initialized = s.fd_table_initialized) : t.Tracked p := by
  have hfile : ∀ r, t.fileOf r = s.fileOf r := fun r => by rw [fileOf, fileOf, hmac, hstems]
  refine ⟨?_, ?_, fun r n hn => ?_, ?_, ?_, ?_, ?_, ?_, ?_⟩
  · rw [hopens, hstems]
    exact h.stems_lt
  · rw [hstems]
    exact h.stems_inj
  · rw [hfile] at hn
    rw [hcloses]
    exact h.unclosed r n hn
  · rw [hopens, hcloses]
    exact h.closes_le
  · rw [htable, hmac, hstems]
    exact h.known
  · rw [htable]
    exact h.stdio
  · rw [htable]
    exact h.free
  · simp only [Holds, htable, hfile, hopens, hcloses]
    exact h.held
  · rw [hinit, hopens, hcloses]
    exact h.idle

theorem Tracked.setErrno (h : s.Tracked p) (e : ℤ) : (s.setErrno e).Tracked p := h.same rfl rfl rfl rfl rfl rfl

theorem Tracked.install (h : s.Tracked p) (fd : Fd) (origin : ℕ) : (s.install fd origin).Tracked p :=
  h.same rfl rfl rfl rfl rfl rfl

/-- A call of the File Manager on a refNum. -/
theorem Tracked.call (h : s.Tracked p) {mac : fm.State} (hmac : fm.isOpen mac = fm.isOpen s.mac) :
    ({ s.noteUse o r with mac } : FileState fm).Tracked p := h.same rfl rfl rfl rfl hmac rfl

/-! ### FSpOpenDF and FSClose -/

theorem Tracked.openFailed (hfm : fm.Lawful) (h : s.Tracked p) (spec : FSSpec) (perm : Permission)
    (herr : (s.FSpOpenDF spec perm).1.1 ≠ noErr) : (s.FSpOpenDF spec perm).2.Tracked p := by
  have hledger : (s.FSpOpenDF spec perm).2.ledger = s.ledger := if_neg herr
  exact h.same rfl (by rw [hledger]) (by rw [hledger]) (by rw [hledger]) (hfm.open_failed spec perm s.mac herr) rfl

theorem fileOf_zero (hfm : fm.Lawful) (s : FileState fm) : s.fileOf 0 = none := by
  rw [fileOf, hfm.zero]
  rfl

theorem Tracked.opened (hfm : fm.Lawful) (h : s.Tracked 0) (hinit : s.fd_table_initialized = true)
    {spec : FSSpec} {perm : Permission} {t : FileState fm} (hcall : s.FSpOpenDF spec perm = ((noErr, r), t)) :
    t.Tracked r ∧ t.fd_table_initialized = true ∧ t.fileOf r = some s.ledger.opens := by
  have hout := handsOut hfm hcall
  have hholds : ∀ i, s.Holds i → t.Holds i := fun i hi => by rwa [Holds, hout.table]
  have hnew : t.fileOf r = some s.ledger.opens := (hout.fileOf r _).mpr (.inr ⟨rfl, rfl⟩)
  refine ⟨⟨hout.stems_lt h.stems_lt, hout.stems_inj h.stems_lt h.stems_inj, hout.unclosed h.unclosed h.closes_le,
    fun n hn => ?_, fun i hi => ?_, ?_, ?_, fun n hn hzero => ?_, fun habs => ?_⟩,
    hout.initialized.trans hinit, hnew⟩
  · rw [hout.closes]
    rw [hout.opens] at hn
    exact h.closes_le n (Nat.le_of_succ_le hn)
  · rw [hout.table] at hi ⊢
    rcases eq_or_ne (s.fd_table i).refNum r with heq | hne
    · exact Option.isSome_iff_exists.mpr ⟨_, heq ▸ hout.stem⟩
    · rw [hout.other _ hne]
      exact h.known i (((hout.isOpen _).mp hi).resolve_right hne)
  · rw [hout.table]
    exact h.stdio
  · rw [hout.table]
    exact h.free
  · rw [hout.opens] at hn
    rw [hout.closes] at hzero
    rcases Nat.lt_succ_iff_lt_or_eq.mp hn with hlt | rfl
    · rcases h.held n hlt hzero with ⟨i, hge, hi, hin⟩ | hpending
      · refine .inl ⟨i, hge, hholds i hi, (hout.fileOf _ _).mpr (.inl ?_)⟩
        rw [hout.table]
        exact hin
      · cases (fileOf_zero hfm s).symm.trans hpending
    · exact .inr hnew
  · cases (hout.initialized.trans hinit).symm.trans habs

theorem FSClose_closes (s : FileState fm) (o : ℕ) (r : RefNum) (n : ℕ) : (s.FSClose o r).2.ledger.closes n =
    if s.ledger.stems r = some n then s.ledger.closes n + 1 else s.ledger.closes n := by
  change ((s.noteUse o r).ledger.closed r).closes n = _
  rw [Ledger.closed]
  rcases hstem : s.ledger.stems r with _ | m
  · rw [show (s.noteUse o r).ledger.stems r = none from hstem, if_neg (by simp)]
    rfl
  · rw [show (s.noteUse o r).ledger.stems r = some m from hstem]
    change Function.update s.ledger.closes m (s.ledger.closes m + 1) n = _
    rcases eq_or_ne n m with rfl | hne
    · rw [Function.update_self, if_pos rfl]
    · rw [Function.update_of_ne hne, if_neg fun heq => hne (Option.some.inj heq).symm]

theorem FSClose_opens (o : ℕ) (r : RefNum) : (s.FSClose o r).2.ledger.opens = s.ledger.opens := by
  change ((s.noteUse o r).ledger.closed r).opens = _
  rw [Ledger.closed]
  split <;> rfl

/-- The refNum no entry need hold is closed. -/
theorem Tracked.closed (hfm : fm.Lawful) (h : s.Tracked r) (o : ℕ) : (s.FSClose o r).2.Tracked 0 := by
  have hother : ∀ n, s.ledger.stems r ≠ some n → (s.FSClose o r).2.ledger.closes n = s.ledger.closes n :=
    fun n hn => (FSClose_closes s o r n).trans (if_neg hn)
  have hmono : ∀ n, s.ledger.closes n ≤ (s.FSClose o r).2.ledger.closes n := by
    intro n
    rw [FSClose_closes]
    split <;> omega
  refine ⟨fun q n hn => ?_, fun q q' n hn hn' => ?_, fun q n hn => ?_, fun n hn => ?_, fun i hi => ?_, h.stdio,
    h.free, fun n hn hzero => ?_, fun hinit n hn => ?_⟩
  · rw [FSClose_stems] at hn
    rw [FSClose_opens]
    exact h.stems_lt q n hn
  · rw [FSClose_stems] at hn hn'
    exact h.stems_inj q q' n hn hn'
  · obtain ⟨hold, hne⟩ := (FSClose_fileOf hfm).mp hn
    rw [hother n fun hstem => hne (h.stems_inj q r n (fileOf_eq_some.mp hold).2 hstem)]
    exact h.unclosed q n hold
  · rw [FSClose_opens] at hn
    rw [hother n fun hstem => absurd (h.stems_lt r n hstem) (Nat.not_lt.mpr hn)]
    exact h.closes_le n hn
  · rw [FSClose_stems]
    exact h.known i ((FSClose_isOpen hfm o r _).mp hi).1
  · rw [FSClose_opens] at hn
    have hstem : s.ledger.stems r ≠ some n := by
      intro hstem
      rw [FSClose_closes, if_pos hstem] at hzero
      omega
    rw [hother n hstem] at hzero
    rcases h.held n hn hzero with ⟨i, hge, hi, hin⟩ | hpending
    · refine .inl ⟨i, hge, hi, (FSClose_fileOf hfm).mpr ⟨hin, fun heq => hstem ?_⟩⟩
      exact heq ▸ (fileOf_eq_some.mp hin).2
    · exact absurd (fileOf_eq_some.mp hpending).2 hstem
  · rw [FSClose_opens] at hn
    exact Nat.lt_of_lt_of_le (h.idle hinit n hn) (hmono n)

/-! ### Entries -/

theorem Tracked.weaken (hfm : fm.Lawful) (h : s.Tracked 0) (p : RefNum) : s.Tracked p := by
  refine ⟨h.stems_lt, h.stems_inj, h.unclosed, h.closes_le, h.known, h.stdio, h.free, fun n hn hzero => ?_,
    h.idle⟩
  refine (h.held n hn hzero).imp_right fun hpending => ?_
  cases (fileOf_zero hfm s).symm.trans hpending

/-- The refNum that no entry need hold is held. -/
theorem Tracked.settle (h : s.Tracked p) (hge : 3 ≤ i.val) (hi : s.Holds i) (hp : (s.fd_table i).refNum = p) :
    s.Tracked 0 :=
  ⟨h.stems_lt, h.stems_inj, h.unclosed, h.closes_le, h.known, h.stdio, h.free,
    fun n hn hzero => .inl <| (h.held n hn hzero).elim id fun hpending => ⟨i, hge, hi, hp ▸ hpending⟩, h.idle⟩

/-- An entry is written, and `p` is the refNum it held, if it held one. -/
theorem Tracked.put (h : s.Tracked p) (hi : s.Holds i → (s.fd_table i).refNum = p)
    (hstdio : e.isStdio = true → e.inUse = true) (hfree : e.inUse = false → e.refNum = 0)
    (hknown : fm.isOpen s.mac e.refNum = true → (s.ledger.stems e.refNum).isSome = true) :
    (s.setEntry i e).Tracked p := by
  have hself : (s.setEntry i e).fd_table i = e := setEntry_self e
  have hother : ∀ k, k ≠ i → (s.setEntry i e).fd_table k = s.fd_table k := fun k hne => setEntry_of_ne hne e
  refine ⟨h.stems_lt, h.stems_inj, h.unclosed, h.closes_le, fun k hk => ?_, fun k hk => ?_, fun k hk => ?_,
    fun n hn hzero => ?_, h.idle⟩
  · rcases eq_or_ne k i with rfl | hne
    · rw [hself] at hk ⊢
      exact hknown hk
    · rw [hother k hne] at hk ⊢
      exact h.known k hk
  · rcases eq_or_ne k i with rfl | hne
    · rw [hself] at hk ⊢
      exact hstdio hk
    · rw [hother k hne] at hk ⊢
      exact h.stdio k hk
  · rcases eq_or_ne k i with rfl | hne
    · rw [hself] at hk ⊢
      exact hfree hk
    · rw [hother k hne] at hk ⊢
      exact h.free k hk
  · rcases h.held n hn hzero with ⟨k, hge, hk, hin⟩ | hpending
    · rcases eq_or_ne k i with rfl | hne
      · exact .inr (hi hk ▸ hin)
      · refine .inl ⟨k, hge, ?_, ?_⟩
        · rw [Holds, hother k hne]
          exact hk
        · rw [hother k hne]
          exact hin
    · exact .inr hpending

theorem Tracked.init (hfm : fm.Lawful) (h : s.Tracked p) :
    s.init_fd_table.Tracked p ∧ s.init_fd_table.fd_table_initialized = true := by
  rcases hinit : s.fd_table_initialized with _ | _
  case true =>
    rw [init_of_initialized hinit]
    exact ⟨h, hinit⟩
  rw [init_fd_table, hinit]
  refine ⟨⟨h.stems_lt, h.stems_inj, h.unclosed, h.closes_le, fun i hi => ?_, fun i hi => hi, fun _ _ => rfl,
    fun n hn hzero => ?_, fun habs => by cases habs⟩, rfl⟩
  · cases (hfm.zero s.mac).symm.trans hi
  · exact absurd hzero (Nat.pos_iff_ne_zero.mp (h.idle hinit n hn))

/-! ### The calls -/

theorem Tracked.closeEntry (hfm : fm.Lawful) (h : s.Tracked 0) (i : Fd) (huse : (s.fd_table i).inUse = true) :
    (s.closeEntry i).2.Tracked 0 := by
  rcases hstdio : (s.fd_table i).isStdio with _ | _
  · obtain ⟨e, he⟩ := closeEntry_holds ⟨huse, hstdio⟩
    have hfreed : (s.setEntry i { s.fd_table i with inUse := false, refNum := 0 }).Tracked
        (s.fd_table i).refNum := by
      refine (h.weaken hfm _).put (fun _ => rfl) (fun habs => ?_) (fun _ => rfl) (fun habs => ?_)
      · cases hstdio.symm.trans habs
      · cases (hfm.zero s.mac).symm.trans habs
    rw [he]
    exact (hfreed.closed hfm _).setErrno e
  · rw [FileState.closeEntry, if_pos hstdio]
    exact h

theorem Tracked.close (hfm : fm.Lawful) (h : s.Tracked 0) (fd : ℤ) : (s.close fd).2.Tracked 0 := by
  rw [FileState.close]
  split
  · rw [posix9_close_socket]
    split
    · split
      · exact h.same rfl rfl rfl rfl rfl rfl
      · exact h.setErrno _
    · exact h.setErrno _
  · split
    · exact h.setErrno _
    · rename_i i hi
      exact h.closeEntry hfm i (get_fd_entry_eq_some.mp hi).2

theorem Tracked.seekEnd (hfm : fm.Lawful) (h : s.Tracked p) (flags : BitVec 32) (o : ℕ) (r : RefNum) :
    (s.seekEnd flags o r).Tracked p := by
  rw [FileState.seekEnd]
  split
  · exact h.call (hfm.setFPos r .fsFromLEOF 0 s.mac)
  · exact h

theorem Tracked.read (hfm : fm.Lawful) (h : s.Tracked p) (fd : ℤ) (count : ℕ) :
    (s.read fd count).2.Tracked p := by
  rw [FileState.read]
  split
  · exact h.setErrno _
  rename_i i _
  dsimp only
  split
  · exact h.setErrno _
  have hread : (s.FSRead (s.ledger.origin i) (s.fd_table i).refNum count).2.Tracked p :=
    h.call (hfm.read _ count s.mac)
  split
  · exact hread
  · split
    · exact hread.setErrno _
    · exact hread

theorem Tracked.write (hfm : fm.Lawful) (h : s.Tracked p) (fd : ℤ) (buf : List UInt8) :
    (s.write fd buf).2.Tracked p := by
  rw [FileState.write]
  split
  · exact h.setErrno _
  rename_i i _
  dsimp only
  split
  · split
    · exact h
    · exact h.setErrno _
  have hseek := h.seekEnd hfm (s.fd_table i).flags (s.ledger.origin i) (s.fd_table i).refNum
  have hwrite := hseek.call (o := s.ledger.origin i) (r := (s.fd_table i).refNum)
    (hfm.write (s.fd_table i).refNum buf _)
  split
  · exact hwrite.setErrno _
  · exact hwrite

theorem Tracked.lseek (hfm : fm.Lawful) (h : s.Tracked p) (fd offset whence : ℤ) :
    (s.lseek fd offset whence).2.Tracked p := by
  rw [FileState.lseek]
  split
  · exact h.setErrno _
  rename_i i _
  dsimp only
  split
  · exact h.setErrno _
  split
  · exact h.setErrno _
  rename_i mode _
  have hseek : (s.SetFPos (s.ledger.origin i) (s.fd_table i).refNum mode offset).2.Tracked p :=
    h.call (hfm.setFPos _ mode offset s.mac)
  split
  · exact hseek.setErrno _
  · split
    · exact hseek.setErrno _
    · exact hseek

theorem Tracked.ftruncate (hfm : fm.Lawful) (h : s.Tracked p) (fd length : ℤ) :
    (s.ftruncate fd length).2.Tracked p := by
  rw [FileState.ftruncate]
  split
  · exact h.setErrno _
  rename_i i _
  dsimp only
  split
  · exact h.setErrno _
  have hset : (s.SetEOF (s.ledger.origin i) (s.fd_table i).refNum length).2.Tracked p :=
    h.call (hfm.setEOF _ length s.mac)
  split
  · exact hset.setErrno _
  · exact hset

theorem Tracked.openFork (hfm : fm.Lawful) (h : s.Tracked 0) (hinit : s.fd_table_initialized = true)
    (flags : BitVec 32) (spec : FSSpec) : (s.openFork flags spec).2.Tracked 0 := by
  rcases hcall : s.FSpOpenDF spec (permission flags) with ⟨⟨err, refNum⟩, s₁⟩
  rw [FileState.openFork, hcall]
  dsimp only
  split
  · rename_i herr
    have hfailed := h.openFailed hfm spec (permission flags)
    rw [hcall] at hfailed
    exact (hfailed herr).setErrno _
  rename_i hok
  obtain rfl := not_not.mp hok
  obtain ⟨hopened, hinit₁, hfile⟩ := h.opened hfm hinit hcall
  generalize s₁.ledger.opens - 1 = origin
  have htrunc : (if has flags O_TRUNC then (s₁.SetEOF origin refNum 0).2 else s₁).Tracked refNum ∧
      (if has flags O_TRUNC then (s₁.SetEOF origin refNum 0).2 else s₁).fd_table_initialized = true ∧
      (if has flags O_TRUNC then (s₁.SetEOF origin refNum 0).2 else s₁).ledger.stems = s₁.ledger.stems := by
    split
    · exact ⟨hopened.call (hfm.setEOF refNum 0 s₁.mac), hinit₁, rfl⟩
    · exact ⟨hopened, hinit₁, rfl⟩
  generalize (if has flags O_TRUNC then (s₁.SetEOF origin refNum 0).2 else s₁) = s₂ at htrunc ⊢
  obtain ⟨htrunc, hinit₂, hstems⟩ := htrunc
  have hend := htrunc.seekEnd hfm flags origin refNum
  have hsame : (s₂.seekEnd flags origin refNum).fd_table_initialized = true ∧
      (s₂.seekEnd flags origin refNum).ledger.stems = s₁.ledger.stems := by
    rw [FileState.seekEnd]
    split <;> exact ⟨hinit₂, hstems⟩
  have hstem : ((s₂.seekEnd flags origin refNum).ledger.stems refNum).isSome = true := by
    rw [hsame.2, (fileOf_eq_some.mp hfile).2]
    rfl
  generalize s₂.seekEnd flags origin refNum = s₃ at *
  rcases alloc_fd_cases s₃ with ⟨i, hslot, hfree, halloc⟩ | ⟨-, halloc⟩ <;>
    rw [halloc, init_of_initialized hsame.1]
  · rw [init_of_initialized hsame.1] at hfree
    dsimp only
    rw [setEntry_setEntry, setEntry_self]
    have hnotStdio : (s₃.fd_table i).isStdio = false := by
      refine Bool.eq_false_iff.mpr fun hstdio => ?_
      cases hfree.symm.trans (hend.stdio i hstdio)
    have hput := hend.put (i := i) (e := { s₃.fd_table i with
        inUse := true, refNum, vRefNum := spec.vRefNum, dirID := spec.parID, flags
        name := p_to_cstr spec.name 64 }) (fun hi => by cases hfree.symm.trans hi.1) (fun _ => rfl)
      (fun habs => by cases habs) (fun _ => hstem)
    refine (hput.settle (mem_slots.mp hslot) ⟨?_, ?_⟩ ?_).install i origin
    · rw [setEntry_self]
    · rw [setEntry_self]
      exact hnotStdio
    · rw [setEntry_self]
  · exact (hend.setErrno _).closed hfm origin

theorem Tracked.open_ (hfm : fm.Lawful) (h : s.Tracked 0) (path : CStr) (flags : BitVec 32) :
    (s.open_ path flags).2.Tracked 0 := by
  have hresolved : ∀ {t : FileState fm}, t.Tracked 0 → t.fd_table_initialized = true → ∀ err spec,
      (t.openResolved flags err spec).2.Tracked 0 := by
    intro t ht hinit err spec
    rw [openResolved]
    split
    · exact ht.setErrno _
    · split
      · exact ht.setErrno _
      · exact ht.openFork hfm hinit flags spec
  obtain ⟨hstart, hinit⟩ := h.init hfm
  rw [FileState.open_]
  dsimp only
  split
  · have hcreate : ∀ spec, (s.init_fd_table.FSpCreate spec).2.Tracked 0 := fun spec =>
      hstart.same rfl rfl rfl rfl (hfm.create spec _) rfl
    split
    · exact (hcreate _).setErrno _
    · exact hresolved (hcreate _) hinit _ _
  · exact hresolved hstart hinit _ _

theorem Tracked.dup (hfm : fm.Lawful) (h : s.Tracked 0) (oldfd : ℤ) : (s.dup oldfd).2.Tracked 0 := by
  obtain ⟨hstart, -⟩ := h.init hfm
  rw [FileState.dup]
  split
  · exact h.setErrno _
  rename_i old _
  rcases alloc_fd_cases s with ⟨i, -, hfree, halloc⟩ | ⟨-, halloc⟩ <;> rw [halloc]
  · dsimp only
    rw [copyEntry, setEntry_setEntry]
    have hput : ∀ e, (e.isStdio = true → e.inUse = true) → (e.inUse = false → e.refNum = 0) →
        (fm.isOpen s.init_fd_table.mac e.refNum = true →
          (s.init_fd_table.ledger.stems e.refNum).isSome = true) →
        ((s.init_fd_table.setEntry i e).install i (s.init_fd_table.ledger.origin old)).Tracked 0 :=
      fun e hstdio hnot hknown =>
        (hstart.put (fun hi => by cases hfree.symm.trans hi.1) hstdio hnot hknown).install i _
    rcases eq_or_ne old i with rfl | hne
    · refine hput _ (fun _ => ?_) (fun hnot => ?_) (fun hopen => ?_) <;> rw [setEntry_self] at *
      · cases hnot
      · rw [hstart.free old hfree] at hopen
        cases (hfm.zero _).symm.trans hopen
    · refine hput _ (fun hstdio => ?_) (fun hnot => ?_) (fun hopen => ?_) <;> rw [setEntry_of_ne hne] at *
      · exact hstart.stdio old hstdio
      · exact hstart.free old hnot
      · exact hstart.known old hopen
  · exact hstart.setErrno _

theorem Tracked.overwrite (h : s.Tracked 0) (hi : ¬ s.Holds i) : (s.overwrite j i).Tracked 0 := by
  have hput := h.put (i := i) (e := { s.fd_table j with inUse := true }) (fun habs => absurd habs hi)
    (fun _ => rfl) (fun habs => by cases habs) (h.known j)
  refine (hput.install i (s.ledger.origin j)).same (funext fun k => ?_) rfl rfl rfl rfl rfl
  rcases eq_or_ne k i with rfl | hne
  · rw [overwrite_self]
    exact (setEntry_self _).symm
  · rw [overwrite_of_ne hne]
    exact (setEntry_of_ne hne _).symm

theorem Tracked.dup2 (hfm : fm.Lawful) (h : s.Tracked 0) (oldfd newfd : ℤ) :
    (s.dup2 oldfd newfd).2.Tracked 0 := by
  rcases hold : s.get_fd_entry oldfd with _ | old
  · rw [FileState.dup2, hold]
    exact h.setErrno _
  by_cases hrange : 0 ≤ newfd ∧ newfd < POSIX9_OPEN_MAX
  · obtain ⟨new, rfl⟩ : ∃ new : Fd, newfd = new.val :=
      ⟨⟨newfd.toNat, by omega⟩, (Int.toNat_of_nonneg hrange.1).symm⟩
    rw [dup2_eq hold rfl]
    split
    · rename_i hheld
      have hclosed := closeEntry_closedTo (s := s) (i := new) hfm ⟨hheld.1, by simpa using hheld.2⟩
      exact (h.closeEntry hfm new hheld.1).overwrite fun hnew => (hclosed.holds.mp hnew).1 rfl
    · rename_i hheld
      exact h.overwrite fun hnew => hheld ⟨hnew.1, by simp [hnew.2]⟩
  · rw [FileState.dup2, hold]
    dsimp only
    rw [dif_neg hrange]
    exact h.setErrno _

/-! ### posix9_cleanup -/

/-- What a stretch of its loop closes. -/
structure Swept (l : List Fd) (s t : FileState fm) : Prop where
  tracked : t.Tracked 0
  isOpen : ∀ r, fm.isOpen t.mac r = true ↔
    fm.isOpen s.mac r = true ∧ ∀ j ∈ l, s.Holds j → (s.fd_table j).refNum ≠ r
  entry : ∀ j, t.fd_table j = s.fd_table j ∨ j ∈ l ∧ s.Holds j ∧ (t.fd_table j).inUse = false
  swept : ∀ j ∈ l, ¬ t.Holds j
  opens : t.ledger.opens = s.ledger.opens

theorem Swept.not_holds (h : Swept l s t) (hj : ¬ s.Holds j) : ¬ t.Holds j := by
  intro hheld
  rcases h.entry j with heq | ⟨-, -, hfree⟩
  · rw [Holds, heq] at hheld
    exact hj hheld
  · cases hfree.symm.trans hheld.1

theorem swept_cleanup (hfm : fm.Lawful) (h : s.Tracked 0) (l : List Fd) :
    Swept l s (l.foldl cleanupEntry s) := by
  induction l generalizing s with
  | nil =>
    refine ⟨h, fun r => by simp, fun _ => .inl rfl, fun j hj => ?_, rfl⟩
    cases hj
  | cons i l ih =>
    rw [List.foldl_cons]
    rcases cleanupEntry_cases hfm s i with ⟨hno, heq⟩ | ⟨hi, heq, hclosed⟩
    · rw [heq]
      have hrest := ih h
      refine ⟨hrest.tracked, fun r => ?_, fun j => ?_, fun j hj => ?_, hrest.opens⟩
      · rw [hrest.isOpen]
        simp [hno]
      · exact (hrest.entry j).imp_right fun hj => ⟨List.mem_cons_of_mem _ hj.1, hj.2⟩
      · rcases List.mem_cons.mp hj with rfl | hj
        · exact hrest.not_holds hno
        · exact hrest.swept j hj
    · have hnext : (s.cleanupEntry i).Tracked 0 := heq ▸ h.closeEntry hfm i hi.1
      have hrest := ih hnext
      have hopens : (s.cleanupEntry i).ledger.opens = s.ledger.opens := by
        obtain ⟨e, he⟩ := closeEntry_holds hi
        rw [heq, he]
        exact FSClose_opens _ _
      refine ⟨hrest.tracked, fun r => ?_, fun j => ?_, fun j hj => ?_, hrest.opens.trans hopens⟩
      · rw [hrest.isOpen, hclosed.isOpen]
        constructor
        · rintro ⟨⟨hopen, hne⟩, hothers⟩
          refine ⟨hopen, fun j hj hheld => ?_⟩
          rcases eq_or_ne j i with rfl | hji
          · exact hne.symm
          · have hmem := (List.mem_cons.mp hj).resolve_left hji
            exact hclosed.other j hji ▸ hothers j hmem (hclosed.holds.mpr ⟨hji, hheld⟩)
        · rintro ⟨hopen, hothers⟩
          refine ⟨⟨hopen, (hothers i List.mem_cons_self hi).symm⟩, fun j hj hheld => ?_⟩
          obtain ⟨hji, hheld⟩ := hclosed.holds.mp hheld
          exact hclosed.other j hji ▸ hothers j (List.mem_cons_of_mem _ hj) hheld
      · rcases hrest.entry j with hsame | ⟨hj, hheld, hfree⟩
        · rcases eq_or_ne j i with rfl | hji
          · rw [hsame, hclosed.entry]
            exact .inr ⟨List.mem_cons_self, hi, rfl⟩
          · exact .inl (hsame.trans (hclosed.other j hji))
        · exact .inr ⟨List.mem_cons_of_mem _ hj, (hclosed.holds.mp hheld).2, hfree⟩
      · rcases List.mem_cons.mp hj with rfl | hj
        · exact hrest.not_holds fun hheld => (hclosed.holds.mp hheld).1 rfl
        · exact hrest.swept j hj

/-- Every file that open() has opened has been closed, and no descriptor above 2 is valid. -/
structure AllClosed (s : FileState fm) : Prop where
  files : ∀ n < s.ledger.opens, 0 < s.ledger.closes n
  fds : ∀ fd, 2 < fd → s.get_fd_entry fd = none

/-- No descriptor above 2 is a copy of a stdio descriptor. -/
def NoStdioCopy (s : FileState fm) : Prop :=
  ∀ i : Fd, 3 ≤ i.val → (s.fd_table i).inUse = true → (s.fd_table i).isStdio = false

instance (s : FileState fm) : Decidable s.NoStdioCopy :=
  inferInstanceAs (Decidable
    (∀ i : Fd, 3 ≤ i.val → (s.fd_table i).inUse = true → (s.fd_table i).isStdio = false))

theorem Swept.fds_iff (h : Swept slots s t) : (∀ fd, 2 < fd → t.get_fd_entry fd = none) ↔ s.NoStdioCopy := by
  constructor
  · intro hfds i hi huse
    by_contra hstdio
    rcases h.entry i with hsame | ⟨-, hheld, -⟩
    · have hvalid : t.get_fd_entry i.val = some i := get_fd_entry_eq_some.mpr ⟨rfl, hsame ▸ huse⟩
      cases (hfds i.val (by omega)).symm.trans hvalid
    · exact hstdio hheld.2
  · intro hstdio fd hfd
    rw [Option.eq_none_iff_forall_not_mem]
    intro i hi
    obtain ⟨rfl, huse⟩ := get_fd_entry_eq_some.mp hi
    have hi : 3 ≤ i.val := by omega
    have hheld := h.swept i (mem_slots.mpr hi)
    rcases h.entry i with hsame | ⟨-, -, hfree⟩
    · rw [Holds, hsame] at hheld
      rw [hsame] at huse
      exact hheld ⟨huse, hstdio i hi huse⟩
    · cases hfree.symm.trans huse

/-- No file stays open: each has an entry that the loop has come to. -/
theorem Swept.files (hfm : fm.Lawful) (h : Swept slots s t) : ∀ n < t.ledger.opens, 0 < t.ledger.closes n := by
  intro n hn
  refine Nat.pos_of_ne_zero fun hzero => ?_
  rcases h.tracked.held n hn hzero with ⟨i, hge, hi, -⟩ | hpending
  · exact h.swept i (mem_slots.mpr hge) hi
  · cases (fileOf_zero hfm t).symm.trans hpending

theorem cleanup_allClosed (hfm : fm.Lawful) (h : s.Tracked 0) :
    s.posix9_cleanup.AllClosed ↔ s.NoStdioCopy := by
  have hswept := swept_cleanup hfm h slots
  rw [posix9_cleanup]
  generalize slots.foldl cleanupEntry s = t at hswept ⊢
  have hfiles := hswept.files hfm
  constructor
  · rintro ⟨-, hfds⟩
    exact hswept.fds_iff.mp hfds
  · intro hstdio
    exact ⟨hfiles, hswept.fds_iff.mpr hstdio⟩

theorem Tracked.cleanup (hfm : fm.Lawful) (h : s.Tracked 0) : s.posix9_cleanup.Tracked 0 := by
  have hswept := swept_cleanup hfm h slots
  rw [posix9_cleanup]
  generalize slots.foldl cleanupEntry s = t at hswept ⊢
  have ht := hswept.tracked
  have hfiles := hswept.files hfm
  exact ⟨ht.stems_lt, ht.stems_inj, ht.unclosed, ht.closes_le, ht.known, ht.stdio, ht.free, ht.held,
    fun _ => hfiles⟩

theorem Tracked.step (hfm : fm.Lawful) (h : s.Tracked 0) (c : FileCall) : (s.step c).Tracked 0 := by
  cases c with
  | open_ path flags => exact h.open_ hfm path flags
  | close fd => exact h.close hfm fd
  | read fd count => exact h.read hfm fd count
  | write fd buf => exact h.write hfm fd buf
  | lseek fd offset whence => exact h.lseek hfm fd offset whence
  | ftruncate fd length => exact h.ftruncate hfm fd length
  | dup oldfd => exact h.dup hfm oldfd
  | dup2 oldfd newfd => exact h.dup2 hfm oldfd newfd
  | posix9_cleanup => exact h.cleanup hfm

end FileState

namespace IoState

open Runs

variable {fm : FileManager} {ot : OpenTransport} {s : IoState fm ot} {a : IoInput}

/-! ### The law -/

/-- Nothing that open, socket or accept has opened is open, and no descriptor above 2 is valid. -/
structure Released (s : IoState fm ot) : Prop where
  files : s.files.AllClosed
  endpoints : ∀ ep, SocketState.ledgerOf ep s.sockets.log = some false
  sockets : ∀ fd, s.sockets.get_socket fd = none

/-- posix9_cleanup releases everything. -/
def CleansUp (s : IoState fm ot) (a : IoInput) : Prop :=
  a = .file .posix9_cleanup → s.sockets.underWay = none → (s.step a).Released

/-- It is called where no socket is open and no descriptor above 2 is a copy of a stdio descriptor. -/
def FindsAll (s : IoState fm ot) (a : IoInput) : Prop :=
  a = .file .posix9_cleanup → s.sockets.underWay = none →
    s.files.NoStdioCopy ∧ ∀ i, (s.sockets.socket_table i).inUse = false

/-! ### Runs -/

/-- What carries it. -/
structure Kept (s : IoState fm ot) : Prop where
  files : s.files.Tracked 0
  sockets : s.sockets.Owned

theorem owned_setErrno {t : SocketState ot} (h : t.Owned) (e : ℤ) : (t.setErrno e).Owned :=
  ⟨⟨h.ledger, h.distinct, h.isOpen⟩, h.initialized, h.valid⟩

theorem Kept.start (hfm : fm.Lawful) (mac : fm.State) (net : ot.State) : (start mac net : IoState fm ot).Kept :=
  ⟨(FileState.Tracked.start mac _ (hfm.zero mac)).same rfl rfl rfl rfl rfl rfl, .start net⟩

theorem tracked_join {files : FileState fm} (h : files.Tracked 0) (sockets : SocketState ot) :
    (join files sockets).files.Tracked 0 := h.same rfl rfl rfl rfl rfl rfl

/-- Whatever is called, on either side, the socket side keeps the law of its endpoints. -/
theorem owned_step (hot : ot.Lawful) (hs : s.sockets.Owned) (a : IoInput) : (s.step a).sockets.Owned := by
  cases a with
  | socket a => exact hs.step hot a
  | file c =>
    unfold IoState.step
    dsimp only
    split
    · exact hs
    rename_i hidle
    split
    · rename_i fd
      rw [close]
      split
      · have hclose := hs.step hot (.call (.close fd))
        rwa [SocketState.step, if_neg hidle] at hclose
      · exact owned_setErrno hs _
    · exact owned_setErrno hs _

theorem tracked_step (hfm : fm.Lawful) (h : s.files.Tracked 0) (a : IoInput) : (s.step a).files.Tracked 0 := by
  cases a with
  | socket a => exact tracked_join h _
  | file c =>
    unfold IoState.step
    dsimp only
    split
    · exact h
    split
    · rename_i fd
      rw [close]
      split
      · exact tracked_join h _
      · exact tracked_join (h.close hfm fd) _
    · exact tracked_join (h.step hfm _) _

theorem Kept.step (hfm : fm.Lawful) (hot : ot.Lawful) (h : s.Kept) (a : IoInput) : (s.step a).Kept :=
  ⟨tracked_step hfm h.files a, owned_step hot h.sockets a⟩

theorem sockets_released (hs : s.sockets.Owned) : ((∀ ep, SocketState.ledgerOf ep s.sockets.log = some false) ∧
    ∀ fd, s.sockets.get_socket fd = none) ↔ ∀ i, (s.sockets.socket_table i).inUse = false := by
  constructor
  · rintro ⟨-, hnone⟩ i
    refine Bool.eq_false_iff.mpr fun hi => ?_
    cases (hnone (SocketState.sockFd i)).symm.trans (SocketState.get_socket_sockFd hi)
  · intro hfree
    refine ⟨fun ep => ?_, fun fd => ?_⟩
    · rw [hs.ledger]
      refine congrArg some (decide_eq_false ?_)
      rintro ⟨i, hi, -⟩
      cases (hfree i).symm.trans hi
    · rw [Option.eq_none_iff_forall_not_mem]
      intro i hi
      cases (hfree i).symm.trans (SocketState.get_socket_inUse hi)

theorem cleansUp_iff (hfm : fm.Lawful) (h : s.Kept) (a : IoInput) : s.CleansUp a ↔ s.FindsAll a := by
  refine forall_congr' fun ha => forall_congr' fun hidle => ?_
  subst ha
  obtain ⟨e, hstep⟩ : ∃ e, s.step (.file .posix9_cleanup) =
      join (s.files.step .posix9_cleanup) (s.sockets.setErrno e) := by
    unfold IoState.step
    dsimp only
    rw [hidle]
    exact ⟨_, rfl⟩
  have hfiles := FileState.cleanup_allClosed hfm h.files
  have hsockets := sockets_released h.sockets
  rw [hstep, FileState.step]
  generalize s.files.posix9_cleanup = t at hfiles ⊢
  have hsame : (join t (s.sockets.setErrno e)).files.AllClosed ↔ t.AllClosed :=
    ⟨fun hall => ⟨hall.files, hall.fds⟩, fun hall => ⟨hall.files, hall.fds⟩⟩
  constructor
  · rintro ⟨hall, hends, hnone⟩
    exact ⟨hfiles.mp (hsame.mp hall), hsockets.mp ⟨hends, hnone⟩⟩
  · rintro ⟨hreach, hfree⟩
    obtain ⟨hends, hnone⟩ := hsockets.mpr hfree
    exact ⟨hsame.mpr (hfiles.mpr hreach), hends, hnone⟩

/-- posix9_cleanup releases everything, each time it is called, in exactly the runs that call it only when no
    socket is open and no stdio descriptor has a copy above 2. -/
theorem cleansUp_iff_findsAll (hfm : fm.Lawful) (hot : ot.Lawful) (mac : fm.State) (net : ot.State)
    (inputs : List IoInput) :
    Meets step CleansUp (start mac net) inputs ↔ Meets step FindsAll (start mac net) inputs :=
  meets_iff (fun _ a hs _ => hs.step hfm hot a) (fun _ a hs => cleansUp_iff hfm hs a) (Kept.start hfm mac net)

/-- Two files, one of them also on descriptor 1, and a socket that is closed in time. -/
theorem cleansUp_copied : Meets step CleansUp (start [] Wire.idle : IoState bareDisk wire)
    [.file (.open_ "a".toList O_RDWR), .file (.open_ "b".toList O_RDWR), .file (.dup2 3 1),
      .socket (.call (.socket AF_INET SOCK_STREAM 0)), .file (.close 1000), .file .posix9_cleanup] := by
  refine (@cleansUp_iff_findsAll bareDisk wire bareDisk_lawful wire_lawful [] Wire.idle _).mpr
    ⟨?_, ?_, ?_, ?_, ?_, fun _ _ => ⟨?_, ?_⟩, trivial⟩
  iterate 5
    intro h
    cases h
  all_goals decide +kernel

/-- A socket outlives it. -/
theorem left_open : ¬ Meets step CleansUp (start [] Wire.idle : IoState bareDisk wire)
    [.socket (.call (.socket AF_INET SOCK_STREAM 0)), .file .posix9_cleanup] := by
  rintro ⟨-, hcleans, -⟩
  have hnone := (hcleans rfl (by decide +kernel)).sockets 1000
  exact absurd hnone (by decide +kernel)

end IoState

end Posix9
