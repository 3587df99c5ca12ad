import Mathlib.Data.List.ProdSigma
import Posix9.Lib.Bits
import Posix9.Readiness
import Posix9.SocketCalls

/-! select by the words of its sets. A set has room for the descriptors below FD_SETSIZE and descriptors of sockets
    begin at SOCKET_FD_BASE; apart from where it looks, the loop computes the ready subset and counts it. -/

namespace Posix9

open Runs

/-! ### Sets -/

def FD_SETSIZE : ℕ := 256

/-- The memory from `fds_bits` on, by words: what lies behind the set's own included. -/
abbrev FdWords := ℕ → BitVec 32

/-- `fds_bits` has `words` words. -/
def FD_ZERO (words : ℕ) (set : FdWords) : FdWords := fun k => if k < words then 0 else set k

def FD_SET (fd : ℕ) (set : FdWords) : FdWords :=
  Function.update set (fd / 32) (set (fd / 32) ||| 1#32 <<< (fd % 32))

def FD_ISSET (fd : ℕ) (set : FdWords) : Prop := set (fd / 32) &&& 1#32 <<< (fd % 32) ≠ 0#32

instance (fd : ℕ) (set : FdWords) : Decidable (FD_ISSET fd set) := inferInstanceAs (Decidable (_ ≠ _))

/-- The structure assignment `*set = result`. -/
def copySet (words : ℕ) (result set : FdWords) : FdWords := fun k => if k < words then result k else set k

theorem isset_iff {fd : ℕ} {set : FdWords} : FD_ISSET fd set ↔ Bits.Mem fd set :=
  Bits.and_mask_ne_zero (Nat.mod_lt fd (by decide))

theorem isset_set {fd n : ℕ} {set : FdWords} : FD_ISSET n (FD_SET fd set) ↔ n = fd ∨ FD_ISSET n set := by
  rw [isset_iff, isset_iff]
  exact Bits.mem_insert (by decide)

theorem isset_zero {words fd : ℕ} {set : FdWords} (hfd : fd / 32 < words) : ¬ FD_ISSET fd (FD_ZERO words set) := by
  rw [isset_iff, Bits.Mem, FD_ZERO, if_pos hfd]
  simp

theorem isset_copySet {words fd : ℕ} {result set : FdWords} (hfd : fd / 32 < words) :
    FD_ISSET fd (copySet words result set) ↔ FD_ISSET fd result := by
  rw [FD_ISSET, FD_ISSET, copySet, if_pos hfd]

/-- The bits set in the set's own words. -/
def bitsSet (words : ℕ) (set : FdWords) : ℕ := Bits.count (words * 32) set

theorem bitsSet_copySet {words : ℕ} {result set : FdWords} :
    bitsSet words (copySet words result set) = bitsSet words result := by
  refine Bits.count_congr fun fd hfd => ?_
  rw [← isset_iff, ← isset_iff]
  exact isset_copySet (by omega)

theorem bitsSet_eq_zero {words : ℕ} {set : FdWords} :
    bitsSet words set = 0 ↔ ∀ fd, fd / 32 < words → ¬ FD_ISSET fd set := by
  rw [bitsSet, Bits.count_eq_zero]
  refine forall_congr' fun fd => ?_
  rw [isset_iff, Nat.div_lt_iff_lt_mul (by decide)]

/-! ### The loop -/

/-- The three sets of select. -/
inductive FdKind where | read | write | except
  deriving DecidableEq

/-- What is tested of a socket for a set. -/
def SocketEntry.ready (sock : SocketEntry) : FdKind → Bool
  | .read => sock.readable || sock.listening
  | .write => sock.writable && sock.connected
  | .except => sock.hasOOB

/-- The arguments, with `none` for NULL. -/
structure FdArgs where
  nfds : ℤ
  sets : FdKind → Option FdWords
  endTime : BitVec 32

/-- `indices` are the words that FD_ISSET and FD_SET have been evaluated at, the latest first. -/
structure FdLocals where
  count : ℕ
  results : FdKind → FdWords
  indices : List ℕ

namespace SocketState

variable {ot : OpenTransport}

/-- The descriptor as the macros take it. -/
def fdOf (i : SockIdx) : ℕ := (sockFd i).toNat

/-- `if (set && FD_ISSET(fd, set)) { if (ready) { FD_SET(fd, &result); count++; } }`. -/
def selectTest (args : FdArgs) (sock : SocketEntry) (fd : ℕ) (l : FdLocals) (k : FdKind) : FdLocals :=
  match args.sets k with
  | none => l
  | some set =>
    if FD_ISSET fd set ∧ sock.ready k = true then
      { count := l.count + 1
        results := Function.update l.results k (FD_SET fd (l.results k))
        indices := fd / 32 :: fd / 32 :: l.indices }
    else { l with indices := fd / 32 :: l.indices }

/-- One descriptor of a round. -/
def selectSlot (args : FdArgs) (acc : FdLocals × SocketState ot) (i : SockIdx) : FdLocals × SocketState ot :=
  let (l, s) := acc
  if ¬ (s.socket_table i).inUse then (l, s.setErrno EBADF)
  else
    let (_, s) := s.callOT (.OTLook (s.socket_table i).ep)
    ([.read, .write, .except].foldl (selectTest args (s.socket_table i) (fdOf i)) l, s)

/-- A round: `count = 0`, and the descriptors from SOCKET_FD_BASE on. -/
def selectRound (args : FdArgs) (l : FdLocals) (s : SocketState ot) : FdLocals × SocketState ot :=
  ((List.finRange MAX_SOCKETS).filter fun i => sockFd i < args.nfds).foldl (selectSlot args) ({ l with count := 0 }, s)

/-- What a round ends with: TickCount, and what arrives before the next. -/
abbrev SelectRound := BitVec 32 × List (EndpointRef × Arrival)

/-- The loop in so many rounds, and whether it has ended. -/
def selectLoop (args : FdArgs) : List SelectRound → FdLocals × SocketState ot → Bool × FdLocals × SocketState ot
  | [], acc => (false, acc)
  | (now, arrivals) :: rest, (l, s) =>
    let (l, s) := selectRound args l s
    if 0 < l.count ∨ ¬ now < args.endTime then (true, l, s)
    else selectLoop args rest (l, arrivals.foldl (fun s x => s.arrive x.1 x.2) s)

/-- The locals at the head of the loop; `stack` is what the sets have been before FD_ZERO. -/
def selectLocals (words : ℕ) (stack : FdKind → FdWords) : FdLocals := ⟨0, fun k => FD_ZERO words (stack k), []⟩

/-! ### The law -/

/-- The socket of the slot is to be in a result set. -/
structure Selects (args : FdArgs) (s : SocketState ot) (k : FdKind) (i : SockIdx) : Prop where
  inUse : (s.socket_table i).inUse = true
  below : sockFd i < args.nfds
  asked : ∃ set, args.sets k = some set ∧ FD_ISSET (fdOf i) set
  ready : (s.socket_table i).ready k = true

/-- Of a loop in which a set has `words` words: it has looked only at these; and once it has ended, each set is the
    ready subset by the state in the last round, the count is that of the bits, and 0 if there are none. -/
structure Exact (words : ℕ) (args : FdArgs) (ended : Bool) (l : FdLocals) (s : SocketState ot) : Prop where
  inside : ∀ n ∈ l.indices, n < words
  subset : ended = true → ∀ k set, args.sets k = some set → ∀ fd, fd / 32 < words →
    (FD_ISSET fd (copySet words (l.results k) set) ↔ ∃ i, fd = fdOf i ∧ Selects args s k i)
  counted : ended = true → l.count = ([.read, .write, .except].map fun k =>
    (args.sets k).elim 0 fun set => bitsSet words (copySet words (l.results k) set)).sum
  nothing : ended = true → l.count = 0 → ∀ k set, args.sets k = some set → ∀ fd, fd / 32 < words →
    ¬ FD_ISSET fd (copySet words (l.results k) set)

/-- Every call from the state is exact, however many rounds it takes and whatever arrives. -/
def SelectsExactly (words : ℕ) (args : FdArgs) (s : SocketState ot) : Prop :=
  ∀ stack rounds, Exact words args (selectLoop args rounds (selectLocals words stack, s)).1
    (selectLoop args rounds (selectLocals words stack, s)).2.1 (selectLoop args rounds (selectLocals words stack, s)).2.2

/-! ### One test -/

variable {args : FdArgs} {sock : SocketEntry} {fd words : ℕ} {k : FdKind} {l : FdLocals} {s : SocketState ot}
  {i : SockIdx}

/-- A test sets the bit. -/
def Hits (args : FdArgs) (sock : SocketEntry) (fd : ℕ) (k : FdKind) : Prop :=
  (∃ set, args.sets k = some set ∧ FD_ISSET fd set) ∧ sock.ready k = true

/-- What one test does: nothing for a set that is NULL, a look for one that does not get the bit. -/
theorem selectTest_cases (args : FdArgs) (sock : SocketEntry) (fd : ℕ) (l : FdLocals) (k : FdKind) :
    (args.sets k = none ∧ ¬ Hits args sock fd k ∧ selectTest args sock fd l k = l) ∨
      (args.sets k ≠ none ∧ ¬ Hits args sock fd k ∧
        selectTest args sock fd l k = { l with indices := fd / 32 :: l.indices }) ∨
      (args.sets k ≠ none ∧ Hits args sock fd k ∧ selectTest args sock fd l k =
        ⟨l.count + 1, Function.update l.results k (FD_SET fd (l.results k)), fd / 32 :: fd / 32 :: l.indices⟩) := by
  rw [selectTest]
  rcases hset : args.sets k with _ | set
  · refine .inl ⟨rfl, ?_, rfl⟩
    rintro ⟨⟨set, hsome, -⟩, -⟩
    exact absurd (hset.symm.trans hsome) (by simp)
  · dsimp only
    split
    · rename_i hhits
      exact .inr (.inr ⟨by simp, ⟨⟨set, hset, hhits.1⟩, hhits.2⟩, rfl⟩)
    · rename_i hmisses
      refine .inr (.inl ⟨by simp, ?_, rfl⟩)
      rintro ⟨⟨set', hsome, hisset⟩, hready⟩
      obtain rfl := Option.some.inj (hset.symm.trans hsome)
      exact hmisses ⟨hisset, hready⟩

theorem isset_selectTest {n : ℕ} {k' : FdKind} : FD_ISSET n ((selectTest args sock fd l k).results k') ↔
    FD_ISSET n (l.results k') ∨ k' = k ∧ n = fd ∧ Hits args sock fd k := by
  rcases selectTest_cases args sock fd l k with ⟨-, hmisses, heq⟩ | ⟨-, hmisses, heq⟩ | ⟨-, hhits, heq⟩ <;> rw [heq]
  · exact (or_iff_left fun h => hmisses h.2.2).symm
  · exact (or_iff_left fun h => hmisses h.2.2).symm
  · rcases eq_or_ne k' k with rfl | hne
    · dsimp only
      rw [Function.update_self, isset_set, or_comm]
      simp [hhits]
    · dsimp only
      rw [Function.update_of_ne hne]
      exact (or_iff_left fun h => hne h.1).symm

theorem indices_selectTest {n : ℕ} : n ∈ (selectTest args sock fd l k).indices ↔
    n ∈ l.indices ∨ args.sets k ≠ none ∧ n = fd / 32 := by
  rcases selectTest_cases args sock fd l k with ⟨hnone, -, heq⟩ | ⟨hsome, -, heq⟩ | ⟨hsome, -, heq⟩ <;> rw [heq]
  · simp [hnone]
  · simp [hsome, or_comm]
  · rw [List.mem_cons, List.mem_cons, ← or_assoc, or_self, or_comm, and_iff_right hsome]

/-- All bits of the result sets. -/
def totalBits (words : ℕ) (l : FdLocals) : ℕ :=
  bitsSet words (l.results .read) + bitsSet words (l.results .write) + bitsSet words (l.results .except)

/-- A bit is counted as it is set. -/
theorem balanced_selectTest (hnew : args.sets k ≠ none → fd / 32 < words ∧ ¬ FD_ISSET fd (l.results k))
    (h : l.count = totalBits words l) :
    (selectTest args sock fd l k).count = totalBits words (selectTest args sock fd l k) := by
  rcases selectTest_cases args sock fd l k with ⟨-, -, heq⟩ | ⟨-, -, heq⟩ | ⟨hsome, -, heq⟩ <;> rw [heq]
  · exact h
  · exact h
  · obtain ⟨hfd, hclear⟩ := hnew hsome
    have hcount : bitsSet words (FD_SET fd (l.results k)) = bitsSet words (l.results k) + 1 :=
      Bits.count_insert (by decide) (by omega) (mt isset_iff.mpr hclear)
    rw [totalBits] at h ⊢
    dsimp only
    cases k <;> simp only [Function.update_self, Function.update_of_ne, ne_eq, reduceCtorEq, not_false_eq_true, hcount] <;>
      omega

/-! ### The tests of a round -/

theorem fdOf_injective : Function.Injective fdOf := by
  intro i j h
  have hcast : (SOCKET_FD_BASE + (i : ℤ)).toNat = (SOCKET_FD_BASE + (j : ℤ)).toNat := h
  rw [SOCKET_FD_BASE] at hcast
  exact Fin.ext (by omega)

def testAt (args : FdArgs) (s : SocketState ot) (l : FdLocals) (x : SockIdx × FdKind) : FdLocals :=
  selectTest args (s.socket_table x.1) (fdOf x.1) l x.2

/-- The slots of a round, and each with the three kinds. -/
def roundSlots (args : FdArgs) (s : SocketState ot) : List SockIdx :=
  (List.finRange MAX_SOCKETS).filter fun i => decide (sockFd i < args.nfds) && (s.socket_table i).inUse

def roundTests (args : FdArgs) (s : SocketState ot) : List (SockIdx × FdKind) :=
  roundSlots args s ×ˢ [.read, .write, .except]

theorem mem_roundTests : (i, k) ∈ roundTests args s ↔ sockFd i < args.nfds ∧ (s.socket_table i).inUse = true := by
  have hkind : k ∈ [FdKind.read, .write, .except] := by cases k <;> simp
  rw [roundTests, List.mem_product, roundSlots, List.mem_filter, Bool.and_eq_true, decide_eq_true_iff]
  simp [hkind]

theorem nodup_roundTests (args : FdArgs) (s : SocketState ot) : (roundTests args s).Nodup :=
  ((List.nodup_finRange MAX_SOCKETS).filter _).product (by decide)

/-- A round tests the sockets in use one after the other; OTLook leaves the table alone. -/
theorem foldl_selectSlot (args : FdArgs) (is : List SockIdx) (l : FdLocals) (s : SocketState ot) :
    (is.foldl (selectSlot args) (l, s)).1 =
        ((is.filter fun i => (s.socket_table i).inUse) ×ˢ [FdKind.read, .write, .except]).foldl (testAt args s) l ∧
      (is.foldl (selectSlot args) (l, s)).2.socket_table = s.socket_table := by
  induction is generalizing l s with
  | nil => exact ⟨rfl, rfl⟩
  | cons i is ih =>
    by_cases hin : (s.socket_table i).inUse = true
    · have hslot : selectSlot args (l, s) i =
          ([.read, .write, .except].foldl (selectTest args (s.socket_table i) (fdOf i)) l,
            (s.callOT (.OTLook (s.socket_table i).ep)).2) := if_neg (not_not.mpr hin)
      rw [List.foldl_cons, hslot, (ih _ _).1, (ih _ _).2, List.filter_cons_of_pos (by exact hin), List.product_cons,
        List.foldl_append, List.foldl_map]
      exact ⟨rfl, rfl⟩
    · have hslot : selectSlot args (l, s) i = (l, s.setErrno EBADF) := if_pos hin
      rw [List.foldl_cons, hslot, (ih _ _).1, (ih _ _).2, List.filter_cons_of_neg (by exact hin)]
      exact ⟨rfl, rfl⟩

theorem selectRound_tests (args : FdArgs) (l : FdLocals) (s : SocketState ot) :
    (selectRound args l s).1 = (roundTests args s).foldl (testAt args s) { l with count := 0 } := by
  rw [selectRound, (foldl_selectSlot args _ _ s).1, List.filter_filter, roundTests, roundSlots]
  simp only [Bool.and_comm]

theorem selectRound_table (args : FdArgs) (l : FdLocals) (s : SocketState ot) :
    (selectRound args l s).2.socket_table = s.socket_table := (foldl_selectSlot args _ _ s).2

theorem isset_foldl {n : ℕ} (ts : List (SockIdx × FdKind)) (l : FdLocals) :
    FD_ISSET n ((ts.foldl (testAt args s) l).results k) ↔ FD_ISSET n (l.results k) ∨
      ∃ i, (i, k) ∈ ts ∧ n = fdOf i ∧ Hits args (s.socket_table i) (fdOf i) k := by
  induction ts generalizing l with
  | nil => simp
  | cons t ts ih =>
    obtain ⟨j, k'⟩ := t
    rw [List.foldl_cons, ih, testAt, isset_selectTest]
    simp only [List.mem_cons, Prod.mk.injEq]
    grind

theorem indices_foldl {n : ℕ} (ts : List (SockIdx × FdKind)) (l : FdLocals) :
    n ∈ (ts.foldl (testAt args s) l).indices ↔ n ∈ l.indices ∨
      ∃ i k, (i, k) ∈ ts ∧ args.sets k ≠ none ∧ n = fdOf i / 32 := by
  induction ts generalizing l with
  | nil => simp
  | cons t ts ih =>
    obtain ⟨j, k'⟩ := t
    rw [List.foldl_cons, ih, testAt, indices_selectTest]
    simp only [List.mem_cons, Prod.mk.injEq]
    grind

theorem balanced_foldl (ts : List (SockIdx × FdKind)) (hnodup : ts.Nodup)
    (hfd : ∀ i k, (i, k) ∈ ts → args.sets k ≠ none → fdOf i / 32 < words) (l : FdLocals)
    (hnew : ∀ i k, (i, k) ∈ ts → args.sets k ≠ none → ¬ FD_ISSET (fdOf i) (l.results k))
    (h : l.count = totalBits words l) :
    (ts.foldl (testAt args s) l).count = totalBits words (ts.foldl (testAt args s) l) := by
  induction ts generalizing l with
  | nil => exact h
  | cons t ts ih =>
    obtain ⟨j, k'⟩ := t
    obtain ⟨hfresh, hnodup⟩ := List.nodup_cons.mp hnodup
    rw [List.foldl_cons]
    refine ih hnodup (fun i k hmem => hfd i k (List.mem_cons_of_mem _ hmem)) _ ?_ ?_
    · intro i k hmem hsome hset
      rcases isset_selectTest.mp hset with hold | ⟨rfl, hsame, -⟩
      · exact hnew i k (List.mem_cons_of_mem _ hmem) hsome hold
      · obtain rfl : i = j := fdOf_injective hsame
        exact hfresh hmem
    · exact balanced_selectTest
        (fun hsome => ⟨hfd j k' List.mem_cons_self hsome, hnew j k' List.mem_cons_self hsome⟩) h

/-! ### The condition -/

/-- No bit of the result sets is set. -/
def Clear (words : ℕ) (l : FdLocals) : Prop := ∀ k fd, fd / 32 < words → ¬ FD_ISSET fd (l.results k)

/-- All the sets are NULL, or no socket in use and below nfds has a descriptor they have no room for. -/
def Fits (words : ℕ) (args : FdArgs) (s : SocketState ot) : Prop :=
  (∀ k, args.sets k = none) ∨
    ∀ i, (s.socket_table i).inUse = true → sockFd i < args.nfds → fdOf i / 32 < words

theorem Fits.tested (h : Fits words args s) (hmem : (i, k) ∈ roundTests args s) (hset : args.sets k ≠ none) :
    fdOf i / 32 < words := by
  obtain ⟨hbelow, hin⟩ := mem_roundTests.mp hmem
  rcases h with hnone | hfits
  · exact absurd (hnone k) hset
  · exact hfits i hin hbelow

theorem clear_iff : Clear words l ↔ totalBits words l = 0 := by
  rw [totalBits]
  constructor
  · intro h
    rw [bitsSet_eq_zero.mpr (h .read), bitsSet_eq_zero.mpr (h .write), bitsSet_eq_zero.mpr (h .except)]
  · intro h k
    refine bitsSet_eq_zero.mp ?_
    cases k <;> omega

theorem clear_selectLocals (stack : FdKind → FdWords) : Clear words (selectLocals words stack) :=
  fun _ _ hfd => isset_zero hfd

/-- After a round that began with clear sets each of them is the ready subset. -/
theorem isset_selectRound (hclear : Clear words l) (hfd : fd / 32 < words) :
    FD_ISSET fd ((selectRound args l s).1.results k) ↔ ∃ i, fd = fdOf i ∧ Selects args s k i := by
  rw [selectRound_tests, isset_foldl, or_iff_right (hclear k fd hfd)]
  constructor
  · rintro ⟨i, hmem, rfl, hasked, hready⟩
    obtain ⟨hbelow, hin⟩ := mem_roundTests.mp hmem
    exact ⟨i, rfl, hin, hbelow, hasked, hready⟩
  · rintro ⟨i, rfl, hin, hbelow, hasked, hready⟩
    exact ⟨i, mem_roundTests.mpr ⟨hbelow, hin⟩, rfl, hasked, hready⟩

theorem count_selectRound (hclear : Clear words l) (hfits : Fits words args s) :
    (selectRound args l s).1.count = totalBits words (selectRound args l s).1 := by
  rw [selectRound_tests]
  refine balanced_foldl _ (nodup_roundTests args s) (fun i k => hfits.tested) _ ?_ (clear_iff.mp hclear).symm
  intro i k hmem hsome
  exact hclear k (fdOf i) (hfits.tested hmem hsome)

theorem inside_selectRound (hinside : ∀ n ∈ l.indices, n < words) (hfits : Fits words args s) :
    ∀ n ∈ (selectRound args l s).1.indices, n < words := by
  intro n hn
  rw [selectRound_tests] at hn
  rcases (indices_foldl _ _).mp hn with hold | ⟨i, k, hmem, hsome, rfl⟩
  · exact hinside n hold
  · exact hfits.tested hmem hsome

/-- Where the round is the last. -/
theorem exact_of_round (hclear : Clear words l) (hinside : ∀ n ∈ l.indices, n < words) (hfits : Fits words args s) :
    Exact words args true (selectRound args l s).1 (selectRound args l s).2 := by
  have hselects (k : FdKind) (i : SockIdx) : Selects args (selectRound args l s).2 k i ↔ Selects args s k i := by
    have htable := selectRound_table args l s
    constructor <;> rintro ⟨hin, hbelow, hasked, hready⟩
    · exact ⟨htable ▸ hin, hbelow, hasked, htable ▸ hready⟩
    · exact ⟨htable.symm ▸ hin, hbelow, hasked, htable.symm ▸ hready⟩
  have hsubset : ∀ k set, args.sets k = some set → ∀ fd, fd / 32 < words →
      (FD_ISSET fd (copySet words ((selectRound args l s).1.results k) set) ↔
        ∃ i, fd = fdOf i ∧ Selects args (selectRound args l s).2 k i) := by
    intro k set hset fd hfd
    rw [isset_copySet hfd, isset_selectRound hclear hfd]
    simp only [hselects]
  have hbits (k : FdKind) : (args.sets k).elim 0 (fun set =>
      bitsSet words (copySet words ((selectRound args l s).1.results k) set)) =
        bitsSet words ((selectRound args l s).1.results k) := by
    rcases hset : args.sets k with _ | set
    · refine (bitsSet_eq_zero.mpr fun fd hfd hisset => ?_).symm
      obtain ⟨i, -, hselected⟩ := (isset_selectRound hclear hfd).mp hisset
      obtain ⟨set, hsome, -⟩ := hselected.asked
      cases hset.symm.trans hsome
    · exact bitsSet_copySet
  refine ⟨inside_selectRound hinside hfits, fun _ => hsubset, fun _ => ?_, fun _ hcount k set _ fd hfd => ?_⟩
  · rw [count_selectRound hclear hfits, totalBits]
    simp only [List.map_cons, List.map_nil, List.sum_cons, List.sum_nil, hbits]
    omega
  · rw [isset_copySet hfd]
    exact clear_iff.mpr ((count_selectRound hclear hfits).symm.trans hcount) k fd hfd

/-- Nothing that arrives takes a slot into use or out of it. -/
theorem inUse_arrive (s : SocketState ot) (ep : EndpointRef) (a : Arrival) (i : SockIdx) :
    ((s.arrive ep a).socket_table i).inUse = (s.socket_table i).inUse := by
  rcases arrive_cases s ep a with ⟨harrive, -⟩ | ⟨j, -, -, harrive⟩ <;> rw [harrive]
  · rfl
  · exact (notifier_keeps (P := fun _ _ => True) _ j a.event.1 a.event.2).inUse i

theorem Fits.congr {s' : SocketState ot} (hfits : Fits words args s)
    (h : ∀ i, (s'.socket_table i).inUse = (s.socket_table i).inUse) : Fits words args s' :=
  hfits.imp_right fun hall i hin => hall i (h i ▸ hin)

theorem fits_arrivals (hfits : Fits words args s) (arrivals : List (EndpointRef × Arrival)) :
    Fits words args (arrivals.foldl (fun s x => s.arrive x.1 x.2) s) := by
  induction arrivals generalizing s with
  | nil => exact hfits
  | cons x arrivals ih => exact ih (hfits.congr (inUse_arrive s x.1 x.2))

/-- The sets are clear at the head of the loop, and a round that does not clear them ends it. -/
theorem exact_selectLoop (rounds : List SelectRound) (hclear : Clear words l)
    (hinside : ∀ n ∈ l.indices, n < words) (hfits : Fits words args s) :
    Exact words args (selectLoop args rounds (l, s)).1 (selectLoop args rounds (l, s)).2.1
      (selectLoop args rounds (l, s)).2.2 := by
  induction rounds generalizing l s with
  | nil => exact ⟨hinside, by simp [selectLoop], by simp [selectLoop], by simp [selectLoop]⟩
  | cons round rest ih =>
    obtain ⟨now, arrivals⟩ := round
    have hround := exact_of_round hclear hinside hfits
    rw [selectLoop]
    dsimp only
    split
    · exact hround
    · rename_i hagain
      have hcount : (selectRound args l s).1.count = 0 := by omega
      refine ih (clear_iff.mpr ((count_selectRound hclear hfits).symm.trans hcount)) hround.inside ?_
      refine fits_arrivals (hfits.congr fun i => ?_) arrivals
      rw [selectRound_table]

/-- Where a set has `words` words, select is exact just where it has room for the sockets below nfds, or looks at
    no set at all. -/
theorem selectsExactly_iff_fits (words : ℕ) (args : FdArgs) (s : SocketState ot) :
    SelectsExactly words args s ↔ Fits words args s := by
  constructor
  · intro h
    by_contra hfits
    obtain ⟨hsome, hoverflow⟩ := not_or.mp hfits
    obtain ⟨k, hk⟩ := not_forall.mp hsome
    obtain ⟨i, hi⟩ := not_forall.mp hoverflow
    obtain ⟨hin, hi⟩ := Classical.not_imp.mp hi
    obtain ⟨hbelow, houtside⟩ := Classical.not_imp.mp hi
    -- The first round looks at the word.
    have hinside := (h (fun _ _ => 0) [(0, [])]).inside
    have hlocals : (selectLoop args [(0, [])] (selectLocals words fun _ _ => 0, s)).2.1 =
        (selectRound args (selectLocals words fun _ _ => 0) s).1 := by
      rw [selectLoop]
      dsimp only
      split <;> rfl
    rw [hlocals, selectRound_tests] at hinside
    exact houtside (hinside _ ((indices_foldl _ _).mpr (.inr ⟨i, k, mem_roundTests.mpr ⟨hbelow, hin⟩, hk, rfl⟩)))
  · intro hfits stack rounds
    exact exact_selectLoop rounds (clear_selectLocals stack) (by simp [selectLocals]) hfits

/-! ### The rounds of `select` -/

/-- The sets as `select` takes them. -/
def bitArgs (args : FdArgs) : SelectArgs where
  nfds := args.nfds
  readfds := (args.sets .read).map fun set fd => decide (FD_ISSET fd.toNat set)
  writefds := (args.sets .write).map fun set fd => decide (FD_ISSET fd.toNat set)
  exceptfds := (args.sets .except).map fun set fd => decide (FD_ISSET fd.toNat set)
  endTime := args.endTime

def Selected.result (res : Selected) : FdKind → FdSet
  | .read => res.readResult
  | .write => res.writeResult
  | .except => res.exceptResult

/-- The same count, and the same bits where a set has words. -/
structure Agrees (words : ℕ) (res : Selected) (l : FdLocals) : Prop where
  count : res.count = l.count
  bits : ∀ k (fd : ℕ), fd / 32 < words → (res.result k fd = true ↔ FD_ISSET fd (l.results k))

theorem isSet_bits {set : Option FdWords} :
    isSet (sockFd i) (set.map fun set fd => decide (FD_ISSET fd.toNat set)) = true ↔
      ∃ words, set = some words ∧ FD_ISSET (fdOf i) words := by
  cases set <;> simp [isSet, fdOf]

theorem cast_fdOf (i : SockIdx) : ((fdOf i : ℕ) : ℤ) = sockFd i := by
  rw [fdOf, sockFd, SOCKET_FD_BASE]
  omega

/-- One of the three tests. -/
theorem Agrees.test {res res' : Selected} (h : Agrees words res l)
    (hmiss : ¬ Hits args sock (fdOf i) k → res' = res)
    (hhit : Hits args sock (fdOf i) k → res'.count = res.count + 1 ∧
      ∀ k', res'.result k' = if k' = k then Function.update (res.result k) (sockFd i) true else res.result k') :
    Agrees words res' (selectTest args sock (fdOf i) l k) := by
  rcases selectTest_cases args sock (fdOf i) l k with ⟨-, hmisses, heq⟩ | ⟨-, hmisses, heq⟩ | ⟨-, hhits, heq⟩
  · rw [heq, hmiss hmisses]
    exact h
  · rw [heq, hmiss hmisses]
    exact ⟨h.count, h.bits⟩
  · obtain ⟨hcount, hresult⟩ := hhit hhits
    refine ⟨?_, fun k' fd hfd => ?_⟩
    · rw [heq, hcount, h.count]
    · rw [isset_selectTest, hresult k', ← h.bits k' fd hfd]
      rcases eq_or_ne k' k with rfl | hne
      · have hcast : ((fd : ℕ) : ℤ) = (fdOf i : ℕ) ↔ fd = fdOf i := Int.ofNat_inj
        rw [if_pos rfl, ← cast_fdOf, Function.update_apply]
        simp only [hcast]
        split <;> simp_all
      · rw [if_neg hne]
        exact (or_iff_left fun hsame => hne hsame.1).symm

theorem Agrees.tests {res : Selected} (h : Agrees words res l) :
    Agrees words (selectTests (bitArgs args) i sock res)
      ([.read, .write, .except].foldl (selectTest args sock (fdOf i)) l) := by
  have hread : (isSet (sockFd i) (bitArgs args).readfds = true ∧ (sock.readable = true ∨ sock.listening = true)) ↔
      Hits args sock (fdOf i) .read := and_congr isSet_bits (by simp [SocketEntry.ready])
  have hwrite : (isSet (sockFd i) (bitArgs args).writefds = true ∧ (sock.writable = true ∧ sock.connected = true)) ↔
      Hits args sock (fdOf i) .write := and_congr isSet_bits (by simp [SocketEntry.ready])
  have hexcept : (isSet (sockFd i) (bitArgs args).exceptfds = true ∧ sock.hasOOB = true) ↔
      Hits args sock (fdOf i) .except := and_congr isSet_bits Iff.rfl
  unfold selectTests
  extract_lets fd res₁ res₂
  have hafter₁ : Agrees words res₁ (selectTest args sock (fdOf i) l .read) := by
    refine h.test (fun hmisses => if_neg (mt hread.mp hmisses)) fun hhits => ?_
    rw [show res₁ = _ from if_pos (hread.mpr hhits)]
    exact ⟨rfl, fun k' => by cases k' <;> rfl⟩
  have hafter₂ : Agrees words res₂ (selectTest args sock (fdOf i) (selectTest args sock (fdOf i) l .read) .write) := by
    refine hafter₁.test (fun hmisses => if_neg (mt hwrite.mp hmisses)) fun hhits => ?_
    rw [show res₂ = _ from if_pos (hwrite.mpr hhits)]
    exact ⟨rfl, fun k' => by cases k' <;> rfl⟩
  refine hafter₂.test (fun hmisses => if_neg (mt hexcept.mp hmisses)) fun hhits => ?_
  rw [if_pos (hexcept.mpr hhits)]
  exact ⟨rfl, fun k' => by cases k' <;> rfl⟩

/-- A round of `select` counts what a round by the words counts, sets the same bits and leaves the same state. -/
theorem selectRound_agrees (hclear : Clear words l) (args : FdArgs) (s : SocketState ot) :
    Agrees words (s.selectScan (bitArgs args)).1 (selectRound args l s).1 ∧
      (s.selectScan (bitArgs args)).2 = (selectRound args l s).2 := by
  have hfold : ∀ (is : List SockIdx) (res : Selected) (l : FdLocals) (s : SocketState ot), Agrees words res l →
      Agrees words (is.foldl (selectFd (bitArgs args)) (res, s)).1 (is.foldl (selectSlot args) (l, s)).1 ∧
        (is.foldl (selectFd (bitArgs args)) (res, s)).2 = (is.foldl (selectSlot args) (l, s)).2 := by
    intro is
    induction is with
    | nil => exact fun res l s h => ⟨h, rfl⟩
    | cons i is ih =>
      intro res l s h
      rw [List.foldl_cons, List.foldl_cons, selectFd, selectSlot]
      dsimp only
      split
      · exact ih _ _ _ h
      · exact ih _ _ _ h.tests
  have hzero : Agrees words .zero { l with count := 0 } := by
    refine ⟨rfl, fun k fd hfd => ?_⟩
    refine iff_of_false ?_ (hclear k fd hfd)
    cases k <;> simp [Selected.result, Selected.zero]
  exact hfold _ _ _ s hzero

/-- In select as it is, no socket in use may have its descriptor below nfds unless all sets are NULL. -/
theorem selectsExactly_iff (args : FdArgs) (s : SocketState ot) : SelectsExactly (FD_SETSIZE / 32) args s ↔
    (∀ k, args.sets k = none) ∨ ∀ i, (s.socket_table i).inUse = true → args.nfds ≤ sockFd i := by
  rw [selectsExactly_iff_fits]
  refine or_congr_right (forall_congr' fun i => imp_congr_right fun _ => ?_)
  have hfd : ¬ fdOf i / 32 < FD_SETSIZE / 32 := by
    have hbase : 1000 ≤ fdOf i := by
      rw [fdOf, sockFd, SOCKET_FD_BASE]
      omega
    rw [FD_SETSIZE]
    omega
  rw [← Int.not_lt]
  exact ⟨fun h hbelow => hfd (h hbelow), fun h hbelow => absurd hbelow h⟩

/-- A server's first select: FD_ISSET looks 23 words behind the set. -/
theorem select_outside : ¬ SelectsExactly (FD_SETSIZE / 32) ⟨1001, fun k => if k = .read then some fun _ => 0 else none, 60⟩
    (run step (start Wire.idle : SocketState wire) [.call (.socket AF_INET SOCK_STREAM 0)]) := by
  intro h
  have hinside := (h (fun _ _ => 0) [(0, [])]).inside 31
  revert hinside
  decide +kernel

end SocketState

end Posix9
