import Mathlib.Logic.Function.Basic
import Posix9.PathFromMac
import Posix9.PathToMac

/-! Where the translators write. Each loop looks at the end of the buffer once a round, and a round for `..` or
    for a double colon writes two or three characters.

    All stores go through `*d++`, so what is stored is known from the string models; what decides is where in
    the output such a round begins, which the path alone determines. -/

namespace Posix9
open Fields

/-! ### Accesses -/

/-- An access through `out` or `d`, by its distance from `out`. -/
inductive Access where
  | store (i : ℤ) (c : Char)
  | load (i : ℤ)
  deriving DecidableEq

/-- `*d++ = c` for each character. -/
def storeAll (d : ℕ) : CStr → List Access
  | [] => []
  | c :: s => .store d c :: storeAll (d + 1) s

/-- `strcpy(d, s)`. -/
def strcpy (d : ℕ) (s : CStr) : List Access := storeAll d (s ++ [NUL])

/-- What the memory around `out` holds behind the accesses. -/
def memAfter (mem : ℤ → Char) : List Access → ℤ → Char
  | [] => mem
  | .store i c :: as => memAfter (Function.update mem i c) as
  | .load _ :: as => memAfter mem as

/-! ### posix9_path_to_mac -/

/-- What is written before the loop. -/
def toMacStartAccesses (default_volume : VolumeName) : CStr → List Access
  | '/' :: p =>
    if volumesPrefix.isPrefixOf p then []
    else strcpy 0 default_volume.name ++ [.store default_volume.name.length ':']
  | p =>
    .store 0 ':' ::
      if atDot p then []
      else if atDotDot p then [.store 1 ':']
      else []

/-- The loop, with `d` where it stores next. -/
def toMacLoopAccesses : (room d : ℕ) → CStr → List Access
  | 0, _, _ => []
  | _ + 1, _, [] => []
  | room + 1, d, c :: p =>
    if c = '/' then
      if atDotDot (skipSlashes p) then
        .store d ':' :: .store (d + 1) ':' :: match room with
          | 0 => []
          | room + 1 => toMacLoopAccesses room (d + 2) (skipSlash ((skipSlashes p).drop 2))
      else .store d ':' :: toMacLoopAccesses room (d + 1) (skipSlashes p)
    else .store d c :: toMacLoopAccesses room (d + 1) p

/-- `if (d > out + 1 && d[-1] == ':' && d[-2] != ':') d[-1] = '\0'`, behind `out`. -/
def stripAccesses (out : CStr) : List Access :=
  if 1 < out.length then
    .load (out.length - 1) ::
      match out.reverse with
      | ':' :: c :: _ => .load (out.length - 2) :: if c = ':' then [] else [.store (out.length - 1) NUL]
      | _ => []
  else []

def toMacAccesses (default_volume : VolumeName) (posix_path : CStr) (dst_size : ℕ) : List Access :=
  if posix_path = [] then [.store 0 NUL]
  else
    let (out, p) := toMacStart default_volume posix_path
    let room := dst_size - 1 - out.length
    let written := out ++ toMacLoop room p
    toMacStartAccesses default_volume posix_path ++ toMacLoopAccesses room out.length p ++
      [.store written.length NUL] ++ stripAccesses written

/-! ### posix9_path_from_mac -/

/-- The loop over the leading colons after the first. -/
def fromMacUpsAccesses (d : ℕ) : CStr → List Access
  | [] => []
  | c :: p =>
    if c = ':' then
      .store d '/' :: .store (d + 1) '.' :: .store (d + 2) '.' :: fromMacUpsAccesses (d + 3) p
    else []

/-- What is written before the loop. -/
def fromMacStartAccesses : CStr → List Access
  | ':' :: p =>
    let (ups, rest) := fromMacUps p
    .store 0 '.' :: (fromMacUpsAccesses 1 p ++ if rest = [] then [] else [.store (1 + ups.length) '/'])
  | _ => strcpy 0 ('/' :: volumesPrefix)

/-- The loop over the remaining components. -/
def fromMacLoopAccesses : (room d : ℕ) → CStr → List Access
  | 0, _, _ => []
  | _ + 1, _, [] => []
  | room + 1, d, ':' :: ':' :: p =>
    .store d '/' :: .store (d + 1) '.' :: .store (d + 2) '.' :: fromMacLoopAccesses (room - 2) (d + 3) p
  | room + 1, d, ':' :: p => .store d '/' :: fromMacLoopAccesses room (d + 1) p
  | room + 1, d, c :: p => .store d c :: fromMacLoopAccesses room (d + 1) p

def fromMacAccesses (mac_path : CStr) (dst_size : ℕ) : List Access :=
  if mac_path = [] then [.store 0 NUL]
  else
    let (out, p) := fromMacStart mac_path
    let room := dst_size - 1 - out.length
    fromMacStartAccesses mac_path ++ fromMacLoopAccesses room out.length p ++
      [.store (out ++ fromMacLoop room p).length NUL]

/-! ### The law -/

/-- Every store is inside the buffer, no load is in front of it, and a NUL ends the result inside it. -/
structure StaysInside (dst_size : ℕ) (as : List Access) : Prop where
  stores : ∀ (i : ℤ) (c : Char), .store i c ∈ as → 0 ≤ i ∧ i < dst_size
  loads : ∀ i : ℤ, .load i ∈ as → 0 ≤ i
  terminated : ∀ mem, ∃ n : ℕ, n < dst_size ∧ memAfter mem as n = NUL

/-- Where in the output the two colons for each `..` begin, when the components stand behind a slash each and
    the first slash is written at `d`. -/
def upsFrom (d : ℕ) : List CStr → List ℕ
  | [] => []
  | [c] => if c = dotdot then [d] else []
  | c :: c' :: cs =>
    if c = dotdot then d :: upsFrom (d + 2 + c'.length) cs
    else if c = [] then upsFrom d (c' :: cs)
    else upsFrom (d + 1 + c.length) (c' :: cs)

/-- Where the loop of posix9_path_to_mac would write the colons for `..`. -/
def upsOf (default_volume : VolumeName) (posix_path : CStr) : List ℕ :=
  let (out, p) := toMacStart default_volume posix_path
  match p.splitOn '/' with
  | [] => []
  | c :: cs => upsFrom (out.length + c.length) cs

/-- Where in the output the three characters for each double colon begin. -/
def doublesFrom (d : ℕ) : CStr → List ℕ
  | [] => []
  | ':' :: ':' :: p => d :: doublesFrom (d + 3) p
  | _ :: p => doublesFrom (d + 1) p

/-- No `..` begins at the last place but one. -/
def UpsFit (default_volume : VolumeName) (posix_path : CStr) (dst_size : ℕ) : Prop :=
  ∀ d ∈ upsOf default_volume posix_path, d + 2 ≠ dst_size

/-- What the leading colons become leaves a place for the NUL, and no double colon behind them begins at one of
    the two places before the last. -/
def DoublesFit (mac_path : CStr) (dst_size : ℕ) : Prop :=
  (fromMacStart mac_path).1.length < dst_size ∧
    ∀ d ∈ doublesFrom (fromMacStart mac_path).1.length (fromMacStart mac_path).2, d + 2 ≠ dst_size ∧ d + 3 ≠ dst_size

instance (dv : VolumeName) (posix_path : CStr) (dst_size : ℕ) : Decidable (UpsFit dv posix_path dst_size) :=
  inferInstanceAs (Decidable (∀ d ∈ _, _))

instance (mac_path : CStr) (dst_size : ℕ) : Decidable (DoublesFit mac_path dst_size) :=
  inferInstanceAs (Decidable (_ ∧ _))

/-! ### Stores and the string they leave -/

variable {mem : ℤ → Char} {d : ℕ} {s t : CStr} {as bs : List Access}

theorem mem_storeAll {i : ℤ} {c : Char} (h : .store i c ∈ storeAll d s) : d ≤ i ∧ i < d + s.length := by
  induction s generalizing d with
  | nil => cases h
  | cons x s ih =>
    rw [List.length_cons]
    rcases List.mem_cons.mp h with h | h
    · obtain ⟨rfl, -⟩ := Access.store.inj h
      omega
    · have := ih h
      omega

theorem load_not_mem_storeAll (i : ℤ) (d : ℕ) (s : CStr) : .load i ∉ storeAll d s := by
  induction s generalizing d with
  | nil => exact List.not_mem_nil
  | cons x s ih =>
    intro h
    rcases List.mem_cons.mp h with h | h
    · cases h
    · exact ih (d + 1) h

theorem memAfter_append (mem : ℤ → Char) (as bs : List Access) :
    memAfter mem (as ++ bs) = memAfter (memAfter mem as) bs := by
  induction as generalizing mem with
  | nil => rfl
  | cons a as ih =>
    cases a with
    | store i c => exact ih _
    | load i => exact ih mem

theorem memAfter_storeAll_of_lt (mem : ℤ → Char) (s : CStr) {i : ℤ} (h : i < d) :
    memAfter mem (storeAll d s) i = mem i := by
  induction s generalizing mem d with
  | nil => rfl
  | cons c s ih =>
    rw [storeAll, memAfter, ih _ (by omega), Function.update_of_ne (by omega)]

theorem memAfter_storeAll (mem : ℤ → Char) (d : ℕ) (s : CStr) (k : ℕ) (h : k < s.length) :
    memAfter mem (storeAll d s) (d + k : ℕ) = s[k] := by
  induction s generalizing mem d k with
  | nil => cases h
  | cons c s ih =>
    rw [storeAll, memAfter]
    rcases k with _ | k
    · rw [memAfter_storeAll_of_lt _ s (by omega), Nat.add_zero, Function.update_self]
      rfl
    · have hk := ih (Function.update mem d c) (d + 1) k (Nat.lt_of_succ_lt_succ h)
      rw [show d + (k + 1) = d + 1 + k by omega, hk]
      rfl

/-- The accesses leave `s` at `out` and touch nothing behind the place that follows it. -/
structure Puts (as : List Access) (s : CStr) : Prop where
  chars : ∀ (mem : ℤ → Char) (k : ℕ) (h : k < s.length), memAfter mem as k = s[k]
  stores : ∀ (i : ℤ) (c : Char), .store i c ∈ as → 0 ≤ i ∧ i ≤ s.length
  loads : ∀ i : ℤ, .load i ∉ as

theorem puts_storeAll (s : CStr) : Puts (storeAll 0 s) s where
  chars mem k h := by simpa using memAfter_storeAll mem 0 s k h
  stores i c h := by
    have := mem_storeAll h
    omega
  loads i := load_not_mem_storeAll i 0 s

theorem Puts.append (h : Puts as s) (t : CStr) : Puts (as ++ storeAll s.length t) (s ++ t) where
  chars mem k hk := by
    rw [memAfter_append]
    rcases Nat.lt_or_ge k s.length with hlt | hge
    · rw [memAfter_storeAll_of_lt _ t (by omega), h.chars mem k hlt, List.getElem_append_left hlt]
    · obtain ⟨j, rfl⟩ := Nat.exists_eq_add_of_le hge
      have hj : j < t.length := by
        rw [List.length_append] at hk
        omega
      rw [memAfter_storeAll _ _ t j hj, List.getElem_append_right (Nat.le_add_right ..)]
      simp
  stores i c hi := by
    rw [List.length_append]
    rcases List.mem_append.mp hi with hi | hi
    · have := h.stores i c hi
      omega
    · have := mem_storeAll hi
      omega
  loads i hi := (List.mem_append.mp hi).elim (h.loads i) (load_not_mem_storeAll i _ t)

/-- strcpy stores the NUL of its argument as well. -/
theorem puts_strcpy (s : CStr) : Puts (strcpy 0 s) s where
  chars mem k h := by
    have hk := memAfter_storeAll mem 0 (s ++ [NUL]) k (by rw [List.length_append]; omega)
    rw [Nat.zero_add, List.getElem_append_left h] at hk
    exact hk
  stores i c h := by
    have := mem_storeAll h
    rw [List.length_append, List.length_singleton] at this
    omega
  loads i := load_not_mem_storeAll i 0 _

/-- The string that stands at `out`. -/
structure ReadsAs (mem : ℤ → Char) (s : CStr) : Prop where
  chars : ∀ (k : ℕ) (h : k < s.length), mem k = s[k]
  terminated : mem s.length = NUL

theorem Puts.reads (h : Puts as s) (mem : ℤ → Char) : ReadsAs (memAfter mem (as ++ [.store s.length NUL])) s := by
  rw [memAfter_append]
  refine ⟨fun k hk => ?_, Function.update_self ..⟩
  rw [memAfter, memAfter, Function.update_of_ne (by omega), h.chars mem k hk]

/-- `*d = '\0'` is the farthest store. -/
theorem Puts.inside_iff (h : Puts as s) (dst_size : ℕ)
    (hstores : ∀ (i : ℤ) (c : Char), .store i c ∈ bs → 0 ≤ i ∧ i < s.length)
    (hloads : ∀ i : ℤ, .load i ∈ bs → 0 ≤ i)
    (hreads : ∀ mem, ReadsAs mem s → ReadsAs (memAfter mem bs) t) (hlen : t.length ≤ s.length) :
    StaysInside dst_size (as ++ [.store s.length NUL] ++ bs) ↔ s.length < dst_size := by
  constructor
  · intro hin
    have := hin.stores s.length NUL (by simp)
    omega
  · intro hlt
    refine ⟨fun i c hi => ?_, fun i hi => ?_, fun mem => ⟨t.length, by omega, ?_⟩⟩
    · rcases List.mem_append.mp hi with hi | hi
      · rcases List.mem_append.mp hi with hi | hi
        · have := h.stores i c hi
          omega
        · obtain ⟨rfl, -⟩ := Access.store.inj (List.mem_singleton.mp hi)
          omega
      · have := hstores i c hi
        omega
    · rcases List.mem_append.mp hi with hi | hi
      · rcases List.mem_append.mp hi with hi | hi
        · exact absurd hi (h.loads i)
        · simp at hi
      · exact hloads i hi
    · rw [memAfter_append]
      exact (hreads _ (h.reads mem)).terminated

/-! ### The accesses of posix9_path_to_mac -/

theorem toMacLoopAccesses_eq (room d : ℕ) (p : CStr) :
    toMacLoopAccesses room d p = storeAll d (toMacLoop room p) := by
  induction room, p using toMacLoop_rec generalizing d with
  | full => simp [toMacLoopAccesses, toMacLoop, storeAll]
  | done => simp [toMacLoopAccesses, storeAll]
  | up room p hdd ih =>
    rw [toMacLoop_up room hdd, storeAll, storeAll]
    rcases room with _ | room
    · simp [toMacLoopAccesses, hdd, toMacLoop, storeAll]
    · rw [Nat.add_sub_cancel] at ih ⊢
      simp [toMacLoopAccesses, hdd, ih]
  | sep room p hdd ih =>
    rw [toMacLoop_sep room hdd, storeAll, ← ih]
    cases room <;> simp [toMacLoopAccesses, hdd]
  | char room c p hc ih =>
    rw [toMacLoop_char room p hc, storeAll, ← ih]
    cases room <;> simp [toMacLoopAccesses, hc]

/-- A relative path: one colon, and another for a leading `..`. -/
theorem toMacStart_of_ne {dv : VolumeName} {posix_path : CStr} (hrel : posix_path.head? ≠ some '/') :
    toMacStartAccesses dv posix_path = storeAll 0 (toMacStart dv posix_path).1 := by
  have hstart : toMacStart dv posix_path =
      if atDot posix_path then ([':'], skipSlash (posix_path.drop 1))
      else if atDotDot posix_path then ([':', ':'], skipSlash (posix_path.drop 2))
      else ([':'], posix_path) := by
    unfold toMacStart
    split
    · simp at hrel
    · rfl
  rw [hstart]
  unfold toMacStartAccesses
  split
  · simp at hrel
  · split
    · rfl
    · split <;> rfl

theorem puts_toMacStart (dv : VolumeName) (posix_path : CStr) :
    Puts (toMacStartAccesses dv posix_path) (toMacStart dv posix_path).1 := by
  by_cases hrel : posix_path.head? = some '/'
  · obtain ⟨p, rfl⟩ := List.head?_eq_some_iff.mp hrel
    rw [toMacStartAccesses, toMacStart]
    split
    · exact puts_storeAll []
    · exact (puts_strcpy dv.name).append [':']
  · rw [toMacStart_of_ne hrel]
    exact puts_storeAll _

theorem stripAccesses_colon (x : CStr) {c : Char} (hc : c ≠ ':') : stripAccesses (x ++ [c] ++ [':']) =
    [.load (x.length + 1), .load x.length, .store (x.length + 1) NUL] := by
  have hlen : (x ++ [c] ++ [':']).length = x.length + 2 := by simp
  have hrev : (x ++ [c] ++ [':']).reverse = ':' :: c :: x.reverse := by simp
  have hlast : ((x.length + 2 : ℕ) : ℤ) - 1 = x.length + 1 := by omega
  have hfore : ((x.length + 2 : ℕ) : ℤ) - 2 = x.length := by omega
  rw [stripAccesses, hlen, if_pos (by omega), hrev, hlast, hfore]
  simp only [if_neg hc]

/-- Elsewhere the test for a trailing colon only looks. -/
theorem stripAccesses_same {out : CStr} (h : stripColon out = out) :
    ∀ a ∈ stripAccesses out, ∃ i : ℤ, 0 ≤ i ∧ a = .load i := by
  intro a ha
  unfold stripAccesses at ha
  split at ha
  · rename_i hlen
    rcases List.mem_cons.mp ha with rfl | ha
    · exact ⟨_, by omega, rfl⟩
    · split at ha
      · rename_i c x hrev
        rcases List.mem_cons.mp ha with rfl | ha
        · exact ⟨_, by omega, rfl⟩
        · rw [stripColon, hrev] at h
          split at ha
          · cases ha
          · rename_i hc
            have hlt := congrArg List.length (show out.dropLast = out by simpa [hc] using h)
            rw [List.length_dropLast] at hlt
            omega
      · cases ha
  · cases ha

theorem memAfter_loads (mem : ℤ → Char) (h : ∀ a ∈ as, ∃ i : ℤ, 0 ≤ i ∧ a = .load i) : memAfter mem as = mem := by
  induction as with
  | nil => rfl
  | cons a as ih =>
    obtain ⟨i, -, rfl⟩ := h a List.mem_cons_self
    exact ih fun b hb => h b (List.mem_cons_of_mem _ hb)

/-- The test for a trailing colon looks at no place in front of `out`. -/
theorem stripAccesses_spec (out : CStr) :
    (∀ (i : ℤ) (c : Char), .store i c ∈ stripAccesses out → 0 ≤ i ∧ i < out.length) ∧
      (∀ i : ℤ, .load i ∈ stripAccesses out → 0 ≤ i) ∧
      ∀ mem, ReadsAs mem out → ReadsAs (memAfter mem (stripAccesses out)) (stripColon out) := by
  rcases stripColon_cases out with hs | ⟨x, c, hc, rfl, hs⟩
  · have hloads := stripAccesses_same hs
    refine ⟨fun i c h => ?_, fun i h => ?_, fun mem hmem => ?_⟩
    · obtain ⟨j, -, hj⟩ := hloads _ h
      cases hj
    · obtain ⟨j, hj, heq⟩ := hloads _ h
      rwa [Access.load.inj heq]
    · rw [memAfter_loads mem hloads, hs]
      exact hmem
  · rw [stripAccesses_colon x hc, hs]
    refine ⟨fun i e h => ?_, fun i h => ?_, fun mem hmem => ?_⟩
    · have hi : i = x.length + 1 := by simpa using (by simpa using h : _ ∧ _).1
      simp only [List.length_append, List.length_singleton]
      omega
    · have hi : i = x.length + 1 ∨ i = x.length := by simpa using h
      omega
    · have hlen : (x ++ [c]).length = x.length + 1 := by simp
      refine ⟨fun k hk => ?_, ?_⟩
      · have hlt : k < (x ++ [c] ++ [':']).length := by
          rw [List.length_append]
          omega
        rw [memAfter, memAfter, memAfter, memAfter, Function.update_of_ne (by omega), hmem.chars k hlt,
          List.getElem_append_left hk]
      · rw [memAfter, memAfter, memAfter, memAfter, hlen]
        exact Function.update_self ..

theorem stripColon_length_le (out : CStr) : (stripColon out).length ≤ out.length := by
  rcases stripColon_cases out with hs | ⟨x, c, -, rfl, hs⟩
  · exact Nat.le_of_eq (congrArg List.length hs)
  · rw [hs]
    simp

section ToMac

variable (dv : VolumeName) (posix_path : CStr) (dst_size : ℕ)

/-- What stands at `out` in front of the test for a trailing colon. -/
def toMacWritten : CStr :=
  (toMacStart dv posix_path).1 ++
    toMacLoop (dst_size - 1 - (toMacStart dv posix_path).1.length) (toMacStart dv posix_path).2

theorem puts_toMac : Puts (toMacStartAccesses dv posix_path ++
    toMacLoopAccesses (dst_size - 1 - (toMacStart dv posix_path).1.length) (toMacStart dv posix_path).1.length
      (toMacStart dv posix_path).2) (toMacWritten dv posix_path dst_size) := by
  rw [toMacLoopAccesses_eq]
  exact (puts_toMacStart dv posix_path).append _

/-- The memory holds the string the string model returns. -/
theorem toMacAccesses_reads (mem : ℤ → Char) :
    ReadsAs (memAfter mem (toMacAccesses dv posix_path dst_size)) (posix9_path_to_mac dv posix_path dst_size) := by
  unfold toMacAccesses posix9_path_to_mac
  split
  · exact (puts_storeAll []).reads mem
  · rw [memAfter_append]
    exact (stripAccesses_spec _).2.2 _ ((puts_toMac dv posix_path dst_size).reads mem)

theorem toMac_inside_iff (hpath : posix_path ≠ []) :
    StaysInside dst_size (toMacAccesses dv posix_path dst_size) ↔
      (toMacWritten dv posix_path dst_size).length < dst_size := by
  obtain ⟨hstores, hloads, hreads⟩ := stripAccesses_spec (toMacWritten dv posix_path dst_size)
  rw [toMacAccesses, if_neg hpath]
  exact (puts_toMac dv posix_path dst_size).inside_iff dst_size hstores hloads hreads
    (stripColon_length_le _)

end ToMac

/-! ### Where the rounds of posix9_path_to_mac begin -/

theorem upsFrom_add (k d : ℕ) (cs : List CStr) : upsFrom (d + k) cs = (upsFrom d cs).map (· + k) := by
  fun_induction upsFrom d cs with
  | case1 => rfl
  | case2 => simp [upsFrom]
  | case3 d c hc => simp [upsFrom, hc]
  | case4 d c cs ih =>
    rw [upsFrom, if_pos rfl, List.map_cons, ← ih]
    congr 2
    omega
  | case5 d c cs hdd ih => simpa [upsFrom, hdd] using ih
  | case6 d c c' cs hdd hne ih =>
    rw [upsFrom, if_neg hdd, if_neg hne, ← ih]
    congr 1
    omega

theorem upsFrom_name {c : CStr} (hne : c ≠ []) (hdd : c ≠ dotdot) (d : ℕ) (cs : List CStr) :
    upsFrom d (c :: cs) = upsFrom (d + 1 + c.length) cs := by
  cases cs <;> simp [upsFrom, hne, hdd]

theorem upsFrom_skip (d : ℕ) (p : CStr) :
    upsFrom d (p.splitOn '/') = upsFrom d ((skipSlashes p).splitOn '/') := by
  induction p with
  | nil => rfl
  | cons c p ih =>
    rcases eq_or_ne c '/' with rfl | hc
    · obtain ⟨h, t, ht⟩ := exists_fields '/' p
      have hskip : skipSlashes ('/' :: p) = skipSlashes p := by simp [skipSlashes]
      have hempty : upsFrom d ([] :: h :: t) = upsFrom d (h :: t) := by simp [upsFrom, dotdot]
      rw [splitOn_cons_self, hskip, ← ih, ht, hempty]
    · simp [skipSlashes, hc]

/-- None of the rounds for `..` begins with one place of the room left. -/
def Roomy (room : ℕ) (ups : List ℕ) : Prop := ∀ u ∈ ups, u + 1 ≠ room

theorem roomy_map (k room : ℕ) (ups : List ℕ) : Roomy (room + k) (ups.map (· + k)) ↔ Roomy room ups := by
  simp only [Roomy, List.forall_mem_map]
  exact forall₂_congr fun u _ => by omega

/-- The loop keeps to its room exactly where no round for `..` begins with one place left. -/
theorem toMacLoop_length_iff (room : ℕ) (p : CStr) : ∀ h t, p.splitOn '/' = h :: t →
    ((toMacLoop room p).length ≤ room ↔ Roomy room (upsFrom h.length t)) := by
  induction room, p using toMacLoop_rec with
  | full p => simp [toMacLoop, Roomy]
  | done room =>
    intro h t ht
    obtain ⟨rfl, rfl⟩ : [] = h ∧ [] = t := by simpa using ht
    simp [Roomy, upsFrom]
  | up room p hdd ih =>
    intro h t ht
    obtain ⟨rfl, rfl⟩ : [] = h ∧ p.splitOn '/' = t := by simpa using ht
    obtain ⟨t', ht'⟩ := (atDotDot_iff _).mp hdd
    rw [toMacLoop_up room hdd, upsFrom_skip, ht']
    simp only [List.length_cons, List.length_nil]
    rcases room with _ | room
    · -- the second colon takes the place of the NUL
      refine iff_of_false (by omega) fun hroomy => hroomy 0 ?_ rfl
      rcases t' with _ | ⟨c, cs⟩ <;> simp [upsFrom]
    rw [Nat.add_sub_cancel] at ih ⊢
    rcases skip_component ht' with ⟨rfl, hrest⟩ | hrest <;> rw [show dotdot.length = 2 from rfl] at hrest
    · rw [hrest]
      simp [Roomy, upsFrom]
    · obtain ⟨c, cs, hc⟩ := exists_fields '/' (skipSlash ((skipSlashes p).drop 2))
      have hups : upsFrom 0 (dotdot :: t') = 0 :: (upsFrom c.length cs).map (· + 2) := by
        rw [← hrest, hc, upsFrom, if_pos rfl, ← upsFrom_add]
        congr 2
        omega
      have hfirst : Roomy (room + 1 + 1) (0 :: (upsFrom c.length cs).map (· + 2)) ↔
          Roomy (room + 2) ((upsFrom c.length cs).map (· + 2)) := by
        simp [Roomy]
      rw [hups, hfirst, roomy_map, ← ih c cs hc]
      omega
  | sep room p hdd ih =>
    intro h t ht
    obtain ⟨rfl, rfl⟩ : [] = h ∧ p.splitOn '/' = t := by simpa using ht
    obtain ⟨c, cs, hc⟩ := exists_fields '/' (skipSlashes p)
    rw [toMacLoop_sep room hdd, upsFrom_skip, hc]
    simp only [List.length_cons, List.length_nil, Nat.add_le_add_iff_right]
    rw [ih c cs hc]
    rcases eq_or_ne c [] with rfl | hne
    · rw [skipSlashes_fields hc]
      simp [Roomy, upsFrom, dotdot]
    · have hcdd : c ≠ dotdot := by
        rintro rfl
        simp [(atDotDot_iff _).mpr ⟨cs, hc⟩] at hdd
      rw [upsFrom_name hne hcdd, ← roomy_map 1, ← upsFrom_add]
      congr! 2
      omega
  | char room c p hc ih =>
    intro h t ht
    obtain ⟨g, gs, hg⟩ := exists_fields '/' p
    obtain ⟨rfl, rfl⟩ : c :: g = h ∧ gs = t := by simpa [splitOn_cons_of_ne hc hg] using ht
    rw [toMacLoop_char room p hc, List.length_cons, Nat.add_le_add_iff_right, ih g gs hg, ← roomy_map 1,
      ← upsFrom_add, List.length_cons]

theorem toMacStart_length_lt (dv : VolumeName) (posix_path : CStr) :
    (toMacStart dv posix_path).1.length < 65 := by
  have hname := dv.length_le
  unfold toMacStart
  split
  · split
    · simp
    · rw [List.length_append, List.length_singleton]
      omega
  · split
    · simp
    · split <;> simp

theorem upsOf_eq {dv : VolumeName} {posix_path c : CStr} {cs : List CStr}
    (hc : (toMacStart dv posix_path).2.splitOn '/' = c :: cs) :
    upsOf dv posix_path = upsFrom ((toMacStart dv posix_path).1.length + c.length) cs := by
  simp [upsOf, hc]

theorem toMacWritten_length_iff (dv : VolumeName) (posix_path : CStr) {dst_size : ℕ} (hsize : 65 ≤ dst_size) :
    (toMacWritten dv posix_path dst_size).length < dst_size ↔ UpsFit dv posix_path dst_size := by
  have hstart := toMacStart_length_lt dv posix_path
  obtain ⟨c, cs, hc⟩ := exists_fields '/' (toMacStart dv posix_path).2
  rw [toMacWritten, UpsFit, upsOf_eq hc, List.length_append]
  generalize (toMacStart dv posix_path).1 = out at *
  generalize (toMacStart dv posix_path).2 = rest at *
  have hloop := toMacLoop_length_iff (dst_size - 1 - out.length) rest c cs hc
  have hshift := roomy_map out.length (dst_size - 1 - out.length) (upsFrom c.length cs)
  rw [← upsFrom_add, Nat.add_comm c.length] at hshift
  have hfit : Roomy (dst_size - 1 - out.length + out.length) (upsFrom (out.length + c.length) cs) ↔
      ∀ d ∈ upsFrom (out.length + c.length) cs, d + 2 ≠ dst_size :=
    forall₂_congr fun u _ => by omega
  rw [← hfit, hshift, ← hloop]
  omega

/-! ### The accesses of posix9_path_from_mac -/

theorem fromMacUpsAccesses_eq (d : ℕ) (p : CStr) : fromMacUpsAccesses d p = storeAll d (fromMacUps p).1 := by
  induction p generalizing d with
  | nil => rfl
  | cons c p ih =>
    rcases eq_or_ne c ':' with rfl | hc
    · simp only [fromMacUpsAccesses, fromMacUps, if_true, storeAll, ih]
      rfl
    · simp [fromMacUpsAccesses, fromMacUps, hc, storeAll]

theorem puts_fromMacStart (mac_path : CStr) :
    Puts (fromMacStartAccesses mac_path) (fromMacStart mac_path).1 := by
  by_cases hrel : mac_path.head? = some ':'
  · obtain ⟨p, rfl⟩ := List.head?_eq_some_iff.mp hrel
    have hups : Puts (.store 0 '.' :: fromMacUpsAccesses 1 p) ('.' :: (fromMacUps p).1) := by
      rw [fromMacUpsAccesses_eq]
      exact puts_storeAll ('.' :: (fromMacUps p).1)
    simp only [fromMacStartAccesses, fromMacStart]
    split
    · rw [List.append_nil]
      exact hups
    · have hslash := hups.append ['/']
      rw [List.length_cons, Nat.add_comm] at hslash
      exact hslash
  · have hfull : fromMacStart mac_path = ('/' :: volumesPrefix, mac_path) := by
      unfold fromMacStart
      split
      · simp at hrel
      · rfl
    rw [hfull]
    unfold fromMacStartAccesses
    split
    · simp at hrel
    · exact puts_strcpy _

theorem fromMacLoopAccesses_eq (room d : ℕ) (p : CStr) :
    fromMacLoopAccesses room d p = storeAll d (fromMacLoop room p) := by
  induction room, p using fromMacLoop_rec generalizing d with
  | full => simp [fromMacLoopAccesses, fromMacLoop, storeAll]
  | done => simp [fromMacLoopAccesses, storeAll]
  | up room p ih =>
    rw [fromMacLoop_up, storeAll, storeAll, storeAll, fromMacLoopAccesses, ih]
    rfl
  | sep room p h ih =>
    rw [fromMacLoop_sep room h, storeAll, ← ih]
    rcases p with _ | ⟨c, p⟩
    · simp [fromMacLoopAccesses]
    · rw [fromMacLoopAccesses]
      rintro q hq
      simp [List.cons.inj hq] at h
  | char room c p hc ih =>
    rw [fromMacLoop_char room p hc, storeAll, ← ih]
    simp [fromMacLoopAccesses, hc]

section FromMac

variable (mac_path : CStr) (dst_size : ℕ)

theorem puts_fromMac : Puts (fromMacStartAccesses mac_path ++
    fromMacLoopAccesses (dst_size - 1 - (fromMacStart mac_path).1.length) (fromMacStart mac_path).1.length
      (fromMacStart mac_path).2)
    ((fromMacStart mac_path).1 ++
      fromMacLoop (dst_size - 1 - (fromMacStart mac_path).1.length) (fromMacStart mac_path).2) := by
  rw [fromMacLoopAccesses_eq]
  exact (puts_fromMacStart mac_path).append _

/-- The memory holds the string the string model returns. -/
theorem fromMacAccesses_reads (mem : ℤ → Char) :
    ReadsAs (memAfter mem (fromMacAccesses mac_path dst_size)) (posix9_path_from_mac mac_path dst_size) := by
  unfold fromMacAccesses posix9_path_from_mac
  split
  · exact (puts_storeAll []).reads mem
  · exact (puts_fromMac mac_path dst_size).reads mem

theorem fromMac_inside_iff (hpath : mac_path ≠ []) :
    StaysInside dst_size (fromMacAccesses mac_path dst_size) ↔
      (posix9_path_from_mac mac_path dst_size).length < dst_size := by
  have hloads : ∀ i : ℤ, Access.load i ∈ ([] : List Access) → 0 ≤ i := fun _ h => by cases h
  have hiff := (puts_fromMac mac_path dst_size).inside_iff dst_size (fun _ _ h => by cases h) hloads (fun _ h => h)
    (Nat.le_refl _)
  rw [List.append_nil] at hiff
  rw [fromMacAccesses, posix9_path_from_mac, if_neg hpath, if_neg hpath]
  exact hiff

end FromMac

/-! ### Where the rounds of posix9_path_from_mac begin -/

theorem doublesFrom_add (k d : ℕ) (p : CStr) : doublesFrom (d + k) p = (doublesFrom d p).map (· + k) := by
  fun_induction doublesFrom d p with
  | case1 => rfl
  | case2 d p ih =>
    rw [doublesFrom, List.map_cons, ← ih]
    congr 2
    omega
  | case3 d c p hne ih =>
    rw [doublesFrom, ← ih]
    · congr 1
      omega
    · exact hne

theorem doublesFrom_up (d : ℕ) (p : CStr) : doublesFrom d (':' :: ':' :: p) = d :: doublesFrom (d + 3) p := by
  rw [doublesFrom]

theorem doublesFrom_sep (d : ℕ) {p : CStr} (h : p.head? ≠ some ':') :
    doublesFrom d (':' :: p) = doublesFrom (d + 1) p := by
  rw [doublesFrom]
  rintro q - hq
  simp [hq] at h

theorem doublesFrom_char (d : ℕ) {c : Char} (p : CStr) (hc : c ≠ ':') :
    doublesFrom d (c :: p) = doublesFrom (d + 1) p := by
  rw [doublesFrom]
  rintro q hq
  exact absurd hq hc

/-- None of the rounds for a double colon begins with one or two places of the room left. -/
def Wide (room : ℕ) (doubles : List ℕ) : Prop := ∀ u ∈ doubles, u + 1 ≠ room ∧ u + 2 ≠ room

theorem wide_map (k room : ℕ) (doubles : List ℕ) : Wide (room + k) (doubles.map (· + k)) ↔ Wide room doubles := by
  simp only [Wide, List.forall_mem_map]
  exact forall₂_congr fun u _ => by omega

/-- The loop keeps to its room exactly where no round for a double colon begins with one or two places left. -/
theorem fromMacLoop_length_iff (room : ℕ) (p : CStr) :
    (fromMacLoop room p).length ≤ room ↔ Wide room (doublesFrom 0 p) := by
  induction room, p using fromMacLoop_rec with
  | full p => simp [fromMacLoop, Wide]
  | done room => simp [Wide, doublesFrom]
  | up room p ih =>
    rw [fromMacLoop_up, doublesFrom_up]
    simp only [List.length_cons]
    rcases Nat.lt_or_ge room 2 with hlt | hge
    · refine iff_of_false (by omega) fun hwide => ?_
      have := hwide 0 List.mem_cons_self
      omega
    · obtain ⟨k, rfl⟩ := Nat.exists_eq_add_of_le' hge
      rw [Nat.add_sub_cancel] at ih ⊢
      have hfirst : Wide (k + 2 + 1) (0 :: doublesFrom (0 + 3) p) ↔ Wide (k + 3) (doublesFrom (0 + 3) p) := by
        simp [Wide]
      rw [hfirst, doublesFrom_add, wide_map, ← ih]
      omega
  | sep room p h ih =>
    rw [fromMacLoop_sep room h, doublesFrom_sep 0 h, doublesFrom_add, wide_map, ← ih]
    simp
  | char room c p hc ih =>
    rw [fromMacLoop_char room p hc, doublesFrom_char 0 p hc, doublesFrom_add, wide_map, ← ih]
    simp

theorem fromMac_length_iff {mac_path : CStr} (hpath : mac_path ≠ []) (dst_size : ℕ) :
    (posix9_path_from_mac mac_path dst_size).length < dst_size ↔ DoublesFit mac_path dst_size := by
  simp only [posix9_path_from_mac, if_neg hpath, DoublesFit, List.length_append]
  generalize (fromMacStart mac_path).1 = out
  generalize (fromMacStart mac_path).2 = rest
  rcases Nat.lt_or_ge out.length dst_size with hlt | hge
  · have hloop := fromMacLoop_length_iff (dst_size - 1 - out.length) rest
    have hshift := wide_map out.length (dst_size - 1 - out.length) (doublesFrom 0 rest)
    rw [← doublesFrom_add, Nat.zero_add] at hshift
    have hfit : Wide (dst_size - 1 - out.length + out.length) (doublesFrom out.length rest) ↔
        ∀ d ∈ doublesFrom out.length rest, d + 2 ≠ dst_size ∧ d + 3 ≠ dst_size :=
      forall₂_congr fun u _ => by omega
    rw [← hfit, hshift, ← hloop, and_iff_right hlt]
    omega
  · exact iff_of_false (by omega) fun h => by omega

/-! ### The law of both -/

/-- Each translator stays inside a buffer of 65 bytes or more exactly when no `..`, and no double colon, falls
    on its last places and the leading colons leave room for the NUL. -/
theorem staysInside_iff (default_volume : VolumeName) (posix_path mac_path : CStr) (dst_size : ℕ)
    (hsize : 65 ≤ dst_size) :
    (StaysInside dst_size (toMacAccesses default_volume posix_path dst_size) ↔
        UpsFit default_volume posix_path dst_size) ∧
      (StaysInside dst_size (fromMacAccesses mac_path dst_size) ↔ DoublesFit mac_path dst_size) := by
  have hempty : StaysInside dst_size [.store 0 NUL] := by
    refine ⟨fun i c h => ?_, fun i h => by simp at h, fun mem => ⟨0, by omega, ?_⟩⟩
    · obtain ⟨rfl, -⟩ := Access.store.inj (List.mem_singleton.mp h)
      omega
    · rw [memAfter, memAfter]
      exact Function.update_self ..
  constructor
  · rcases eq_or_ne posix_path [] with rfl | hpath
    · refine iff_of_true hempty fun d hd => ?_
      have hnone : upsOf default_volume [] = [] := rfl
      simp [hnone] at hd
    · rw [toMac_inside_iff default_volume posix_path dst_size hpath, toMacWritten_length_iff _ _ hsize]
  · rcases eq_or_ne mac_path [] with rfl | hpath
    · refine iff_of_true hempty ⟨?_, fun d hd => ?_⟩
      · have hstart : (fromMacStart []).1.length = 9 := by decide
        omega
      · have hnone : doublesFrom (fromMacStart []).1.length (fromMacStart []).2 = [] := rfl
        simp [hnone] at hd
    · rw [fromMac_inside_iff mac_path dst_size hpath, fromMac_length_iff hpath]

/-- `../foo` and `::foo` in a buffer of 256 bytes. -/
theorem staysInside_parent :
    StaysInside 256 (toMacAccesses macintoshHD "../foo".toList 256) ∧
      StaysInside 256 (fromMacAccesses "::foo".toList 256) :=
  have h := staysInside_iff macintoshHD "../foo".toList "::foo".toList 256 (by decide)
  ⟨h.1.mpr (by decide +kernel), h.2.mpr (by decide +kernel)⟩

/-- A `..` behind 253 characters: its second colon takes the last place and the NUL goes behind the buffer. -/
theorem dotdot_at_the_end : ¬ StaysInside 256
    (toMacAccesses macintoshHD (List.replicate 253 'a' ++ "/..".toList) 256) := by
  intro h
  have hlast : .store 256 NUL ∈ toMacAccesses macintoshHD (List.replicate 253 'a' ++ "/..".toList) 256 := by
    decide +kernel
  exact absurd (h.stores 256 NUL hlast).2 (by decide)

end Posix9
