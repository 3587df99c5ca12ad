import Posix9.Navigation

/-! posix9_path_from_mac against the reading of Mac pathnames, and its result handed to
    path_to_fsspec_basic, the way os9_verify_password and openlog reach their files.

    As in the other direction the loop is first followed field by field (`slashFields`). -/

namespace Posix9
open Fields Walk

/-! ### The loop, character by character -/

attribute [local simp] fromMacLoop

@[simp] theorem fromMacLoop_nil (room : ℕ) : fromMacLoop room [] = [] := by
  cases room <;> simp

theorem fromMacLoop_up (room : ℕ) (p : CStr) :
    fromMacLoop (room + 1) (':' :: ':' :: p) = '/' :: '.' :: '.' :: fromMacLoop (room - 2) p := by
  simp

theorem fromMacLoop_sep (room : ℕ) {p : CStr} (h : p.head? ≠ some ':') :
    fromMacLoop (room + 1) (':' :: p) = '/' :: fromMacLoop room p := by
  rcases p with _ | ⟨c, p⟩
  · simp
  · rw [fromMacLoop]
    rintro q hq
    simp [List.cons.inj hq] at h

theorem fromMacLoop_char (room : ℕ) {c : Char} (p : CStr) (hc : c ≠ ':') :
    fromMacLoop (room + 1) (c :: p) = c :: fromMacLoop room p := by
  simp [hc]

/-- Induction along the loop: out of room, at the end, at a double colon, at a single colon, at any
    other character. -/
theorem fromMacLoop_rec {motive : ℕ → CStr → Prop} (full : ∀ p, motive 0 p)
    (done : ∀ room, motive (room + 1) [])
    (up : ∀ room p, motive (room - 2) p → motive (room + 1) (':' :: ':' :: p))
    (sep : ∀ room p, p.head? ≠ some ':' → motive room p → motive (room + 1) (':' :: p))
    (char : ∀ room c p, c ≠ ':' → motive room p → motive (room + 1) (c :: p)) :
    ∀ room p, motive room p := by
  intro room
  induction room using Nat.strongRecOn with
  | ind room ih =>
    intro p
    rcases room with _ | room
    · exact full p
    rcases p with _ | ⟨c, p⟩
    · exact done room
    rcases eq_or_ne c ':' with rfl | hc
    · rcases p with _ | ⟨c, p⟩
      · exact sep room [] (by simp) (ih _ (by omega) _)
      rcases eq_or_ne c ':' with rfl | hc
      · exact up room p (ih _ (by omega) _)
      · exact sep room (c :: p) (by simpa using hc) (ih _ (by omega) _)
    · exact char room c p hc (ih _ (by omega) _)

/-- The loop writes at most two characters for one it reads. -/
theorem fromMacLoop_length_le (room : ℕ) (p : CStr) :
    (fromMacLoop room p).length ≤ 2 * p.length := by
  induction room, p using fromMacLoop_rec with
  | full => simp
  | done => simp
  | up room p ih =>
    rw [fromMacLoop_up]
    simp only [List.length_cons]
    omega
  | sep room p h ih =>
    rw [fromMacLoop_sep room h]
    simp only [List.length_cons]
    omega
  | char room c p hc ih =>
    rw [fromMacLoop_char room p hc]
    simp only [List.length_cons]
    omega

/-- With more room the loop writes at least as much, and it stops early only when its room is used
    up. -/
theorem fromMacLoop_more (room : ℕ) (p : CStr) :
    ∀ more, room ≤ more → fromMacLoop room p <+: fromMacLoop more p ∧
      (fromMacLoop room p = fromMacLoop more p ∨ room ≤ (fromMacLoop room p).length) := by
  induction room, p using fromMacLoop_rec with
  | full => simp
  | done => simp
  | up room p ih =>
    rintro (_ | more) hmore
    · omega
    obtain ⟨hpre, hstop⟩ := ih (more - 2) (by omega)
    rw [fromMacLoop_up, fromMacLoop_up]
    refine ⟨by simpa using hpre, hstop.imp (fun h => by rw [h]) fun h => ?_⟩
    simp only [List.length_cons]
    omega
  | sep room p h ih =>
    rintro (_ | more) hmore
    · omega
    obtain ⟨hpre, hstop⟩ := ih more (by omega)
    rw [fromMacLoop_sep room h, fromMacLoop_sep more h]
    exact ⟨by simpa using hpre, hstop.imp (fun h => by rw [h]) fun h => by simpa using h⟩
  | char room c p hc ih =>
    rintro (_ | more) hmore
    · omega
    obtain ⟨hpre, hstop⟩ := ih more (by omega)
    rw [fromMacLoop_char room p hc, fromMacLoop_char more p hc]
    exact ⟨by simpa using hpre, hstop.imp (fun h => by rw [h]) fun h => by simpa using h⟩

/-- All that the loop would write of a path. -/
def fromMacWhole (p : CStr) : CStr := fromMacLoop (2 * p.length) p

theorem fromMacLoop_of_length_le {room : ℕ} {p : CStr} (h : (fromMacWhole p).length ≤ room) :
    fromMacLoop room p = fromMacWhole p := by
  rcases Nat.le_total room (2 * p.length) with hr | hr
  · obtain ⟨hpre, hstop⟩ := fromMacLoop_more room p (2 * p.length) hr
    rcases hstop with heq | hfull
    · exact heq
    · exact hpre.eq_of_length_le (by unfold fromMacWhole at h; omega)
  · obtain ⟨hpre, hstop⟩ := fromMacLoop_more (2 * p.length) p room hr
    have hle := fromMacLoop_length_le room p
    rcases hstop with heq | hfull
    · exact heq.symm
    · exact (hpre.eq_of_length_le (by omega)).symm

@[simp] theorem fromMacWhole_nil : fromMacWhole [] = [] := rfl

theorem fromMacWhole_up (p : CStr) :
    fromMacWhole (':' :: ':' :: p) = '/' :: '.' :: '.' :: fromMacWhole p := by
  have h : 2 * (':' :: ':' :: p).length = (2 * p.length + 3) + 1 := by simp; omega
  rw [fromMacWhole, h, fromMacLoop_up, fromMacLoop_of_length_le]
  exact Nat.le_trans (fromMacLoop_length_le _ _) (by omega)

theorem fromMacWhole_sep {p : CStr} (h : p.head? ≠ some ':') :
    fromMacWhole (':' :: p) = '/' :: fromMacWhole p := by
  have hn : 2 * (':' :: p).length = (2 * p.length + 1) + 1 := by simp; omega
  rw [fromMacWhole, hn, fromMacLoop_sep _ h, fromMacLoop_of_length_le]
  exact Nat.le_trans (fromMacLoop_length_le _ _) (by omega)

theorem fromMacWhole_char {c : Char} (p : CStr) (hc : c ≠ ':') :
    fromMacWhole (c :: p) = c :: fromMacWhole p := by
  have hn : 2 * (c :: p).length = (2 * p.length + 1) + 1 := by simp; omega
  rw [fromMacWhole, hn, fromMacLoop_char _ _ hc, fromMacLoop_of_length_le]
  exact Nat.le_trans (fromMacLoop_length_le _ _) (by omega)

/-! ### The loop, field by field -/

/-- The components the loop writes for fields that each have a colon in front: an empty field takes
    the next colon with it, and the field behind that colon is glued to the `..`. -/
def slashFields : List CStr → List CStr
  | [] => []
  | [f] => [f]
  | f :: f' :: fs =>
    if f = [] then (dotdot ++ f') :: slashFields fs else f :: slashFields (f' :: fs)

section

attribute [local simp] slashFields

theorem slashFields_name {f : CStr} (hf : f ≠ []) (fs : List CStr) :
    slashFields (f :: fs) = f :: slashFields fs := by
  cases fs <;> simp [hf]

@[simp] theorem slashFields_empty (f : CStr) (fs : List CStr) :
    slashFields ([] :: f :: fs) = (dotdot ++ f) :: slashFields fs := by
  simp

end

theorem fromMacWhole_fields {p h : CStr} {t : List CStr} (hp : '/' ∉ p)
    (hfields : p.splitOn ':' = h :: t) : (fromMacWhole p).splitOn '/' = h :: slashFields t := by
  induction hn : p.length using Nat.strongRecOn generalizing p h t with
  | ind n ih =>
    rcases p with _ | ⟨c, p⟩
    · obtain ⟨rfl, rfl⟩ : [] = h ∧ [] = t := by simpa using hfields
      rfl
    have hcp : c ≠ '/' ∧ '/' ∉ p := by simpa [eq_comm] using hp
    rw [List.length_cons] at hn
    rcases eq_or_ne c ':' with rfl | hc
    · obtain ⟨rfl, rfl⟩ : [] = h ∧ p.splitOn ':' = t := by simpa using hfields
      by_cases hhead : p.head? = some ':'
      · obtain ⟨q, rfl⟩ : ∃ q, p = ':' :: q := List.head?_eq_some_iff.mp hhead
        obtain ⟨g, gs, hg⟩ := exists_fields ':' q
        have hq : '/' ∉ q := fun h => hcp.2 (List.mem_cons_of_mem _ h)
        rw [List.length_cons] at hn
        rw [fromMacWhole_up, splitOn_cons_self, splitOn_cons_self, hg, slashFields_empty,
          splitOn_cons_of_ne (by decide)
            (splitOn_cons_of_ne (by decide) (ih _ (by omega) hq hg rfl))]
        rfl
      · obtain ⟨g, gs, hg⟩ := exists_fields ':' p
        rw [fromMacWhole_sep hhead, splitOn_cons_self, ih _ (by omega) hcp.2 hg rfl, hg]
        rcases eq_or_ne g [] with rfl | hne
        · rcases eq_of_splitOn hg with ⟨-, rfl⟩ | ⟨rest, rfl, -⟩
          · rfl
          · simp at hhead
        · rw [slashFields_name hne]
    · obtain ⟨g, gs, hg⟩ := exists_fields ':' p
      obtain ⟨rfl, rfl⟩ : c :: g = h ∧ gs = t := by
        simpa [splitOn_cons_of_ne hc hg] using hfields
      rw [fromMacWhole_char p hc]
      exact splitOn_cons_of_ne hcp.1 (ih p.length (by omega) hcp.2 hg rfl)

/-! ### Fields against moves -/

theorem length_posixMoves_cons_le (c : CStr) (cs : List CStr) :
    (posixMoves (c :: cs)).length ≤ (posixMoves cs).length + 1 := by
  unfold posixMoves
  rw [List.filterMap_cons]
  split <;> simp

theorem length_ofFields_le (f : CStr) (fs : List CStr) :
    (ofFields fs).length ≤ (ofFields (f :: fs)).length := by
  cases f with
  | cons c cs => simp
  | nil => cases fs <;> simp

/-- The translator never adds a move. -/
theorem length_posixMoves_slashFields (fs : List CStr) :
    (posixMoves (slashFields fs)).length ≤ (ofFields fs).length := by
  fun_induction slashFields fs with
  | case1 => simp
  | case2 f =>
    by_cases hf : f = []
    · simp [hf]
    · simpa [ofFields_down hf] using length_posixMoves_cons_le f []
  | case3 f fs ih =>
    have h := length_posixMoves_cons_le (dotdot ++ f) (slashFields fs)
    have h' := length_ofFields_le f fs
    rw [ofFields_up, List.length_cons]
    omega
  | case4 f f' fs hf ih =>
    have h := length_posixMoves_cons_le f (slashFields (f' :: fs))
    rw [ofFields_down hf, List.length_cons]
    omega

/-- No colon run behind the first component but single colons, and two colons at the end. -/
def singleColons : List CStr → Bool
  | [] => true
  | f :: fs => if f = [] then fs = [] ∨ fs = [[]] else singleColons fs

theorem posixMoves_slashFields_iff (fs : List CStr) (hord : ∀ f ∈ fs, Ordinary f) :
    posixMoves (slashFields fs) = ofFields fs ↔ singleColons fs = true := by
  fun_induction slashFields fs with
  | case1 => simp [singleColons]
  | case2 f =>
    obtain ⟨-, hd, hdd⟩ := hord f (by simp)
    by_cases hf : f = []
    · simp [hf, singleColons]
    · rw [posixMoves_name hf hd hdd, ofFields_down hf]
      simp [hf, singleColons]
  | case3 f fs ih =>
    rw [ofFields_up]
    rcases eq_or_ne f [] with rfl | hf
    · have hlen := length_posixMoves_slashFields fs
      rw [List.append_nil, posixMoves_dotdot]
      cases fs with
      | nil => simp [singleColons, slashFields]
      | cons g gs =>
        -- a third colon: one move up is lost
        have hlost : posixMoves (slashFields (g :: gs)) ≠ .up :: ofFields (g :: gs) := by
          intro h
          rw [h, List.length_cons] at hlen
          omega
        simp [singleColons, hlost]
    · have hne : dotdot ++ f ≠ [] := by simp [dotdot]
      rw [posixMoves_name hne (by simp [dotdot, dot]) (by simp [dotdot, hf])]
      simp [singleColons, hf]
  | case4 f f' fs hf ih =>
    obtain ⟨-, hd, hdd⟩ := hord f (by simp)
    rw [posixMoves_name hf hd hdd, ofFields_down hf]
    simpa [singleColons, hf] using ih fun g hg => hord g (List.mem_cons_of_mem _ hg)

/-! ### Navigation -/

/-- All that posix9_path_from_mac would write: this buffer never stops the loop. -/
def wholePosixPath (mac_path : CStr) : CStr :=
  posix9_path_from_mac mac_path (3 * mac_path.length + 10)

/-- The loop over the leading colons writes one `/..` for each. -/
theorem fromMacUps_eq (p : CStr) : ∃ k, p = List.replicate k ':' ++ p.dropWhile (· == ':') ∧
    fromMacUps p = ((List.replicate k ('/' :: dotdot)).flatten, p.dropWhile (· == ':')) := by
  induction p with
  | nil => exact ⟨0, by simp [fromMacUps]⟩
  | cons c p ih =>
    rcases eq_or_ne c ':' with rfl | hc
    · obtain ⟨k, hp, hups⟩ := ih
      refine ⟨k + 1, by simpa [List.replicate_succ] using hp, ?_⟩
      simp [fromMacUps, hups, List.replicate_succ, dotdot]
    · exact ⟨0, by simp [fromMacUps, hc]⟩

theorem fromMacStart_colon (p : CStr) : ∃ k, p = List.replicate k ':' ++ p.dropWhile (· == ':') ∧
    fromMacStart (':' :: p) = (dot ++ (List.replicate k ('/' :: dotdot)).flatten ++
      if p.dropWhile (· == ':') = [] then [] else ['/'], p.dropWhile (· == ':')) := by
  obtain ⟨k, hp, hups⟩ := fromMacUps_eq p
  refine ⟨k, hp, ?_⟩
  simp only [fromMacStart, hups]
  split <;> rename_i h <;> simp [h, dot]

theorem fromMacStart_full {c : Char} (p : CStr) (hc : c ≠ ':') :
    fromMacStart (c :: p) = ('/' :: volumesPrefix, c :: p) := by
  unfold fromMacStart
  split
  · simp_all
  · rfl

theorem fromMacStart_length (m : CStr) :
    (fromMacStart m).1.length + 2 * (fromMacStart m).2.length ≤ 3 * m.length + 9 := by
  rcases m with _ | ⟨c, p⟩
  · decide
  rcases eq_or_ne c ':' with rfl | hc
  · obtain ⟨k, hp, hstart⟩ := fromMacStart_colon p
    have hlen := congrArg List.length hp
    rw [List.length_append, List.length_replicate] at hlen
    have hups : (List.replicate k ('/' :: dotdot)).flatten.length = k * 3 := by
      rw [List.length_flatten, List.map_replicate, List.sum_replicate_nat]
      rfl
    rw [hstart]
    simp only [List.length_append, hups, List.length_cons]
    split <;> simp only [dot, List.length_cons, List.length_nil] <;> omega
  · have hv : volumesPrefix.length = 8 := by decide
    rw [fromMacStart_full p hc]
    simp only [List.length_cons, hv]
    omega

theorem wholePosixPath_eq {m : CStr} (hm : m ≠ []) :
    wholePosixPath m = (fromMacStart m).1 ++ fromMacWhole (fromMacStart m).2 := by
  have h := fromMacStart_length m
  have hle := fromMacLoop_length_le (2 * (fromMacStart m).2.length) (fromMacStart m).2
  simp only [wholePosixPath, posix9_path_from_mac, if_neg hm]
  rw [fromMacLoop_of_length_le]
  unfold fromMacWhole
  omega

/-- A buffer that holds the result with its NUL receives all of it. -/
theorem posix9_path_from_mac_of_fits (m : CStr) {dst_size : ℕ}
    (hfit : (wholePosixPath m).length < dst_size) :
    posix9_path_from_mac m dst_size = wholePosixPath m := by
  rcases eq_or_ne m [] with rfl | hm
  · rfl
  rw [wholePosixPath_eq hm] at hfit ⊢
  rw [List.length_append] at hfit
  simp only [posix9_path_from_mac, if_neg hm]
  rw [fromMacLoop_of_length_le (by omega)]

/-- What a translation of a Mac pathname has to keep: its moves, and its volume if it is full. -/
structure SameNavigation (mac_path posix_path : CStr) : Prop where
  steps : posixSteps posix_path = macSteps mac_path
  volume : posixVolume posix_path = macVolume mac_path
  relative : macVolume mac_path = none → posix_path.head? ≠ some '/'

/-- The fields of `.` and `k` times `/..`. -/
theorem splitOn_ups (k : ℕ) : (dot ++ (List.replicate k ('/' :: dotdot)).flatten).splitOn '/' =
    dot :: List.replicate k dotdot := by
  suffices h : ∀ f : CStr, '/' ∉ f →
      (f ++ (List.replicate k ('/' :: dotdot)).flatten).splitOn '/' =
        f :: List.replicate k dotdot from h dot (by decide)
  induction k with
  | zero =>
    intro f hf
    simpa using List.splitOn_eq_singleton hf
  | succ k ih =>
    intro f hf
    rw [List.replicate_succ, List.flatten_cons, List.cons_append,
      List.splitOn_append_cons_self_of_not_mem hf, ih dotdot (by decide), List.replicate_succ]

theorem posixMoves_ups (k : ℕ) (cs : List CStr) :
    posixMoves (dot :: List.replicate k dotdot ++ cs) =
      List.replicate k .up ++ posixMoves cs := by
  rw [List.cons_append, posixMoves_dot]
  induction k with
  | zero => simp
  | succ k ih => simpa [List.replicate_succ] using ih

/-- The Mac pathnames posix9_path_from_mac follows: behind the volume name or the leading colons,
    two colons stand together only as the end of the pathname. -/
def singleColonPath (m : CStr) : Bool :=
  singleColons ((m.dropWhile (· == ':')).splitOn ':').tail

/-- A POSIX path that starts with a dot is relative, so only its moves are in question. -/
theorem sameNavigation_dot (p q : CStr) : SameNavigation (':' :: p) (dot ++ q) ↔
    posixMoves ((dot ++ q).splitOn '/') = macSteps (':' :: p) := by
  refine ⟨fun h => h.steps, fun h => ⟨h, ?_, fun _ => by simp [dot]⟩⟩
  rw [macVolume_colon]
  rfl

/-- A POSIX path under `/Volumes/` names the volume of a full pathname. -/
theorem sameNavigation_volumes {m v f q : CStr} {fs cs : List CStr} (hv : v ≠ [])
    (hm : m.splitOn ':' = v :: f :: fs) (hq : q.splitOn '/' = v :: cs) :
    SameNavigation m ('/' :: volumesPrefix ++ q) ↔ posixMoves cs = macSteps m := by
  have hpre : volumesPrefix.isPrefixOf (volumesPrefix ++ q) = true :=
    List.isPrefixOf_iff_prefix.mpr (List.prefix_append _ _)
  have hdrop : (volumesPrefix ++ q).drop 8 = q := List.drop_left' (by decide)
  have hsteps : posixSteps ('/' :: volumesPrefix ++ q) = posixMoves cs := by
    simp [posixSteps, hpre, hdrop, hq]
  refine ⟨fun h => hsteps ▸ h.steps, fun h => ⟨hsteps.trans h, ?_, ?_⟩⟩
  · rw [macVolume_full hv hm]
    simp [posixVolume, hpre, hdrop, hq]
  · rw [macVolume_full hv hm]
    simp

/-- A relative pathname: the leading colons become `.` and `/..`, and the rest is left to the loop. -/
theorem sameNavigation_relative (p : CStr) (hslash : '/' ∉ p)
    (hord : ∀ f ∈ (':' :: p).splitOn ':', Ordinary f) :
    SameNavigation (':' :: p) (wholePosixPath (':' :: p)) ↔ singleColonPath (':' :: p) = true := by
  obtain ⟨k, hp, hstart⟩ := fromMacStart_colon p
  have hdrop : (':' :: p).dropWhile (· == ':') = p.dropWhile (· == ':') := by simp
  have hhead := List.head?_dropWhile_not (· == ':') p
  rw [wholePosixPath_eq (by simp), hstart, singleColonPath, hdrop]
  generalize p.dropWhile (· == ':') = r at hp hhead
  obtain ⟨h, t, ht⟩ := exists_fields ':' r
  have hfields : p.splitOn ':' = List.replicate k [] ++ h :: t := by
    rw [hp, splitOn_replicate_append, ht]
  have hmac : macSteps (':' :: p) = List.replicate k .up ++ ofFields (h :: t) := by
    rw [macSteps_colon, hfields, ofFields_replicate_append]
  have hord' : ∀ f ∈ h :: t, Ordinary f := fun f hf => hord f (by simp [hfields, hf])
  simp only [List.append_assoc]
  rw [sameNavigation_dot, hmac, ht, List.tail_cons]
  rcases eq_or_ne r [] with rfl | hr
  · obtain ⟨rfl, rfl⟩ : [] = h ∧ [] = t := by simpa using ht
    have := posixMoves_ups k []
    simp only [List.append_nil] at this
    simp [splitOn_ups, this, singleColons]
  · have hne : h ≠ [] := by
      rintro rfl
      rcases eq_of_splitOn ht with ⟨h, -⟩ | ⟨rest, rfl, -⟩
      · exact hr h
      · simp at hhead
    obtain ⟨-, hd, hdd⟩ := hord' h (by simp)
    have hrslash : '/' ∉ r := fun hm => hslash (hp ▸ List.mem_append_right _ hm)
    rw [if_neg hr, ← List.append_assoc, List.singleton_append, List.splitOn_append_cons_self,
      splitOn_ups, posixMoves_ups, fromMacWhole_fields hrslash ht, posixMoves_name hne hd hdd,
      ofFields_down hne]
    simpa using posixMoves_slashFields_iff t fun f hf => hord' f (List.mem_cons_of_mem _ hf)

/-- A full pathname: everything is left to the loop, behind `/Volumes/`. -/
theorem sameNavigation_full {m v f : CStr} {fs : List CStr} (hslash : '/' ∉ m) (hv : v ≠ [])
    (hm : m.splitOn ':' = v :: f :: fs) (hord : ∀ g ∈ f :: fs, Ordinary g) :
    SameNavigation m (wholePosixPath m) ↔ singleColonPath m = true := by
  obtain ⟨c, q, rfl⟩ : ∃ c q, m = c :: q := by
    cases m with
    | nil => simp at hm
    | cons c q => exact ⟨c, q, rfl⟩
  have hc : c ≠ ':' := by
    rintro rfl
    simp [Ne.symm hv] at hm
  rw [wholePosixPath_eq (by simp), fromMacStart_full q hc,
    sameNavigation_volumes hv hm (fromMacWhole_fields hslash hm), macSteps, singleColonPath,
    List.dropWhile_cons_of_neg (by simpa using hc), hm, List.tail_cons]
  exact posixMoves_slashFields_iff (f :: fs) hord

/-- posix9_path_from_mac keeps the moves and the volume of a Mac pathname exactly when the pathname is
    a `singleColonPath`. -/
theorem posix9_path_from_mac_navigation (mac_path : CStr) (hcolon : ':' ∈ mac_path)
    (hord : ∀ f ∈ mac_path.splitOn ':', Ordinary f) (dst_size : ℕ)
    (hfit : (wholePosixPath mac_path).length < dst_size) :
    SameNavigation mac_path (posix9_path_from_mac mac_path dst_size) ↔
      singleColonPath mac_path = true := by
  rw [posix9_path_from_mac_of_fits mac_path hfit]
  have hslash : '/' ∉ mac_path := not_mem_of_fields (by decide) fun f hf => (hord f hf).1
  obtain ⟨v, fs, hm⟩ := exists_fields ':' mac_path
  rcases eq_of_splitOn hm with ⟨rfl, rfl⟩ | ⟨rest, rfl, hrest⟩
  · exact absurd hcolon (not_mem_field (by rw [hm]; simp))
  rcases eq_or_ne v [] with rfl | hv
  · exact sameNavigation_relative rest (fun h => hslash (by simp [h])) hord
  · obtain ⟨f, gs, hf⟩ := exists_fields ':' rest
    obtain rfl : f :: gs = fs := hf.symm.trans hrest
    exact sameNavigation_full hslash hv hm fun g hg => hord g (by rw [hm]; simp [hg])

/-- `Macintosh HD:Users:test`, the pathname of the library's own test. -/
theorem posix9_path_from_mac_navigation_users :
    SameNavigation "Macintosh HD:Users:test".toList
      (posix9_path_from_mac "Macintosh HD:Users:test".toList 256) :=
  (posix9_path_from_mac_navigation "Macintosh HD:Users:test".toList (by decide)
    (by unfold Ordinary; decide +kernel) 256 (by decide +kernel)).mpr (by decide +kernel)

/-- In `:a::b` the field behind the double colon is glued to the `..`: the result is `./a/..b`. -/
theorem posix9_path_from_mac_glues_dotdot :
    ':' ∈ ":a::b".toList ∧ (∀ f ∈ ":a::b".toList.splitOn ':', Ordinary f) ∧
      (wholePosixPath ":a::b".toList).length < 256 ∧
      ¬ SameNavigation ":a::b".toList (posix9_path_from_mac ":a::b".toList 256) := by
  refine ⟨by decide, by unfold Ordinary; decide +kernel, by decide +kernel, fun h => ?_⟩
  have hne : posixSteps (posix9_path_from_mac ":a::b".toList 256) ≠ macSteps ":a::b".toList := by
    decide +kernel
  exact hne h.steps

/-! ### Through path_to_fsspec_basic

    The configuration files are named by Mac pathnames and opened by POSIX path: os9_verify_password
    hands the result of posix9_path_from_mac to fopen, whose resolver is path_to_fsspec_basic. -/

/-- `config_base` as init_config_path leaves it, by whether FindFolder found the Preferences. -/
def config_base (found : Bool) : CStr :=
  if found then "::Preferences:dropbear:".toList else ":dropbear:".toList

/-- The password file os9_verify_password opens. -/
def passwd_path (found : Bool) : CStr := config_base found ++ "passwd".toList

theorem colon_not_mem_fromMacLoop (room : ℕ) (p : CStr) : ':' ∉ fromMacLoop room p := by
  induction room, p using fromMacLoop_rec with
  | full => simp
  | done => simp
  | up room p ih =>
    rw [fromMacLoop_up]
    simpa using ih
  | sep room p h ih =>
    rw [fromMacLoop_sep room h]
    simpa using ih
  | char room c p hc ih =>
    rw [fromMacLoop_char room p hc]
    simpa [Ne.symm hc] using ih

/-- A relative result is `.`, alone or in front of a slash, whatever the buffer. -/
theorem posix9_path_from_mac_dot (p : CStr) (dst_size : ℕ) :
    ∃ q, posix9_path_from_mac (':' :: p) dst_size = '.' :: q ∧ ':' ∉ q ∧
      (q = [] ∨ q.head? = some '/') := by
  obtain ⟨k, -, hstart⟩ := fromMacStart_colon p
  simp only [posix9_path_from_mac, hstart, if_neg (List.cons_ne_nil _ _)]
  generalize dst_size - 1 - _ = room
  generalize p.dropWhile (· == ':') = r
  refine ⟨(List.replicate k ('/' :: dotdot)).flatten ++ ((if r = [] then [] else ['/']) ++
    fromMacLoop room r), by simp [dot], ?_, ?_⟩
  · have hloop := colon_not_mem_fromMacLoop room r
    split <;> simp [dotdot, hloop]
  · rcases k with _ | k
    · by_cases hr : r = [] <;> simp [hr]
    · simp [List.replicate_succ]

/-- The pathname path_to_fsspec_basic makes of such a result starts by going down into `.`. -/
theorem basicPPath_dot {q : CStr} (hq : ':' ∉ q) (hhead : q = [] ∨ q.head? = some '/') :
    ∃ w, macSteps (basicPPath ('.' :: q)).chars = .down dot :: w := by
  have hpath : (basicPPath ('.' :: q)).chars =
      ':' :: '.' :: ((q.map slashToColon).take 1021).take 253 := by
    simp [basicPPath, basicMacPath, c_to_pstr, POSIX9_PATH_MAX, hq, slashToColon]
  rw [hpath, macSteps_colon]
  rcases hhead with rfl | hhead
  · exact ⟨[], by decide⟩
  · obtain ⟨q, rfl⟩ := List.head?_eq_some_iff.mp hhead
    refine ⟨ofFields (((q.map slashToColon).take 1020).take 252 |>.splitOn ':'), ?_⟩
    have hfields := splitOn_cons_of_ne (a := ':') (x := '.') (by decide)
      (splitOn_cons_self ':' (((q.map slashToColon).take 1020).take 252))
    simpa [slashToColon, dot] using congrArg ofFields hfields

/-- path_to_fsspec_basic never follows a relative pathname that posix9_path_from_mac has translated:
    it reads the leading `.` as a name. -/
theorem basicPPath_posix9_path_from_mac (p : CStr)
    (hord : ∀ f ∈ (':' :: p).splitOn ':', Ordinary f) (dst_size : ℕ) :
    macSteps (basicPPath (posix9_path_from_mac (':' :: p) dst_size)).chars ≠
      macSteps (':' :: p) := by
  obtain ⟨q, hq, hcolon, hhead⟩ := posix9_path_from_mac_dot p dst_size
  obtain ⟨w, hw⟩ := basicPPath_dot hcolon hhead
  rw [hq, hw]
  intro h
  have hmem : dot ∈ ((':' :: p).splitOn ':').tail := by
    apply mem_of_down_mem
    rw [← macSteps, ← h]
    exact List.mem_cons_self
  exact (hord dot (List.mem_of_mem_tail hmem)).2.1 rfl

/-- The pathname of a log file next to the application. -/
theorem basicPPath_posix9_path_from_mac_log :
    macSteps (basicPPath (posix9_path_from_mac ":dropbear.log".toList 256)).chars ≠
      macSteps ":dropbear.log".toList :=
  basicPPath_posix9_path_from_mac "dropbear.log".toList (by unfold Ordinary; decide +kernel) 256

/-- The password file: `::Preferences:dropbear:passwd` is opened as `:.:..:Preferences:dropbear:passwd`. -/
theorem passwd_path_missed :
    (∀ f ∈ (passwd_path true).splitOn ':', Ordinary f) ∧
      (wholePosixPath (passwd_path true)).length < 256 ∧
      (basicPPath (posix9_path_from_mac (passwd_path true) 256)).chars =
        ":.:..:Preferences:dropbear:passwd".toList ∧
      macSteps (basicPPath (posix9_path_from_mac (passwd_path true) 256)).chars ≠
        macSteps (passwd_path true) := by
  unfold Ordinary
  decide +kernel

end Posix9
