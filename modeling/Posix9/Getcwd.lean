import Posix9.Bounds
import Posix9.Cwd

/-! getcwd tests the size of the buffer against the Mac pathname and writes the POSIX form, which is longer. A
    size between the two lengths passes the test. -/

namespace Posix9
open Fields Runs

/-! ### The length of the POSIX form -/

/-- What the prefix becomes, the rest, and one more character for each double colon of the rest. -/
def posixLength (mac_path : CStr) : ℕ :=
  if mac_path = [] then 0
  else
    let (out, p) := fromMacStart mac_path
    out.length + p.length + (doublesFrom 0 p).length

theorem length_fromMacWhole (p : CStr) : (fromMacWhole p).length = p.length + (doublesFrom 0 p).length := by
  have hcount : ∀ d q, (doublesFrom d q).length = (doublesFrom 0 q).length := fun d q => by
    have hmap := doublesFrom_add d 0 q
    rw [Nat.zero_add] at hmap
    rw [hmap, List.length_map]
  induction hn : p.length using Nat.strongRecOn generalizing p with
  | ind n ih =>
    rcases p with _ | ⟨c, p⟩
    · simp [doublesFrom, ← hn]
    rw [List.length_cons] at hn
    rcases eq_or_ne c ':' with rfl | hc
    · by_cases hhead : p.head? = some ':'
      · obtain ⟨q, rfl⟩ := List.head?_eq_some_iff.mp hhead
        rw [List.length_cons] at hn
        have hq := ih q.length (by omega) q rfl
        rw [fromMacWhole_up, doublesFrom_up]
        simp only [List.length_cons]
        rw [hcount]
        omega
      · have hp := ih p.length (by omega) p rfl
        rw [fromMacWhole_sep hhead, doublesFrom_sep 0 hhead, hcount, List.length_cons]
        omega
    · have hp := ih p.length (by omega) p rfl
      rw [fromMacWhole_char p hc, doublesFrom_char 0 p hc, hcount, List.length_cons]
      omega

theorem length_wholePosixPath (mac_path : CStr) : (wholePosixPath mac_path).length = posixLength mac_path := by
  rcases eq_or_ne mac_path [] with rfl | hm
  · rfl
  rw [wholePosixPath_eq hm, List.length_append, length_fromMacWhole, posixLength, if_neg hm]
  dsimp only
  omega

/-- The POSIX form is never the shorter one. -/
theorem length_le_posixLength (mac_path : CStr) : mac_path.length ≤ posixLength mac_path := by
  rcases mac_path with _ | ⟨c, p⟩
  · exact Nat.zero_le _
  rw [posixLength, if_neg (List.cons_ne_nil c p)]
  rcases eq_or_ne c ':' with rfl | hc
  · obtain ⟨k, hp, hstart⟩ := fromMacStart_colon p
    have hlen := congrArg List.length hp
    rw [List.length_append, List.length_replicate] at hlen
    have hups : (List.replicate k ('/' :: dotdot)).flatten.length = k * 3 := by
      rw [List.length_flatten, List.map_replicate, List.sum_replicate_nat]
      rfl
    have hdot : dot.length = 1 := rfl
    simp only [hstart, List.length_append, List.length_cons, hups, hdot]
    omega
  · simp only [fromMacStart_full p hc, List.length_cons]
    omega

namespace CwdState

variable {fm : FileManager} (info : fm.Info) (default_volume : VolumeName)

/-! ### The law -/

/-- What getcwd does to the caller's buffer of `size` bytes. -/
def getcwdAccesses (s : CwdState fm) (size : ℕ) : List Access :=
  let s := s.init_cwd info default_volume
  if size ≤ s.cwd_mac.length then [] else fromMacAccesses s.cwd_mac size

/-- All that getcwd would write. -/
def posixCwd (s : CwdState fm) : CStr := wholePosixPath (s.init_cwd info default_volume).cwd_mac

/-- getcwd returns NULL, with ERANGE and an untouched buffer, exactly where the POSIX form and its NUL do not
    fit, and else the buffer with all of the POSIX form. -/
structure AllOrNothing (s : CwdState fm) (size : ℕ) : Prop where
  null_iff : (s.getcwd info default_volume (some size)).1 = none ↔
    size < (s.posixCwd info default_volume).length + 1
  untouched : (s.getcwd info default_volume (some size)).1 = none →
    (s.getcwd info default_volume (some size)).2.posix9_errno = ERANGE ∧
      s.getcwdAccesses info default_volume size = []
  complete : ∀ p, (s.getcwd info default_volume (some size)).1 = some p →
    p = s.posixCwd info default_volume ∧
      ∀ mem, ReadsAs (memAfter mem (s.getcwdAccesses info default_volume size)) (s.posixCwd info default_volume)

/-- A call of getcwd with a buffer is all or nothing. -/
def Whole (s : CwdState fm) : CwdCall → Prop
  | .getcwd (some size) => s.AllOrNothing info default_volume size
  | .getcwd none | .chdir _ => True

/-- The size is not between the lengths of the two forms. -/
def Clear (s : CwdState fm) : CwdCall → Prop
  | .getcwd (some size) =>
    size ≤ (s.init_cwd info default_volume).cwd_mac.length ∨
      posixLength (s.init_cwd info default_volume).cwd_mac < size
  | .getcwd none | .chdir _ => True

instance (s : CwdState fm) : (c : CwdCall) → Decidable (s.Clear info default_volume c)
  | .getcwd (some _) => inferInstanceAs (Decidable (_ ∨ _))
  | .getcwd none | .chdir _ => .isTrue trivial

/-! ### When it holds -/

variable {info default_volume}

theorem allOrNothing_iff (s : CwdState fm) (size : ℕ) : s.AllOrNothing info default_volume size ↔
    size ≤ (s.init_cwd info default_volume).cwd_mac.length ∨
      posixLength (s.init_cwd info default_volume).cwd_mac < size := by
  have hlen : (s.posixCwd info default_volume).length = posixLength (s.init_cwd info default_volume).cwd_mac :=
    length_wholePosixPath _
  have hle := length_le_posixLength (s.init_cwd info default_volume).cwd_mac
  have hresult : (s.getcwd info default_volume (some size)).1 = _ := getcwd_result s (some size)
  rw [Option.bind_some] at hresult
  by_cases hsmall : size ≤ (s.init_cwd info default_volume).cwd_mac.length
  · rw [if_pos hsmall] at hresult
    refine iff_of_true ⟨?_, fun _ => ⟨?_, if_pos hsmall⟩, fun p hp => ?_⟩ (.inl hsmall)
    · rw [hresult, hlen]
      exact iff_of_true rfl (by omega)
    · simp only [getcwd, if_pos hsmall]
      rfl
    · rw [hresult] at hp
      cases hp
  · rw [if_neg hsmall] at hresult
    have haccesses : s.getcwdAccesses info default_volume size =
        fromMacAccesses (s.init_cwd info default_volume).cwd_mac size := if_neg hsmall
    constructor
    · intro hall
      have hnull := hall.null_iff
      rw [hresult, hlen] at hnull
      refine .inr (Nat.lt_of_not_le fun h => ?_)
      cases hnull.mpr (by omega)
    · intro hclear
      have hfits := hclear.resolve_left hsmall
      have hfit : (wholePosixPath (s.init_cwd info default_volume).cwd_mac).length < size := by
        rwa [length_wholePosixPath]
      have hwhole := posix9_path_from_mac_of_fits (s.init_cwd info default_volume).cwd_mac hfit
      rw [hwhole] at hresult
      refine ⟨?_, fun hnone => ?_, fun p hp => ⟨?_, fun mem => ?_⟩⟩
      · rw [hresult, hlen]
        exact iff_of_false (by simp) (by omega)
      · rw [hresult] at hnone
        cases hnone
      · rw [hresult] at hp
        exact (Option.some.inj hp).symm
      · have hreads := fromMacAccesses_reads (s.init_cwd info default_volume).cwd_mac size mem
        rw [hwhole] at hreads
        rw [haccesses]
        exact hreads

/-- Throughout a run getcwd is all or nothing exactly where no size it is given falls between the lengths of
    the two forms of the working directory. -/
theorem whole_iff_clear (info : fm.Info) (default_volume : VolumeName) (mac : fm.State) (calls : List CwdCall) :
    Meets (step info default_volume) (Whole info default_volume) (start mac) calls ↔
      Meets (step info default_volume) (Clear info default_volume) (start mac) calls := by
  refine meets_congr (I := fun _ => True) (D := fun _ _ => True) (fun _ _ _ _ => trivial) (fun s c _ => ?_)
    trivial (meets_of_forall_mem (fun _ _ _ => trivial) _)
  rcases c with ⟨_ | size⟩ | path
  · exact Iff.rfl
  · exact allOrNothing_iff s size
  · exact Iff.rfl

/-- On `Macintosh HD` a buffer of 15 bytes is larger than the Mac form and takes `/Volumes/Macin`. -/
theorem getcwd_truncates : ¬ Meets (step folderInfo macintoshHD) (Whole folderInfo macintoshHD)
    (start (2 : ℤ)) [.getcwd (some 15)] := by
  intro h
  have hresult : ((start (2 : ℤ) : CwdState folderDisk).getcwd folderInfo macintoshHD (some 15)).1 =
      some "/Volumes/Macin".toList := by decide +kernel
  have hwhole := (h.1.complete "/Volumes/Macin".toList hresult).1
  exact absurd hwhole (by decide +kernel)

end CwdState

end Posix9
