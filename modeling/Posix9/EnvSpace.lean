import Posix9.EnvironmentMap

/-! The space of the environment. `env_used` only goes up: what a replaced or a removed variable had is not used
    again, and the last of the MAX_ENV_VARS places is never given away. -/

namespace Posix9.EnvState

open Assoc Memory Runs

variable {s : EnvState} {vars : List (CStr × CStr)}

/-- The strings of the variables that are defined. -/
def strings (s : EnvState) : List CStr := ((List.range MAX_ENV_VARS).filterMap s.env_vars).map s.string

/-- What strings need, each with its NUL. -/
def bytes (strings : List CStr) : ℕ := (strings.map fun p => p.length + 1).sum

/-- The strings there are once `name` has been set: those of the other names, and the new one. -/
def stringsWith (s : EnvState) (name : CStr) (value : Option CString) : List CStr :=
  s.strings.filter (eqName · ≠ name) ++ [newvar name value]

/-- More than the tables are there for. -/
def Exceeds (strings : List CStr) : Prop := MAX_ENV_SIZE < bytes strings ∨ MAX_ENV_VARS < strings.length

instance (strings : List CStr) : Decidable (Exceeds strings) :=
  inferInstanceAs (Decidable (MAX_ENV_SIZE < bytes strings ∨ MAX_ENV_VARS < strings.length))

/-- What a call sets whatever there was: the arguments of `setenv(name, value, 1)`, which putenv calls too. -/
def sets : EnvCall → Option (CString × Option CString)
  | .setenv (some name) value overwrite => if overwrite = 1 then some (name, value) else none
  | .putenv (some string) =>
    if '=' ∈ string.chars ∧ (eqName string.chars).length < 256 then
      some (⟨_, no_nul_eqName string⟩, some ⟨_, no_nul_eqValue string⟩)
    else none
  | _ => none

/-- The law: ENOMEM is the answer only where the variables would not fit. -/
def SpaceKept (s : EnvState) (c : EnvCall) : Prop := ∀ name value, sets c = some (name, value) →
  (s.call c).1 = -1 → (s.step c).posix9_errno = ENOMEM →
    Exceeds (s.init_environment.stringsWith name.chars value)

/-- There is room for the string behind the fill mark, and for a name that is new a place but the last. -/
structure Room (s : EnvState) (name : CStr) (value : Option CString) : Prop where
  behind : s.env_used + ((newvar name value).length + 1) < MAX_ENV_SIZE
  place : name ∈ s.strings.map eqName ∨ s.strings.length < MAX_ENV_VARS - 1

/-- Whatever would fit has room. -/
def HasRoom (s : EnvState) (c : EnvCall) : Prop := ∀ name value, sets c = some (name, value) → IsName name →
  ¬ Exceeds (s.init_environment.stringsWith name.chars value) → s.init_environment.Room name.chars value

/-! ### The strings of the list -/

theorem filterMap_getElem? {α : Type*} (l : List α) (n : ℕ) : (List.range n).filterMap (l[·]?) = l.take n := by
  induction n with
  | zero => rfl
  | succ n ih =>
    rw [List.range_succ, List.filterMap_append, ih, List.take_add_one]
    rfl

theorem Holds.strings (h : s.Holds vars) : s.strings = vars.map stored := by
  have hcell : ∀ i, (s.env_vars i).map s.string = (vars.map stored)[i]? := by
    intro i
    rw [List.getElem?_map]
    by_cases hi : i < vars.length
    · obtain ⟨p, hp, -⟩ := h.pointers i hi
      rw [hp, Option.map_some, h.string hi hp, List.getElem?_eq_getElem hi, Option.map_some]
    · rw [h.rest i (Nat.not_lt.mp hi), List.getElem?_eq_none (Nat.not_lt.mp hi)]
      rfl
  have hlen : (vars.map stored).length ≤ MAX_ENV_VARS := by
    rw [List.length_map]
    exact Nat.le_of_lt h.length
  rw [EnvState.strings, List.map_filterMap]
  simp only [hcell]
  rw [filterMap_getElem?, List.take_of_length_le hlen]

theorem Holds.names_strings (h : s.Holds vars) : s.strings.map eqName = vars.map Prod.fst := by
  rw [h.strings, List.map_map]
  exact List.map_congr_left fun var hvar => eqName_stored (h.sound var hvar)

theorem Holds.lookup_ne_none (h : s.Holds vars) {name : CStr} :
    lookup name vars ≠ none ↔ name ∈ s.strings.map eqName := by
  rw [h.names_strings, Ne, lookup_eq_none, not_not]

/-! ### When setenv has no memory -/

/-- setenv finds room or answers ENOMEM. -/
theorem Holds.setenv_room (h : s.Holds vars) (hinit : s.env_initialized = true) {name : CString} (hname : IsName name)
    (value : Option CString) : ((s.setenv (some name) value 1).1 = -1 ∧
      (s.setenv (some name) value 1).2.posix9_errno = ENOMEM) ↔ ¬ s.Room name.chars value := by
  have hroom : s.Room name.chars value ↔ s.env_used + ((newvar name.chars value).length + 1) < MAX_ENV_SIZE ∧
      (lookup name.chars vars ≠ none ∨ vars.length < MAX_ENV_VARS - 1) := by
    rw [h.lookup_ne_none]
    have hcount : s.strings.length = vars.length := by
      rw [h.strings, List.length_map]
    rw [← hcount]
    exact ⟨fun hr => ⟨hr.behind, hr.place⟩, fun hr => ⟨hr.1, hr.2⟩⟩
  have hfailed : (s.fail ENOMEM).1 = -1 ∧ (s.fail ENOMEM).2.posix9_errno = ENOMEM := ⟨rfl, rfl⟩
  have hreturns : (0 : ℤ) ≠ -1 := by decide
  rw [EnvState.setenv.eq_def, hroom]
  simp only [init_of_initialized hinit]
  rw [if_neg (not_or.mpr ⟨hname.ne_nil, hname.no_eq⟩), h.find hname.no_eq]
  by_cases hlt : indexOf name.chars vars < vars.length
  · obtain ⟨p, hp, -⟩ := h.pointers _ hlt
    rw [hp, Option.isSome_some, if_pos rfl, if_neg (show (1 : ℤ) ≠ 0 by decide)]
    split
    case isTrue hfull => exact iff_of_true hfailed fun hr => absurd hr.1 (Nat.not_lt.mpr hfull)
    case isFalse hfree =>
      refine iff_of_false (fun hr => hreturns hr.1) (not_not.mpr ⟨Nat.not_le.mp hfree, .inl ?_⟩)
      exact indexOf_lt.mp hlt
  · have hlen : indexOf name.chars vars = vars.length :=
      Nat.le_antisymm List.findIdx_le_length (Nat.not_lt.mp hlt)
    have hnew : ¬ lookup name.chars vars ≠ none := fun hsome => hlt (indexOf_lt.mpr hsome)
    rw [hlen, h.rest _ (Nat.le_refl _), if_neg (by simp)]
    split
    case isTrue hlast =>
      exact iff_of_true hfailed fun hr => hr.2.elim hnew fun hfree => absurd hfree (Nat.not_lt.mpr hlast)
    split
    case isTrue hfull => exact iff_of_true hfailed fun hr => absurd hr.1 (Nat.not_lt.mpr hfull)
    case isFalse hplace hfree =>
      refine iff_of_false (fun hr => hreturns hr.1) (not_not.mpr ⟨Nat.not_le.mp hfree, .inr ?_⟩)
      exact Nat.not_le.mp hplace

/-- A call that sets is setenv on the tables as initialised. -/
theorem call_of_sets {c : EnvCall} {name : CString} {value : Option CString} (h : sets c = some (name, value)) :
    s.call c = s.init_environment.setenv (some name) value 1 := by
  have hsame : s.setenv (some name) value 1 = s.init_environment.setenv (some name) value 1 := by
    rw [EnvState.setenv.eq_def, EnvState.setenv.eq_def s.init_environment,
      init_of_initialized (init_initialized s)]
  cases c with
  | getenv name => cases h
  | unsetenv name => cases h
  | setenv name' value' overwrite =>
    cases name' with
    | none => cases h
    | some name' =>
      obtain ⟨rfl, heq⟩ := Option.ite_none_right_eq_some.mp h
      cases heq
      exact hsame
  | putenv string =>
    cases string with
    | none => cases h
    | some string =>
      obtain ⟨⟨hmem, hshort⟩, heq⟩ := Option.ite_none_right_eq_some.mp h
      cases heq
      rw [EnvState.call, putenv.eq_def]
      dsimp only
      rw [if_neg (not_not.mpr hmem), if_neg (Nat.not_le.mpr hshort)]
      exact hsame

theorem setenv_of_not_isName (hinit : s.env_initialized = true) {name : CString} (hname : ¬ IsName name)
    (value : Option CString) (overwrite : ℤ) : s.setenv (some name) value overwrite = s.fail EINVAL := by
  have hbad : name.chars = [] ∨ '=' ∈ name.chars := by
    by_contra hgood
    exact hname ⟨(not_or.mp hgood).1, (not_or.mp hgood).2⟩
  rw [EnvState.setenv.eq_def]
  simp only [init_of_initialized hinit, if_pos hbad]

/-- A step keeps the law just where what would fit has room. -/
theorem Models.spaceKept_iff {m : EnvMap} (h : s.Models m) (c : EnvCall) : s.SpaceKept c ↔ s.HasRoom c := by
  obtain ⟨vars, hvars, -⟩ := h.init
  have hready := init_initialized s
  refine forall_congr' fun name => forall_congr' fun value => forall_congr' fun hsets => ?_
  rw [step, call_of_sets hsets]
  by_cases hname : IsName name
  · have hiff := hvars.setenv_room hready hname value
    constructor
    · intro hlaw _ hfits
      by_contra hroom
      obtain ⟨hfailed, herrno⟩ := hiff.mpr hroom
      exact hfits (hlaw hfailed herrno)
    · intro hroom hfailed herrno
      by_contra hfits
      exact hiff.mp ⟨hfailed, herrno⟩ (hroom hname hfits)
  · rw [setenv_of_not_isName hready hname]
    have hother : EINVAL ≠ ENOMEM := by decide
    exact iff_of_true (fun _ herrno => absurd herrno hother) fun hname' => absurd hname' hname

/-- Just in the runs in which whatever would fit has room, ENOMEM is the answer only where it would not fit. -/
theorem spaceKept_iff_hasRoom (calls : List EnvCall) :
    Meets step SpaceKept start calls ↔ Meets step HasRoom start calls := by
  refine meets_iff (I := fun s => ∃ m, s.Models m) ?_ ?_ ⟨_, models_start⟩
  · rintro s c ⟨m, hm⟩ -
    exact ⟨_, hm.call c⟩
  · rintro s c ⟨m, hm⟩
    exact hm.spaceKept_iff c

/-- A value of 2100 bytes. -/
def longValue : CString := ⟨List.replicate 2100 'x', fun h => absurd (List.eq_of_mem_replicate h) (by decide)⟩

/-- A variable is set twice to one value, which needs 2102 bytes and 72 bytes of defaults: the second time fails. -/
theorem replaced_space_lost : ¬ Meets step SpaceKept start
    [.setenv (some ⟨['A'], by decide⟩) (some longValue) 1, .setenv (some ⟨['A'], by decide⟩) (some longValue) 1] := by
  rintro ⟨-, hsecond, -⟩
  have hexceeds := hsecond ⟨['A'], by decide⟩ (some longValue) rfl (by decide +kernel) (by decide +kernel)
  exact absurd hexceeds (by decide +kernel)

end Posix9.EnvState
