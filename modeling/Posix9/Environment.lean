import Mathlib.Data.List.Nodup
import Posix9.Lib.Memory
import Posix9.Lib.Runs
import Posix9.Types

/-! posix9_misc.c: the environment. The variables are strings in `env_storage`, each where it was put when it was
    last set, and `env_vars` has their addresses. -/

namespace Posix9

open Memory

/-- A C string a program can pass: no character of it is NUL. -/
structure CString where
  chars : CStr
  no_nul : NUL ∉ chars
  deriving DecidableEq

def MAX_ENV_VARS : ℕ := 128
def MAX_ENV_SIZE : ℕ := 4096

def default_env : List CStr := ["HOME=/".toList, "PATH=/bin:/usr/bin".toList, "SHELL=/bin/sh".toList,
  "USER=root".toList, "TERM=vt100".toList, "LANG=en_US".toList]

/-- A pointer into `env_storage` is the index it points to; `none` is NULL. -/
structure EnvState where
  env_vars : ℕ → Option ℕ
  env_storage : ℕ → Char
  env_used : ℕ
  env_initialized : Bool
  posix9_errno : ℤ

namespace EnvState

/-- The state the program starts in: static storage is zero. -/
def start : EnvState := ⟨fun _ => none, fun _ => NUL, 0, false, 0⟩

def fail (s : EnvState) (e : ℤ) : ℤ × EnvState := (-1, { s with posix9_errno := e })

/-- `string` is written to `&env_storage[env_used]` and is variable `i` from now on. -/
def put (s : EnvState) (i : ℕ) (string : CStr) : EnvState :=
  { s with
    env_storage := write s.env_storage s.env_used (string ++ [NUL])
    env_vars := Function.update s.env_vars i (some s.env_used)
    env_used := s.env_used + (string.length + 1) }

/-- One round of the loop of init_environment. -/
def putDefault (s : EnvState) (i : ℕ) (p : CStr) : EnvState :=
  if s.env_used + (p.length + 1) < MAX_ENV_SIZE then s.put i p else s

def init_environment (s : EnvState) : EnvState :=
  if s.env_initialized then s
  else
    { (default_env.take MAX_ENV_VARS).zipIdx.foldl (fun s x => s.putDefault x.2 x.1)
        { s with env_vars := fun i => if i ≤ MAX_ENV_VARS then none else s.env_vars i, env_used := 0 } with
      env_initialized := true }

/-- `strncmp(env_vars[i], name, namelen) == 0 && env_vars[i][namelen] == '='` of the string at `p`. -/
def names (s : EnvState) (p : ℕ) (name : CStr) : Bool :=
  ((List.range name.length).map fun k => s.env_storage (p + k)) = name ∧ s.env_storage (p + name.length) = '='

/-- The `i` at which `for (i = 0; env_vars[i] != NULL; i++)` stops: the variable it is after or the NULL. -/
def find (s : EnvState) (name : CStr) : ℕ :=
  ((List.range (MAX_ENV_VARS + 1)).find? fun i => (s.env_vars i).all fun p => s.names p name).getD (MAX_ENV_VARS + 1)

/-- The string a pointer points to. -/
def string (s : EnvState) (p : ℕ) : CStr := stringAt NUL s.env_storage p (MAX_ENV_SIZE - p)

def getenv (s : EnvState) (name : Option CString) : Option ℕ × EnvState :=
  let s := s.init_environment
  match name with
  | none => (none, s)
  | some name => ((s.env_vars (s.find name.chars)).map fun p => p + name.chars.length + 1, s)

/-- `sprintf(newvar, "%s=%s", name, value ? value : "")`. -/
def newvar (name : CStr) (value : Option CString) : CStr := name ++ '=' :: (value.elim [] fun v => v.chars)

def setenv (s : EnvState) (name value : Option CString) (overwrite : ℤ) : ℤ × EnvState :=
  let s := s.init_environment
  match name with
  | none => s.fail EINVAL
  | some name =>
    if name.chars = [] ∨ '=' ∈ name.chars then s.fail EINVAL
    else
      let i := s.find name.chars
      let string := newvar name.chars value
      if (s.env_vars i).isSome then
        if overwrite = 0 then (0, s)
        else if MAX_ENV_SIZE ≤ s.env_used + (string.length + 1) then s.fail ENOMEM
        else (0, s.put i string)
      else if MAX_ENV_VARS - 1 ≤ i then s.fail ENOMEM
      else if MAX_ENV_SIZE ≤ s.env_used + (string.length + 1) then s.fail ENOMEM
      else
        let s := s.put i string
        (0, { s with env_vars := Function.update s.env_vars (i + 1) none })

/-- `for (j = i; env_vars[j] != NULL; j++) env_vars[j] = env_vars[j + 1]`, in at most `n` rounds. -/
def shiftDown (vars : ℕ → Option ℕ) (j : ℕ) : ℕ → ℕ → Option ℕ
  | 0 => vars
  | n + 1 => if (vars j).isSome then shiftDown (Function.update vars j (vars (j + 1))) (j + 1) n else vars

def unsetenv (s : EnvState) (name : Option CString) : ℤ × EnvState :=
  let s := s.init_environment
  match name with
  | none => s.fail EINVAL
  | some name =>
    if name.chars = [] ∨ '=' ∈ name.chars then s.fail EINVAL
    else (0, { s with env_vars := shiftDown s.env_vars (s.find name.chars) MAX_ENV_VARS })

/-- The part of a string before its first `=`, and the part behind it. -/
def eqName (string : CStr) : CStr := string.takeWhile (· ≠ '=')

def eqValue (string : CStr) : CStr := string.drop ((eqName string).length + 1)

/-- A part of a C string is one. -/
theorem no_nul_eqName (string : CString) : NUL ∉ eqName string.chars := fun h =>
  string.no_nul ((List.takeWhile_prefix _).subset h)

theorem no_nul_eqValue (string : CString) : NUL ∉ eqValue string.chars := fun h =>
  string.no_nul (List.mem_of_mem_drop h)

def putenv (s : EnvState) (string : Option CString) : ℤ × EnvState :=
  match string with
  | none => s.fail EINVAL
  | some string =>
    if '=' ∉ string.chars then s.fail EINVAL
    else if 256 ≤ (eqName string.chars).length then s.fail EINVAL
    else s.setenv (some ⟨_, no_nul_eqName string⟩) (some ⟨_, no_nul_eqValue string⟩) 1

end EnvState

/-! ### Runs -/

inductive EnvCall where
  | getenv (name : Option CString)
  | setenv (name value : Option CString) (overwrite : ℤ)
  | unsetenv (name : Option CString)
  | putenv (string : Option CString)

namespace EnvState

/-- What a call returns, where it is no pointer, and the state behind it. -/
def call (s : EnvState) : EnvCall → ℤ × EnvState
  | .getenv name => (0, (s.getenv name).2)
  | .setenv name value overwrite => s.setenv name value overwrite
  | .unsetenv name => s.unsetenv name
  | .putenv string => s.putenv string

def step (s : EnvState) (c : EnvCall) : EnvState := (s.call c).2

/-- What getenv makes a program read. -/
def value (s : EnvState) (name : CString) : Option CStr :=
  (s.getenv (some name)).1.map (s.getenv (some name)).2.string

end EnvState

end Posix9
