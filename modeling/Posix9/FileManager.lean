import Mathlib.Logic.Function.Basic
import Posix9.Types

/-! The File Manager as posix9_file.c uses it. It is not part of the library, so it is a parameter:
    a state and one function for each call. What is relied on is documented behaviour, stated in
    `FileManager.Lawful`. -/

namespace Posix9

/-! ### Result codes -/

abbrev OSErr := ℤ

def noErr : OSErr := 0
def dirFulErr : OSErr := -33
def dskFulErr : OSErr := -34
def nsvErr : OSErr := -35
def ioErr : OSErr := -36
def bdNamErr : OSErr := -37
def fnOpnErr : OSErr := -38
def eofErr : OSErr := -39
def posErr : OSErr := -40
def tmfoErr : OSErr := -42
def fnfErr : OSErr := -43
def wPrErr : OSErr := -44
def fLckdErr : OSErr := -45
def vLckdErr : OSErr := -46
def fBsyErr : OSErr := -47
def dupFNErr : OSErr := -48
def opWrErr : OSErr := -49
def paramErr : OSErr := -50
def rfNumErr : OSErr := -51
def permErr : OSErr := -54
def wrPermErr : OSErr := -61
def memFullErr : OSErr := -108
def dirNFErr : OSErr := -120
def afpAccessDenied : OSErr := -5000

/-! ### Files and access paths -/

/-- A file reference number: the name of an access path, open or not. -/
abbrev RefNum := ℤ

/-- A volume, a directory and a name. -/
structure FSSpec where
  vRefNum : ℤ
  parID : ℤ
  name : Str255
  deriving DecidableEq

/-- The permissions of FSpOpenDF. -/
inductive Permission where | fsRdPerm | fsWrPerm | fsRdWrPerm
  deriving DecidableEq

/-- The positioning modes of SetFPos. -/
inductive PosMode where | fsFromStart | fsFromLEOF | fsFromMark
  deriving DecidableEq

structure FileManager where
  State : Type
  /-- Whether an access path with this number is open. -/
  isOpen : State → RefNum → Bool
  /-- `FSMakeFSSpec(0, 0, name, spec)`. -/
  FSMakeFSSpec : Str255 → State → OSErr × FSSpec
  /-- `FSpCreate(spec, 'TEXT', 'TEXT', smSystemScript)`. -/
  FSpCreate : FSSpec → State → OSErr × State
  FSpOpenDF : FSSpec → Permission → State → (OSErr × RefNum) × State
  FSClose : RefNum → State → OSErr × State
  FSRead : RefNum → ℕ → State → (OSErr × List UInt8) × State
  FSWrite : RefNum → List UInt8 → State → (OSErr × ℕ) × State
  SetFPos : RefNum → PosMode → ℤ → State → OSErr × State
  GetFPos : RefNum → State → OSErr × ℤ
  SetEOF : RefNum → ℤ → State → OSErr × State

/-- Which access paths the calls open and close. `FSpOpenDF` hands out a number that is not in use,
    one that was closed before included; 0 is no access path. -/
structure FileManager.Lawful (fm : FileManager) : Prop where
  zero : ∀ st, fm.isOpen st 0 = false
  open_fresh : ∀ spec perm st r st', fm.FSpOpenDF spec perm st = ((noErr, r), st') →
    fm.isOpen st r = false ∧ ∀ r', fm.isOpen st' r' = true ↔ fm.isOpen st r' = true ∨ r' = r
  open_failed : ∀ spec perm st, (fm.FSpOpenDF spec perm st).1.1 ≠ noErr →
    fm.isOpen (fm.FSpOpenDF spec perm st).2 = fm.isOpen st
  close : ∀ r st r', fm.isOpen (fm.FSClose r st).2 r' = true ↔ fm.isOpen st r' = true ∧ r' ≠ r
  create : ∀ spec st, fm.isOpen (fm.FSpCreate spec st).2 = fm.isOpen st
  read : ∀ r n st, fm.isOpen (fm.FSRead r n st).2 = fm.isOpen st
  write : ∀ r bytes st, fm.isOpen (fm.FSWrite r bytes st).2 = fm.isOpen st
  setFPos : ∀ r mode off st, fm.isOpen (fm.SetFPos r mode off st).2 = fm.isOpen st
  setEOF : ∀ r len st, fm.isOpen (fm.SetEOF r len st).2 = fm.isOpen st

/-! ### What has been asked of it -/

/-- A call on a refNum: the open() its descriptor descends from, and the open() that produced the file
    the number stood for, if it stood for one. -/
structure Use where
  origin : ℕ
  file : Option ℕ
  deriving DecidableEq

/-- A record of the calls, kept beside the program and never read by it. Each successful FSpOpenDF is
    known by its serial number. -/
structure Ledger where
  /-- Successful FSpOpenDF calls so far. -/
  opens : ℕ
  /-- The call that handed out a refNum last. -/
  stems : RefNum → Option ℕ
  /-- The call a descriptor descends from, through dup and dup2. -/
  origin : Fin POSIX9_OPEN_MAX → ℕ
  /-- FSClose calls on the refNum a call handed out, up to when it was handed out again. -/
  closes : ℕ → ℕ
  uses : List Use

/-- Nothing has been opened. -/
def Ledger.empty : Ledger := ⟨0, fun _ => none, fun _ => 0, fun _ => 0, []⟩

/-- An access path is opened: the next one in the order of openings. -/
def Ledger.opened (l : Ledger) (r : RefNum) : Ledger :=
  { l with opens := l.opens + 1, stems := Function.update l.stems r (some l.opens) }

/-- A descriptor reaches a file. -/
def Ledger.used (l : Ledger) (origin : ℕ) (file : Option ℕ) : Ledger :=
  { l with uses := ⟨origin, file⟩ :: l.uses }

def Ledger.closed (l : Ledger) (r : RefNum) : Ledger :=
  match l.stems r with
  | none => l
  | some n => { l with closes := Function.update l.closes n (l.closes n + 1) }

/-- A descriptor is given out. -/
def Ledger.installed (l : Ledger) (fd : Fin POSIX9_OPEN_MAX) (origin : ℕ) : Ledger :=
  { l with origin := Function.update l.origin fd origin }

end Posix9
