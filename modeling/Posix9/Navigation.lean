import Posix9.Lib.Fields
import Posix9.Lib.Walk
import Posix9.Path

/-! What POSIX and Mac pathnames mean: the moves they spell, and for a Mac pathname where the walk
    starts. These are readings of the two notations, not of the code; the translators are held
    against them. -/

namespace Posix9
open Fields Walk

/-- A move between directories, by component name. -/
abbrev Move := Step CStr

/-! ### POSIX -/

def dot : CStr := ['.']

def dotdot : CStr := ['.', '.']

/-- The move a component of a POSIX path spells: none for an empty component and for `.`. -/
def posixMove (c : CStr) : Option Move :=
  if c = [] ∨ c = dot then none
  else if c = dotdot then some .up
  else some (.down c)

def posixMoves (cs : List CStr) : List Move := cs.filterMap posixMove

/-- The moves of a POSIX path. Under `/Volumes/` the next component names the volume. -/
def posixSteps : CStr → List Move
  | '/' :: p =>
    if volumesPrefix.isPrefixOf p then posixMoves ((p.drop 8).splitOn '/').tail
    else posixMoves (p.splitOn '/')
  | p => posixMoves (p.splitOn '/')

/-- The volume a POSIX path names with `/Volumes/`. -/
def posixVolume : CStr → Option CStr
  | '/' :: p => if volumesPrefix.isPrefixOf p then ((p.drop 8).splitOn '/').head? else none
  | _ => none

/-! ### Mac -/

/-- The moves of a Mac pathname behind its volume name or its leading colon. -/
def macSteps (m : CStr) : List Move := ofFields (m.splitOn ':').tail

/-- Where the walk of a Mac pathname starts. -/
inductive Start where | default | volume (v : CStr)
  deriving DecidableEq

/-- What the fields of a Mac pathname denote: a pathname with a leading colon, or with none, starts in
    the default directory; otherwise its first component is a volume. -/
def denoteFields : List CStr → Start × List Move
  | [] => (.default, [])
  | [name] => (.default, ofFields [name])
  | v :: f :: fs => (if v = [] then .default else .volume v, ofFields (f :: fs))

def macDenotes (m : CStr) : Start × List Move := denoteFields (m.splitOn ':')

/-- The volume a full Mac pathname starts from. -/
def macVolume (m : CStr) : Option CStr :=
  match (macDenotes m).1 with
  | .default => none
  | .volume v => some v

/-- A component both notations spell alike. -/
def Ordinary (c : CStr) : Prop := '/' ∉ c ∧ c ≠ dot ∧ c ≠ dotdot

/-- The directory a Mac pathname leads to, given the tree and the directories walks start in. -/
def macResolve {δ : Type*} (cat : Catalog CStr δ) (root : Start → Option δ) (m : CStr) : Option δ :=
  (root (macDenotes m).1).bind (cat.follow · (macDenotes m).2)

/-- Two Mac pathnames lead to the same object, whatever is on the disks and wherever walks start. -/
def SameObject (m n : CStr) : Prop :=
  ∀ (δ : Type) (cat : Catalog CStr δ) (root : Start → Option δ),
    macResolve cat root m = macResolve cat root n

/-- Only pathnames with the same start and the same moves do. -/
theorem sameObject_iff (m n : CStr) : SameObject m n ↔ macDenotes m = macDenotes n := by
  constructor
  · intro h
    have hfree := h _ (Catalog.free CStr Start) (fun s => some (s, []))
    simpa [macResolve, Catalog.follow_free, Prod.ext_iff] using hfree
  · intro h δ cat root
    rw [macResolve, macResolve, h]

/-! ### Lemmas about moves -/

@[simp] theorem posixMoves_nil : posixMoves [] = [] := rfl

@[simp] theorem posixMoves_empty (cs : List CStr) : posixMoves ([] :: cs) = posixMoves cs := by
  simp [posixMoves, posixMove]

@[simp] theorem posixMoves_dot (cs : List CStr) : posixMoves (dot :: cs) = posixMoves cs := by
  simp [posixMoves, posixMove]

@[simp] theorem posixMoves_dotdot (cs : List CStr) :
    posixMoves (dotdot :: cs) = .up :: posixMoves cs := by
  simp [posixMoves, posixMove, dot, dotdot]

theorem posixMoves_name {c : CStr} (hne : c ≠ []) (hd : c ≠ dot) (hdd : c ≠ dotdot)
    (cs : List CStr) : posixMoves (c :: cs) = .down c :: posixMoves cs := by
  simp [posixMoves, posixMove, hne, hd, hdd]

theorem dot_ne_nil : dot ≠ [] := by decide

theorem dotdot_ne_nil : dotdot ≠ [] := by decide

theorem dotdot_ne_dot : dotdot ≠ dot := by decide

theorem ofFields_dot (fs : List CStr) : ofFields (dot :: fs) = .down dot :: ofFields fs :=
  ofFields_down dot_ne_nil fs

theorem ofFields_dotdot (fs : List CStr) : ofFields (dotdot :: fs) = .down dotdot :: ofFields fs :=
  ofFields_down dotdot_ne_nil fs

@[simp] theorem denoteFields_leading (fs : List CStr) :
    denoteFields ([] :: fs) = (.default, ofFields fs) := by
  cases fs <;> simp [denoteFields]

theorem denoteFields_volume {v : CStr} (hv : v ≠ []) {fs : List CStr} (hfs : fs ≠ []) :
    denoteFields (v :: fs) = (.volume v, ofFields fs) := by
  cases fs <;> simp_all [denoteFields]

theorem macVolume_colon (m : CStr) : macVolume (':' :: m) = none := by
  simp [macVolume, macDenotes]

theorem macVolume_full {m v f : CStr} {fs : List CStr} (hv : v ≠ [])
    (h : m.splitOn ':' = v :: f :: fs) : macVolume m = some v := by
  simp [macVolume, macDenotes, h, denoteFields_volume hv]

/-- A pathname with a leading colon starts in the default directory. -/
theorem macDenotes_colon (m : CStr) : macDenotes (':' :: m) = (.default, macSteps (':' :: m)) := by
  simp [macDenotes, macSteps]

/-- A leading colon is no move of its own. -/
theorem macSteps_colon (m : CStr) : macSteps (':' :: m) = ofFields (m.splitOn ':') := by
  rw [macSteps, splitOn_cons_self, List.tail_cons]

end Posix9
