import Posix9.Types

/-! posix9_path.c: translation between POSIX and Mac pathnames, and the second translator that
    posix9_file.c keeps for itself (`path_to_fsspec_basic`).

    A translator writes through a pointer `d` into a buffer of `dst_size` bytes. Its model returns the
    string left there; `room` is what the loop guard `d < out + out_size - 1` leaves. -/

namespace Posix9

/-! ### The default volume -/

/-- The name of a volume, as the static `default_volume[64]` holds it: what stands before the first
    colon of a full pathname. -/
structure VolumeName where
  name : CStr
  ne_nil : name ≠ []
  no_colon : ':' ∉ name
  length_le : name.length ≤ 63

/-- The initial value of `default_volume`. -/
def macintoshHD : VolumeName where
  name := "Macintosh HD".toList
  ne_nil := by decide
  no_colon := by decide
  length_le := by decide

/-! ### POSIX to Mac -/

def volumesPrefix : CStr := "Volumes/".toList

/-- `while (*p == '/') p++`. -/
def skipSlashes (p : CStr) : CStr := p.dropWhile (· == '/')

/-- `if (*p == '/') p++`. -/
def skipSlash : CStr → CStr
  | '/' :: p => p
  | p => p

/-- `p[0] == '.' && p[1] == '.' && (p[2] == '/' || p[2] == '\0')`. -/
def atDotDot : CStr → Bool
  | ['.', '.'] => true
  | '.' :: '.' :: '/' :: _ => true
  | _ => false

/-- `*p == '.' && (p[1] == '/' || p[1] == '\0')`. -/
def atDot : CStr → Bool
  | ['.'] => true
  | '.' :: '/' :: _ => true
  | _ => false

/-- What is written before the loop, and the part of the path that is left for it. -/
def toMacStart (default_volume : VolumeName) : CStr → CStr × CStr
  | '/' :: p =>
    if volumesPrefix.isPrefixOf p then ([], p.drop 8)
    else (default_volume.name ++ [':'], p)
  | p =>
    if atDot p then ([':'], skipSlash (p.drop 1))
    else if atDotDot p then ([':', ':'], skipSlash (p.drop 2))
    else ([':'], p)

/-- The loop over the remaining components. -/
def toMacLoop : ℕ → CStr → CStr
  | 0, _ => []
  | _ + 1, [] => []
  | room + 1, c :: p =>
    if c = '/' then
      if atDotDot (skipSlashes p) then
        -- both colons are written before the guard is looked at again
        ':' :: ':' :: match room with
          | 0 => []
          | room + 1 => toMacLoop room (skipSlash ((skipSlashes p).drop 2))
      else ':' :: toMacLoop room (skipSlashes p)
    else c :: toMacLoop room p

/-- `if (d > out + 1 && d[-1] == ':' && d[-2] != ':') d[-1] = '\0'`. -/
def stripColon (out : CStr) : CStr :=
  match out.reverse with
  | ':' :: c :: _ => if c = ':' then out else out.dropLast
  | _ => out

def posix9_path_to_mac (default_volume : VolumeName) (posix_path : CStr) (dst_size : ℕ) : CStr :=
  if posix_path = [] then []
  else
    let (out, p) := toMacStart default_volume posix_path
    stripColon (out ++ toMacLoop (dst_size - 1 - out.length) p)

/-! ### Mac to POSIX -/

/-- The loop over the leading colons after the first. -/
def fromMacUps : CStr → CStr × CStr
  | [] => ([], [])
  | c :: p =>
    if c = ':' then
      let (out, rest) := fromMacUps p
      ('/' :: '.' :: '.' :: out, rest)
    else ([], c :: p)

/-- The loop over the remaining components. -/
def fromMacLoop : ℕ → CStr → CStr
  | 0, _ => []
  | _ + 1, [] => []
  | room + 1, ':' :: ':' :: p => '/' :: '.' :: '.' :: fromMacLoop (room - 2) p
  | room + 1, ':' :: p => '/' :: fromMacLoop room p
  | room + 1, c :: p => c :: fromMacLoop room p

/-- What is written before the loop, and the part of the path that is left for it. -/
def fromMacStart : CStr → CStr × CStr
  | ':' :: p =>
    let (ups, rest) := fromMacUps p
    if rest = [] then ('.' :: ups, []) else ('.' :: ups ++ ['/'], rest)
  | p => ('/' :: volumesPrefix, p)

def posix9_path_from_mac (mac_path : CStr) (dst_size : ℕ) : CStr :=
  if mac_path = [] then []
  else
    let (out, p) := fromMacStart mac_path
    out ++ fromMacLoop (dst_size - 1 - out.length) p

/-! ### The two resolvers -/

/-- `*p == '/' ? ':' : *p`, the character both loops of `path_to_fsspec_basic` write. -/
def slashToColon (c : Char) : Char := if c = '/' then ':' else c

/-- `mac_path` of `path_to_fsspec_basic`, in a buffer of `size` bytes. -/
def basicMacPath (path : CStr) (size : ℕ) : CStr :=
  match path with
  | '/' :: p =>
    let p := if volumesPrefix.isPrefixOf p then p.drop 8 else p
    (p.map slashToColon).take (size - 1)
  | path =>
    if ':' ∈ path then strncpyNul path size
    else ':' :: (path.map slashToColon).take (size - 2)

/-- The pathname `path_to_fsspec_basic` passes to `FSMakeFSSpec`. -/
def basicPPath (path : CStr) : Str255 := c_to_pstr (basicMacPath path POSIX9_PATH_MAX)

/-- The pathname `posix9_path_to_fsspec` passes to `FSMakeFSSpec`. -/
def fullPPath (default_volume : VolumeName) (path : CStr) : Str255 :=
  c_to_pstr (posix9_path_to_mac default_volume path POSIX9_PATH_MAX)

end Posix9
