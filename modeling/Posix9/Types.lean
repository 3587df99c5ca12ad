import Mathlib.Data.Int.Notation
import Mathlib.Data.List.Basic

/-! posix9/types.h, posix9/errno.h and the string helpers: C strings, Pascal strings, table sizes and
    error numbers.

    A C string is the list of its characters before the NUL; the File Manager's alphabet has one
    byte a character, so lengths count bytes. -/

namespace Posix9

abbrev CStr := List Char

def NUL : Char := Char.ofNat 0

def POSIX9_PATH_MAX : ℕ := 1024

def POSIX9_OPEN_MAX : ℕ := 256

/-! ### Strings -/

/-- A Pascal string: its length byte is at most 255. -/
structure Str255 where
  chars : CStr
  length_le : chars.length ≤ 255
  deriving DecidableEq

/-- `c_to_pstr`, `c2pstr`, `cstr_to_pstr`: a longer C string is cut. -/
def c_to_pstr (cstr : CStr) : Str255 :=
  ⟨cstr.take 255, List.length_take_le 255 cstr⟩

/-- `p_to_cstr`, `p2cstr`, `pstr_to_cstr` into a buffer of `maxlen` bytes. -/
def p_to_cstr (pstr : Str255) (maxlen : ℕ) : CStr :=
  pstr.chars.take (maxlen - 1)

/-- `strncpy(dst, src, size - 1); dst[size - 1] = '\0'`. -/
def strncpyNul (src : CStr) (size : ℕ) : CStr := src.take (size - 1)

theorem c_to_pstr_chars {cstr : CStr} (h : cstr.length ≤ 255) : (c_to_pstr cstr).chars = cstr :=
  List.take_of_length_le h

/-! ### errno.h -/

def EPERM : ℤ := 1
def ENOENT : ℤ := 2
def ESRCH : ℤ := 3
def EINTR : ℤ := 4
def EIO : ℤ := 5
def ENXIO : ℤ := 6
def EBADF : ℤ := 9
def EAGAIN : ℤ := 11
def ENOMEM : ℤ := 12
def EACCES : ℤ := 13
def EFAULT : ℤ := 14
def EBUSY : ℤ := 16
def EEXIST : ℤ := 17
def ENODEV : ℤ := 19
def ENOTDIR : ℤ := 20
def EINVAL : ℤ := 22
def EMFILE : ℤ := 24
def ENOTTY : ℤ := 25
def ENOSPC : ℤ := 28
def ESPIPE : ℤ := 29
def EROFS : ℤ := 30
def EPIPE : ℤ := 32
def ERANGE : ℤ := 34
def EDEADLK : ℤ := 35
def ENOSYS : ℤ := 38
def EWOULDBLOCK : ℤ := EAGAIN
def ENOTSOCK : ℤ := 88
def EDESTADDRREQ : ℤ := 89
def EMSGSIZE : ℤ := 90
def EPROTOTYPE : ℤ := 91
def ENOPROTOOPT : ℤ := 92
def EPROTONOSUPPORT : ℤ := 93
def ESOCKTNOSUPPORT : ℤ := 94
def EOPNOTSUPP : ℤ := 95
def EAFNOSUPPORT : ℤ := 97
def EADDRINUSE : ℤ := 98
def EADDRNOTAVAIL : ℤ := 99
def ENETDOWN : ℤ := 100
def ENETUNREACH : ℤ := 101
def ENETRESET : ℤ := 102
def ECONNABORTED : ℤ := 103
def ECONNRESET : ℤ := 104
def ENOBUFS : ℤ := 105
def EISCONN : ℤ := 106
def ENOTCONN : ℤ := 107
def ESHUTDOWN : ℤ := 108
def ETIMEDOUT : ℤ := 110
def ECONNREFUSED : ℤ := 111
def EHOSTDOWN : ℤ := 112
def EHOSTUNREACH : ℤ := 113
def EALREADY : ℤ := 114
def EINPROGRESS : ℤ := 115

/-- Where errno.h does not have it. -/
def ECANCELED : ℤ := 140

end Posix9
