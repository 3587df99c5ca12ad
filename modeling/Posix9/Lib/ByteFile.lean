import Mathlib.Data.List.Basic

/-! A file of bytes with a mark that stays within it: reading and writing at the mark, moving it, and setting the
    length of the file. -/

structure ByteFile where
  contents : List UInt8
  mark : ℕ
  mark_le : mark ≤ contents.length

namespace ByteFile

variable {f : ByteFile} {buf pad : List UInt8} {n : ℕ}

def size (f : ByteFile) : ℕ := f.contents.length

/-- What there is of `n` bytes from the mark on. -/
def next (f : ByteFile) (n : ℕ) : List UInt8 := (f.contents.drop f.mark).take n

/-- The mark at a place in the file. -/
def goto (f : ByteFile) (n : ℕ) (h : n ≤ f.size) : ByteFile := { f with mark := n, mark_le := h }

/-- The mark at a place, or at the end where the file does not go that far. -/
def toward (f : ByteFile) (n : ℕ) : ByteFile := f.goto (min n f.size) (Nat.min_le_right _ _)

theorem mark_add_next_le (f : ByteFile) (n : ℕ) : f.mark + (f.next n).length ≤ f.size := by
  have hmark := f.mark_le
  rw [next, List.length_take, List.length_drop, size]
  omega

/-- The file once `n` bytes have been read. -/
def skip (f : ByteFile) (n : ℕ) : ByteFile := f.goto (f.mark + (f.next n).length) (f.mark_add_next_le n)

/-- The bytes put over those from the mark on, and the mark behind them. -/
def write (f : ByteFile) (buf : List UInt8) : ByteFile where
  contents := f.contents.take f.mark ++ buf ++ f.contents.drop (f.mark + buf.length)
  mark := f.mark + buf.length
  mark_le := by
    have hmark := f.mark_le
    rw [List.length_append, List.length_append, List.length_take]
    omega

/-- The file with a length of `n`, by what is behind its end where it has to grow; the mark does not stay behind the
    end. -/
def resize (f : ByteFile) (n : ℕ) (pad : List UInt8) : ByteFile where
  contents := f.contents.take n ++ pad
  mark := min f.mark (f.contents.take n ++ pad).length
  mark_le := Nat.min_le_right _ _

/-- What has been written is read from where it was. -/
theorem next_write (hmark : n = f.mark) (h : n ≤ (f.write buf).size) :
    ((f.write buf).goto n h).next buf.length = buf := by
  subst hmark
  have htake : (f.contents.take f.mark).length = f.mark := List.length_take_of_le f.mark_le
  have hdrop : (f.contents.take f.mark ++ buf ++ f.contents.drop (f.mark + buf.length)).drop f.mark =
      buf ++ f.contents.drop (f.mark + buf.length) := by
    rw [List.append_assoc, List.drop_append_of_le_length (Nat.le_of_eq htake.symm), List.drop_of_length_le (Nat.le_of_eq htake),
      List.nil_append]
  change ((f.contents.take f.mark ++ buf ++ f.contents.drop (f.mark + buf.length)).drop f.mark).take buf.length = buf
  rw [hdrop, List.take_left]

end ByteFile
