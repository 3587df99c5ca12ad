import Mathlib.Algebra.Group.Nat.Defs
import Mathlib.Data.List.TakeWhile

/-! Requests of HTTP/1.0 with a body whose length a field of the request says: what one is written as, and what a
    reader makes of it. -/

namespace Http

structure Request where
  method : List Char
  path : List Char
  version : List Char
  fields : List (List Char × List Char)
  body : List Char

/-! ### Writing -/

def crlf : List Char := "\r\n".toList

def renderField (field : List Char × List Char) : List Char := field.1 ++ ':' :: ' ' :: (field.2 ++ crlf)

def Request.render (r : Request) : List Char :=
  r.method ++ ' ' :: (r.path ++ ' ' :: (r.version ++ (crlf ++ (r.fields.flatMap renderField ++ (crlf ++ r.body)))))

/-! ### Reading -/

/-- What is in front of the first `c`, and what is behind it. -/
def cut (c : Char) : List Char → Option (List Char × List Char)
  | [] => none
  | d :: cs => if d = c then some ([], cs) else (cut c cs).map fun (front, rest) => (d :: front, rest)

def line (cs : List Char) : Option (List Char × List Char) :=
  (cut '\r' cs).bind fun (l, rest) => if rest.head? = some '\n' then some (l, rest.tail) else none

def field (l : List Char) : Option (List Char × List Char) :=
  (cut ':' l).bind fun (name, value) => if value.head? = some ' ' then some (name, value.tail) else none

/-- The fields up to an empty line. -/
def fields : ℕ → List Char → Option (List (List Char × List Char) × List Char)
  | 0, _ => none
  | n + 1, cs => do
    let (l, cs) ← line cs
    if l = [] then some ([], cs)
    else
      let f ← field l
      let (fs, cs) ← fields n cs
      some (f :: fs, cs)

def contentLength (fs : List (List Char × List Char)) : Option ℕ :=
  (fs.lookup "Content-Length".toList).bind fun value =>
    if Nat.toDigits 10 (Nat.ofDigitChars 10 value 0) = value then some (Nat.ofDigitChars 10 value 0) else none

/-- A request and what is behind it; no request has more fields than characters. -/
def read (cs : List Char) : Option (Request × List Char) := do
  let (first, cs) ← line cs
  let (method, first) ← cut ' ' first
  let (path, version) ← cut ' ' first
  let (fs, cs) ← fields cs.length cs
  let length ← contentLength fs
  if length ≤ cs.length then some (⟨method, path, version, fs, cs.take length⟩, cs.drop length) else none

/-! ### A reader reads what was written -/

/-- The parts of a request do not have in them what ends them. -/
structure Request.Sound (r : Request) : Prop where
  method : ' ' ∉ r.method ∧ '\r' ∉ r.method
  path : ' ' ∉ r.path ∧ '\r' ∉ r.path
  version : '\r' ∉ r.version
  fields : ∀ f ∈ r.fields, ':' ∉ f.1 ∧ '\r' ∉ f.1 ∧ '\r' ∉ f.2
  length : r.fields.lookup "Content-Length".toList = some (Nat.toDigits 10 r.body.length)

variable {c : Char} {l cs rest : List Char} {n : ℕ}

theorem cut_append (hc : c ∉ l) (rest : List Char) : cut c (l ++ c :: rest) = some (l, rest) := by
  induction l with
  | nil => rw [List.nil_append, cut, if_pos rfl]
  | cons d l ih =>
    obtain ⟨hd, hl⟩ := not_or.mp (mt List.mem_cons.mpr hc)
    rw [List.cons_append, cut, if_neg (Ne.symm hd), ih hl, Option.map_some]

theorem line_append (hl : '\r' ∉ l) (rest : List Char) : line (l ++ (crlf ++ rest)) = some (l, rest) := by
  have hcut : cut '\r' (l ++ (crlf ++ rest)) = some (l, '\n' :: rest) := cut_append hl ('\n' :: rest)
  rw [line, hcut]
  rfl

theorem field_append {name value : List Char} (hname : ':' ∉ name) :
    field (name ++ ':' :: ' ' :: value) = some (name, value) := by
  rw [field, cut_append hname]
  rfl

theorem fields_render {fs : List (List Char × List Char)} (hfs : ∀ f ∈ fs, ':' ∉ f.1 ∧ '\r' ∉ f.1 ∧ '\r' ∉ f.2)
    (hn : fs.length < n) (rest : List Char) :
    fields n (fs.flatMap renderField ++ (crlf ++ rest)) = some (fs, rest) := by
  induction fs generalizing n with
  | nil =>
    obtain ⟨n, rfl⟩ : ∃ m, n = m + 1 := ⟨n - 1, by rw [List.length_nil] at hn; omega⟩
    have hline := line_append (l := []) List.not_mem_nil rest
    rw [List.nil_append] at hline
    rw [List.flatMap_nil, List.nil_append, fields, hline]
    rfl
  | cons f fs ih =>
    obtain ⟨n, rfl⟩ : ∃ m, n = m + 1 := ⟨n - 1, by rw [List.length_cons] at hn; omega⟩
    obtain ⟨hcolon, hname, hvalue⟩ := hfs f List.mem_cons_self
    have hcr : '\r' ∉ f.1 ++ ':' :: ' ' :: f.2 := by
      intro h
      rcases List.mem_append.mp h with h | h
      · exact hname h
      · simp only [List.mem_cons] at h
        rcases h with h | h | h
        · exact absurd h (by decide)
        · exact absurd h (by decide)
        · exact hvalue h
    have hline := line_append hcr (fs.flatMap renderField ++ (crlf ++ rest))
    have hrest := ih (fun g hg => hfs g (List.mem_cons_of_mem f hg)) (Nat.succ_lt_succ_iff.mp hn)
    have htext : (f :: fs).flatMap renderField ++ (crlf ++ rest) =
        (f.1 ++ ':' :: ' ' :: f.2) ++ (crlf ++ (fs.flatMap renderField ++ (crlf ++ rest))) := by
      simp only [List.flatMap_cons, renderField, List.append_assoc, List.cons_append]
    rw [htext, fields, hline]
    simp only [Option.bind_eq_bind, Option.bind_some, field_append hcolon, hrest]
    rw [if_neg (by simp)]

theorem length_fields_lt (fs : List (List Char × List Char)) (cs : List Char) :
    fs.length < (fs.flatMap renderField ++ (crlf ++ cs)).length := by
  induction fs with
  | nil => exact Nat.succ_pos _
  | cons f fs ih =>
    rw [List.flatMap_cons, List.append_assoc, List.length_append, List.length_cons, renderField, List.length_append,
      List.length_cons]
    omega

/-- Of a stream of requests the reader takes the first one and leaves the others. -/
theorem read_render {r : Request} (hr : r.Sound) (rest : List Char) : read (r.render ++ rest) = some (r, rest) := by
  have htext : r.render ++ rest = (r.method ++ ' ' :: (r.path ++ ' ' :: r.version)) ++
      (crlf ++ (r.fields.flatMap renderField ++ (crlf ++ (r.body ++ rest)))) := by
    simp only [Request.render, List.append_assoc, List.cons_append]
  have hcr : '\r' ∉ r.method ++ ' ' :: (r.path ++ ' ' :: r.version) := by
    simp only [List.mem_append, List.mem_cons, not_or]
    exact ⟨hr.method.2, by decide, hr.path.2, by decide, hr.version⟩
  have hfields := fields_render hr.fields (length_fields_lt r.fields (r.body ++ rest)) (r.body ++ rest)
  have hlength : contentLength r.fields = some r.body.length := by
    rw [contentLength, hr.length, Option.bind_some, Nat.ofDigitChars_ten_toDigits, if_pos rfl]
  have hroom : r.body.length ≤ (r.body ++ rest).length := by
    rw [List.length_append]
    omega
  rw [htext, read, line_append hcr]
  simp only [Option.bind_eq_bind, Option.bind_some, cut_append hr.method.1, cut_append hr.path.1, hfields, hlength,
    if_pos hroom, List.take_left, List.drop_left]

end Http
