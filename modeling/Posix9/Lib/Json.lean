import Mathlib.Algebra.Group.Nat.Defs
import Mathlib.Data.List.TakeWhile

/-! JSON texts with no blanks between their tokens, no escapes in their strings and no signs or exponents in their
    numbers: what a value is written as, and what a reader makes of it. -/

namespace Json

def quote : Char := Char.ofNat 0x22
def backslash : Char := Char.ofNat 0x5c
def openBrace : Char := Char.ofNat 0x7b
def closeBrace : Char := Char.ofNat 0x7d

/-- Characters that stand for themselves in a string. -/
def plain (c : Char) : Bool := 0x20 ≤ c.toNat && c != quote && c != backslash

/-- What stands between the quotes, nothing of it escaped. -/
structure Text where
  chars : List Char
  plain : ∀ c ∈ chars, plain c = true

inductive Value where
  | null
  | bool (b : Bool)
  | num (whole : ℕ) (fraction : List (Fin 10))
  | str (s : Text)
  | arr (xs : List Value)
  | obj (members : List (Text × Value))

/-! ### Writing -/

def Text.render (s : Text) : List Char := quote :: (s.chars ++ [quote])

/-- The digits behind the point, without the point where there are none. -/
def renderFraction (fraction : List (Fin 10)) : List Char :=
  if fraction = [] then [] else '.' :: fraction.map fun d : Fin 10 => Nat.digitChar d

mutual

def render : Value → List Char
  | .null => "null".toList
  | .bool true => "true".toList
  | .bool false => "false".toList
  | .num whole fraction => Nat.toDigits 10 whole ++ renderFraction fraction
  | .str s => s.render
  | .arr [] => ['[', ']']
  | .arr (x :: xs) => '[' :: (render x ++ renderElements xs)
  | .obj [] => [openBrace, closeBrace]
  | .obj ((k, v) :: ms) => openBrace :: (k.render ++ ':' :: (render v ++ renderMembers ms))

/-- The elements behind the first one, and the end of the array. -/
def renderElements : List Value → List Char
  | [] => [']']
  | x :: xs => ',' :: (render x ++ renderElements xs)

def renderMembers : List (Text × Value) → List Char
  | [] => [closeBrace]
  | (k, v) :: ms => ',' :: (k.render ++ ':' :: (render v ++ renderMembers ms))

end

/-! ### Reading -/

/-- A string behind its first quote. -/
def text (cs : List Char) : Option (Text × List Char) :=
  match cs.dropWhile plain with
  | [] => none
  | c :: rest =>
    if c = quote then some (⟨cs.takeWhile plain, fun _ h => List.mem_takeWhile_imp h⟩, rest) else none

/-- The value of a digit, and of anything else what its code happens to give. -/
def digit (c : Char) : Fin 10 := ⟨(c.toNat - '0'.toNat) % 10, Nat.mod_lt _ (by decide)⟩

/-- What may stand behind the whole part of a numeral: a point and some digits. -/
def fraction (cs : List Char) : Option (List (Fin 10) × List Char) :=
  if cs.head? ≠ some '.' then some ([], cs)
  else if cs.tail.takeWhile Char.isDigit = [] then none
  else some ((cs.tail.takeWhile Char.isDigit).map digit, cs.tail.dropWhile Char.isDigit)

/-- The whole part has digits and does not begin with a zero for nothing. -/
def number (cs : List Char) : Option (Value × List Char) :=
  let digits := cs.takeWhile Char.isDigit
  let whole := Nat.ofDigitChars 10 digits 0
  if Nat.toDigits 10 whole ≠ digits then none
  else (fraction (cs.dropWhile Char.isDigit)).map fun (ds, cs) => (.num whole ds, cs)

/-- One of the three words. -/
def literal (word : List Char) (v : Value) (cs : List Char) : Option (Value × List Char) :=
  if word.isPrefixOf cs then some (v, cs.drop word.length) else none

mutual

def value : ℕ → List Char → Option (Value × List Char)
  | 0, _ | _ + 1, [] => none
  | n + 1, c :: cs =>
    if c = quote then (text cs).map fun (s, cs) => (.str s, cs)
    else if c = '[' then
      if cs.head? = some ']' then some (.arr [], cs.tail)
      else do
        let (x, cs) ← value n cs
        let (xs, cs) ← elements n cs
        some (.arr (x :: xs), cs)
    else if c = openBrace then
      if cs.head? = some closeBrace then some (.obj [], cs.tail)
      else do
        let (m, cs) ← member n cs
        let (ms, cs) ← members n cs
        some (.obj (m :: ms), cs)
    else if c = 'n' then literal "ull".toList .null cs
    else if c = 't' then literal "rue".toList (.bool true) cs
    else if c = 'f' then literal "alse".toList (.bool false) cs
    else number (c :: cs)

def elements : ℕ → List Char → Option (List Value × List Char)
  | 0, _ | _ + 1, [] => none
  | n + 1, c :: cs =>
    if c = ']' then some ([], cs)
    else if c = ',' then do
      let (x, cs) ← value n cs
      let (xs, cs) ← elements n cs
      some (x :: xs, cs)
    else none

def member : ℕ → List Char → Option ((Text × Value) × List Char)
  | 0, _ | _ + 1, [] => none
  | n + 1, c :: cs =>
    if c = quote then do
      let (k, cs) ← text cs
      if cs.head? = some ':' then
        let (v, cs) ← value n cs.tail
        some ((k, v), cs)
      else none
    else none

def members : ℕ → List Char → Option (List (Text × Value) × List Char)
  | 0, _ | _ + 1, [] => none
  | n + 1, c :: cs =>
    if c = closeBrace then some ([], cs)
    else if c = ',' then do
      let (m, cs) ← member n cs
      let (ms, cs) ← members n cs
      some (m :: ms, cs)
    else none

end

/-- A text that is one value; no value takes more steps than it has characters. -/
def parse (cs : List Char) : Option Value :=
  match value cs.length cs with
  | some (v, []) => some v
  | _ => none

/-! ### A reader reads what was written -/

variable {rest : List Char} {n : ℕ}

/-- A text is read up to its quote. -/
theorem text_render (s : Text) (rest : List Char) : text (s.chars ++ quote :: rest) = some (s, rest) := by
  have htake : (s.chars ++ quote :: rest).takeWhile plain = s.chars := by
    rw [List.takeWhile_append_of_pos s.plain, List.takeWhile_cons_of_neg (by decide), List.append_nil]
  have hdrop : (s.chars ++ quote :: rest).dropWhile plain = quote :: rest := by
    rw [List.dropWhile_append_of_pos s.plain, List.dropWhile_cons_of_neg (by decide)]
  rw [text]
  simp only [hdrop, htake, if_true]

/-- What may stand behind a numeral without being taken for a part of it. -/
def Ends (rest : List Char) : Prop := ∀ c ∈ rest.head?, c.isDigit = false ∧ c ≠ '.'

/-- Digits are read up to the first character that is none. -/
theorem takeWhile_digits {ds : List Char} (hds : ∀ c ∈ ds, c.isDigit = true)
    (hrest : ∀ c ∈ rest.head?, c.isDigit = false) :
    (ds ++ rest).takeWhile Char.isDigit = ds ∧ (ds ++ rest).dropWhile Char.isDigit = rest := by
  rw [List.takeWhile_append_of_pos hds, List.dropWhile_append_of_pos hds]
  rcases rest with _ | ⟨c, rest⟩
  · exact ⟨List.append_nil ds, rfl⟩
  · have hc : ¬ c.isDigit = true := by simp [hrest c rfl]
    rw [List.takeWhile_cons_of_neg hc, List.dropWhile_cons_of_neg hc, List.append_nil]
    exact ⟨rfl, rfl⟩

theorem digit_digitChar : ∀ d : Fin 10, digit (Nat.digitChar d) = d := by decide

theorem isDigit_digitChar : ∀ d : Fin 10, (Nat.digitChar d).isDigit = true := by decide

/-- A fraction is, as well, where neither a digit nor a point follows. -/
theorem fraction_render (ds : List (Fin 10)) (hrest : Ends rest) :
    fraction (renderFraction ds ++ rest) = some (ds, rest) := by
  rw [fraction, renderFraction]
  by_cases hnone : ds = []
  · subst hnone
    have hhead : rest.head? ≠ some '.' := fun h => (hrest _ h).2 rfl
    rw [if_pos rfl, List.nil_append, if_pos hhead]
  · have hdigits : ∀ c ∈ ds.map fun d : Fin 10 => Nat.digitChar d, c.isDigit = true := by
      intro c hc
      obtain ⟨d, -, rfl⟩ := List.mem_map.mp hc
      exact isDigit_digitChar d
    obtain ⟨htake, hdrop⟩ := takeWhile_digits hdigits fun c hc => (hrest c hc).1
    have hback : (ds.map fun d : Fin 10 => Nat.digitChar d).map digit = ds := by
      simp [Function.comp_def, digit_digitChar]
    rw [if_neg hnone, List.cons_append, List.head?_cons, if_neg (not_not.mpr rfl), List.tail_cons, htake, hdrop, hback,
      if_neg (by simpa using hnone)]

theorem number_render (whole : ℕ) (ds : List (Fin 10)) (hrest : Ends rest) :
    number (Nat.toDigits 10 whole ++ (renderFraction ds ++ rest)) = some (.num whole ds, rest) := by
  have hdigits : ∀ c ∈ Nat.toDigits 10 whole, c.isDigit = true := fun c hc =>
    Nat.isDigit_of_mem_toDigits (by decide) (by decide) hc
  have hbehind : ∀ c ∈ (renderFraction ds ++ rest).head?, c.isDigit = false := by
    rw [renderFraction]
    split
    · exact fun c hc => (hrest c hc).1
    · rintro c ⟨⟩
      rfl
  obtain ⟨htake, hdrop⟩ := takeWhile_digits hdigits hbehind
  rw [number]
  simp only [htake, hdrop, Nat.ofDigitChars_ten_toDigits, ne_eq, not_true, if_false, fraction_render ds hrest,
    Option.map_some]

/-- A number ends in front of any other character. -/
theorem ends_cons {c : Char} (hc : c.isDigit = false ∧ c ≠ '.') (rest : List Char) : Ends (c :: rest) := by
  rintro d ⟨⟩
  exact hc

theorem ends_renderElements (xs : List Value) (rest : List Char) : Ends (renderElements xs ++ rest) := by
  cases xs <;> exact ends_cons (by decide) _

theorem ends_renderMembers (ms : List (Text × Value)) (rest : List Char) : Ends (renderMembers ms ++ rest) := by
  rcases ms with _ | ⟨⟨k, v⟩, ms⟩ <;> exact ends_cons (by decide) _

theorem toDigits_cons (whole : ℕ) : ∃ c ds, Nat.toDigits 10 whole = c :: ds ∧ c.isDigit = true := by
  rcases hdigits : Nat.toDigits 10 whole with _ | ⟨c, ds⟩
  · exact absurd hdigits Nat.toDigits_ne_nil
  · have hc : c ∈ Nat.toDigits 10 whole := by
      rw [hdigits]
      exact List.mem_cons_self
    exact ⟨c, ds, rfl, Nat.isDigit_of_mem_toDigits (by decide) (by decide) hc⟩

theorem ne_of_isDigit {c d : Char} (hc : c.isDigit = true) (hd : d.isDigit = false) : c ≠ d := by
  rintro rfl
  rw [hc] at hd
  cases hd

/-- A numeral begins with a digit, which nothing else does. -/
theorem value_number (whole : ℕ) (cs : List Char) (n : ℕ) :
    value (n + 1) (Nat.toDigits 10 whole ++ cs) = number (Nat.toDigits 10 whole ++ cs) := by
  obtain ⟨c, ds, hdigits, hc⟩ := toDigits_cons whole
  have hne : ∀ d : Char, d.isDigit = false → c ≠ d := fun d hd => ne_of_isDigit hc hd
  rw [hdigits, List.cons_append, value, if_neg (hne _ (by decide)), if_neg (hne _ (by decide)),
    if_neg (hne _ (by decide)), if_neg (hne _ (by decide)), if_neg (hne _ (by decide)), if_neg (hne _ (by decide))]

/-- A value starts with a character of its own, never with the end of a list. -/
theorem render_cons (v : Value) : ∃ c cs, render v = c :: cs ∧ c ≠ ']' := by
  match v with
  | .null | .bool true | .bool false | .arr [] => exact ⟨_, _, rfl, by decide⟩
  | .num whole ds =>
    obtain ⟨c, cs, hdigits, hc⟩ := toDigits_cons whole
    refine ⟨c, cs ++ renderFraction ds, ?_, ne_of_isDigit hc (by decide)⟩
    rw [render, hdigits, List.cons_append]
  | .str s => exact ⟨quote, s.chars ++ [quote], by rw [render, Text.render], by decide⟩
  | .arr (x :: xs) => exact ⟨'[', render x ++ renderElements xs, by rw [render], by decide⟩
  | .obj [] => exact ⟨openBrace, _, by rw [render], by decide⟩
  | .obj ((k, w) :: ms) =>
    exact ⟨openBrace, _, by rw [render], by decide⟩

/-- A member is read if its value is. -/
theorem member_render (k : Text) {v : Value} (hv : value n (render v ++ rest) = some (v, rest)) :
    member (n + 1) (k.render ++ ':' :: (render v ++ rest)) = some ((k, v), rest) := by
  rw [Text.render, List.cons_append, List.append_assoc, member, if_pos rfl, List.singleton_append, text_render]
  simp only [Option.bind_eq_bind, Option.bind_some, List.head?_cons, if_true, List.tail_cons, hv]

theorem length_member (k : Text) (cs : List Char) : cs.length + 3 ≤ (k.render ++ ':' :: cs).length := by
  rw [Text.render, List.length_append, List.length_cons, List.length_cons, List.length_append, List.length_singleton]
  omega

theorem succ_of_render {v : Value} (hn : (render v).length ≤ n) : ∃ m, n = m + 1 := by
  obtain ⟨c, cs, hrender, -⟩ := render_cons v
  rw [hrender, List.length_cons] at hn
  exact ⟨n - 1, by omega⟩

mutual

/-- A value that is written is read, with as many steps as its text has characters. -/
theorem value_render (v : Value) (n : ℕ) (rest : List Char) (hn : (render v).length ≤ n) (hrest : Ends rest) :
    value n (render v ++ rest) = some (v, rest) := by
  obtain ⟨n, rfl⟩ := succ_of_render hn
  match v with
  | .null => rfl
  | .bool true => rfl
  | .bool false => rfl
  | .num whole ds => rw [render, List.append_assoc, value_number, number_render whole ds hrest]
  | .str s =>
    rw [render, Text.render, List.cons_append, List.append_assoc, List.singleton_append, value, if_pos rfl, text_render]
    rfl
  | .arr [] => rfl
  | .arr (x :: xs) =>
    rw [render, List.length_cons, List.length_append] at hn
    have hx := value_render x n (renderElements xs ++ rest) (by omega) (ends_renderElements xs rest)
    have hxs := elements_render xs n rest (by omega)
    obtain ⟨c, cs, hrender, hc⟩ := render_cons x
    have hhead : (render x ++ (renderElements xs ++ rest)).head? ≠ some ']' := by
      rw [hrender, List.cons_append, List.head?_cons]
      exact fun h => hc (Option.some.inj h)
    rw [render, List.cons_append, List.append_assoc, value, if_neg (by decide), if_pos rfl, if_neg hhead]
    simp only [hx, hxs, Option.bind_eq_bind, Option.bind_some]
  | .obj [] => rfl
  | .obj ((k, w) :: ms) =>
    have hlength := length_member k (render w ++ renderMembers ms)
    rw [render, List.length_cons] at hn
    rw [List.length_append] at hlength
    obtain ⟨n, rfl⟩ : ∃ m, n = m + 1 := ⟨n - 1, by omega⟩
    have hw := value_render w n (renderMembers ms ++ rest) (by omega) (ends_renderMembers ms rest)
    have hm := member_render k hw
    have hms := members_render ms (n + 1) rest (by omega)
    have hhead : (k.render ++ ':' :: (render w ++ (renderMembers ms ++ rest))).head? ≠ some closeBrace := by
      rw [Text.render, List.cons_append, List.head?_cons]
      decide
    rw [render, List.cons_append, List.append_assoc, List.cons_append, List.append_assoc, value, if_neg (by decide),
      if_neg (by decide), if_pos rfl, if_neg hhead]
    simp only [hm, hms, Option.bind_eq_bind, Option.bind_some]

theorem elements_render (xs : List Value) (n : ℕ) (rest : List Char) (hn : (renderElements xs).length ≤ n) :
    elements n (renderElements xs ++ rest) = some (xs, rest) := by
  match xs with
  | [] =>
    obtain ⟨n, rfl⟩ : ∃ m, n = m + 1 := ⟨n - 1, by rw [renderElements, List.length_singleton] at hn; omega⟩
    rfl
  | x :: xs =>
    rw [renderElements, List.length_cons, List.length_append] at hn
    obtain ⟨n, rfl⟩ : ∃ m, n = m + 1 := ⟨n - 1, by omega⟩
    have hx := value_render x n (renderElements xs ++ rest) (by omega) (ends_renderElements xs rest)
    have hxs := elements_render xs n rest (by omega)
    rw [renderElements, List.cons_append, List.append_assoc, elements, if_neg (by decide), if_pos rfl]
    simp only [hx, hxs, Option.bind_eq_bind, Option.bind_some]

theorem members_render (ms : List (Text × Value)) (n : ℕ) (rest : List Char) (hn : (renderMembers ms).length ≤ n) :
    members n (renderMembers ms ++ rest) = some (ms, rest) := by
  match ms with
  | [] =>
    obtain ⟨n, rfl⟩ : ∃ m, n = m + 1 := ⟨n - 1, by rw [renderMembers, List.length_singleton] at hn; omega⟩
    rfl
  | (k, v) :: ms =>
    have hlength := length_member k (render v ++ renderMembers ms)
    rw [renderMembers, List.length_cons] at hn
    rw [List.length_append] at hlength
    obtain ⟨n, rfl⟩ : ∃ m, n = m + 1 + 1 := ⟨n - 2, by omega⟩
    have hv := value_render v n (renderMembers ms ++ rest) (by omega) (ends_renderMembers ms rest)
    have hm := member_render k hv
    have hms := members_render ms (n + 1) rest (by omega)
    rw [renderMembers, List.cons_append, List.append_assoc, List.cons_append, List.append_assoc, members,
      if_neg (by decide), if_pos rfl]
    simp only [hm, hms, Option.bind_eq_bind, Option.bind_some]

end

/-- What is rendered parses to what it was rendered from. -/
theorem parse_render (v : Value) : parse (render v) = some v := by
  have hread := value_render v (render v).length [] (Nat.le_refl _) (by rintro c ⟨⟩)
  rw [List.append_nil] at hread
  rw [parse, hread]

end Json
