/-! # JSON text

  Enough of JSON to read an options file: blanks, strings with their escapes,
  and a recogniser for values of any kind. Each function takes the text still
  to be read and returns what is left of it.
-/

namespace TriangleTam.Json

/-! ## Blanks and strings -/

/-- The four blanks of JSON. -/
def isBlank (c : Char) : Bool := c = ' ' || c = '\n' || c = '\t' || c = '\r'

def skipBlanks (text : List Char) : List Char := text.dropWhile isBlank

theorem length_skipBlanks (text : List Char) : (skipBlanks text).length ≤ text.length :=
  (List.dropWhile_suffix isBlank).length_le

/-- The value of a hexadecimal digit. -/
def hexValue? (c : Char) : Option Nat :=
  if c.isDigit then some (c.toNat - '0'.toNat)
  else if 'a' ≤ c ∧ c ≤ 'f' then some (c.toNat - 'a'.toNat + 10)
  else if 'A' ≤ c ∧ c ≤ 'F' then some (c.toNat - 'A'.toNat + 10)
  else none

/-- The code of four hexadecimal digits. -/
def hexCode? (a b c d : Char) : Option Nat := do
  return (((← hexValue? a) * 16 + (← hexValue? b)) * 16 + (← hexValue? c)) * 16 + (← hexValue? d)

/-- The character of a one-letter escape. -/
def escape? (c : Char) : Option Char :=
  match c with
  | '"' => some '"'
  | '\\' => some '\\'
  | '/' => some '/'
  | 'b' => some '\x08'
  | 'f' => some '\x0c'
  | 'n' => some '\n'
  | 'r' => some '\r'
  | 't' => some '\t'
  | _ => none

/-- The codes of a string, read after its opening quote, and the text after
    its closing quote. An escape of four digits gives one code, which may be
    half of a surrogate pair. -/
def string? : List Char → Option (List Nat × List Char)
  | [] => none
  | '"' :: rest => some ([], rest)
  | '\\' :: 'u' :: a :: b :: c :: d :: rest => do
    let code ← hexCode? a b c d
    let (codes, rest) ← string? rest
    return (code :: codes, rest)
  | '\\' :: c :: rest => do
    let escaped ← escape? c
    let (codes, rest) ← string? rest
    return (escaped.toNat :: codes, rest)
  | c :: rest =>
    if c.toNat < 0x20 ∨ c = '\\' then none
    else do
      let (codes, rest) ← string? rest
      return (c.toNat :: codes, rest)

/-- The characters of a string. Surrogates have to come in pairs. -/
def characters? : List Nat → Option (List Char)
  | [] => some []
  | code :: codes =>
    if 0xD800 ≤ code ∧ code < 0xDC00 then
      match codes with
      | low :: rest =>
        if 0xDC00 ≤ low ∧ low < 0xE000 then
          (characters? rest).map
            (Char.ofNat (0x10000 + (code - 0xD800) * 0x400 + (low - 0xDC00)) :: ·)
        else none
      | [] => none
    else if 0xDC00 ≤ code ∧ code < 0xE000 then none
    else (characters? codes).map (Char.ofNat code :: ·)

theorem length_string? {text rest : List Char} {codes : List Nat}
    (h : string? text = some (codes, rest)) : rest.length < text.length := by
  fun_induction string? text generalizing codes rest with
  | case1 => simp at h
  | case2 => simp_all
  | case3 a b c d rest' ih =>
    simp only [bind, Option.bind_eq_some_iff] at h
    obtain ⟨_, _, ⟨codes', left⟩, hs, he⟩ := h
    have := ih hs
    simp only [pure, Option.some.injEq, Prod.mk.injEq] at he
    simp only [List.length_cons, ← he.2]
    omega
  | case4 c rest' _ ih =>
    simp only [bind, Option.bind_eq_some_iff] at h
    obtain ⟨_, _, ⟨codes', left⟩, hs, he⟩ := h
    have := ih hs
    simp only [pure, Option.some.injEq, Prod.mk.injEq] at he
    simp only [List.length_cons, ← he.2]
    omega
  | case5 => simp at h
  | case6 c rest' _ _ _ _ ih =>
    simp only [bind, Option.bind_eq_some_iff] at h
    obtain ⟨⟨codes', left⟩, hs, he⟩ := h
    have := ih hs
    simp only [pure, Option.some.injEq, Prod.mk.injEq] at he
    simp only [List.length_cons, ← he.2]
    omega

/-! ## Values -/

/-- What is left of a text of which something was read. -/
abbrev Rest (text : List Char) := { rest : List Char // rest.length < text.length }

/-- What follows a word at the start of a text. -/
def dropWord? : List Char → List Char → Option (List Char)
  | [], text => some text
  | _ :: _, [] => none
  | c :: word, d :: text => if c = d then dropWord? word text else none

theorem length_dropWord? {word text rest : List Char} (h : dropWord? word text = some rest) :
    rest.length + word.length = text.length := by
  fun_induction dropWord? word text with
  | case1 => simp_all
  | case2 => simp at h
  | case3 c word text ih =>
    have := ih h
    simp only [List.length_cons]
    omega
  | case4 => simp at h

/-- Read a word that starts with `c`, with blanks before it. -/
def skipWord? (c : Char) (word text : List Char) : Option (Rest text) :=
  match h : dropWord? (c :: word) (skipBlanks text) with
  | some rest => some ⟨rest, by
      have := length_dropWord? h
      have := length_skipBlanks text
      simp only [List.length_cons] at *
      omega⟩
  | none => none

def skipTrue? (text : List Char) : Option (Rest text) := skipWord? 't' ['r', 'u', 'e'] text

def skipFalse? (text : List Char) : Option (Rest text) := skipWord? 'f' ['a', 'l', 's', 'e'] text

def skipNull? (text : List Char) : Option (Rest text) := skipWord? 'n' ['u', 'l', 'l'] text

/-- Read a string after its opening quote. -/
def skipString? (text : List Char) : Option (Rest text) :=
  match h : string? text with
  | some (_, rest) => some ⟨rest, length_string? h⟩
  | none => none

/-- Read one digit or more. -/
def skipDigits? (text : List Char) : Option (Rest text) :=
  match text with
  | [] => none
  | c :: cs =>
    if c.isDigit then
      some ⟨cs.dropWhile Char.isDigit, by
        have := (List.dropWhile_suffix Char.isDigit (l := cs)).length_le
        simp only [List.length_cons]; omega⟩
    else none

/-- Read a fraction if there is one. -/
def skipFraction? (text : List Char) : Option { rest : List Char // rest.length ≤ text.length } :=
  match text with
  | '.' :: cs =>
    (skipDigits? cs).map fun ⟨rest, _⟩ => ⟨rest, by simp only [List.length_cons]; omega⟩
  | cs => some ⟨cs, Nat.le_refl _⟩

/-- Read an exponent if there is one. -/
def skipExponent? (text : List Char) : Option { rest : List Char // rest.length ≤ text.length } :=
  let exponent (cs : List Char) : Option { rest : List Char // rest.length ≤ cs.length } :=
    match cs with
    | '+' :: ds | '-' :: ds =>
      (skipDigits? ds).map fun ⟨rest, _⟩ => ⟨rest, by simp only [List.length_cons]; omega⟩
    | ds => (skipDigits? ds).map fun ⟨rest, _⟩ => ⟨rest, by omega⟩
  match text with
  | 'e' :: cs | 'E' :: cs =>
    (exponent cs).map fun ⟨rest, _⟩ => ⟨rest, by simp only [List.length_cons]; omega⟩
  | cs => some ⟨cs, Nat.le_refl _⟩

/-- Read a whole number. No digit counts after a leading zero. -/
def skipInteger? (text : List Char) : Option (Rest text) :=
  match text with
  | '0' :: cs => some ⟨cs, by simp⟩
  | cs => skipDigits? cs

/-- Read a number without sign. -/
def skipUnsigned? (text : List Char) : Option (Rest text) := do
  let ⟨afterInteger, _⟩ ← skipInteger? text
  let ⟨afterFraction, _⟩ ← skipFraction? afterInteger
  let ⟨rest, _⟩ ← skipExponent? afterFraction
  return ⟨rest, by omega⟩

/-- Read a number, with blanks before it. -/
def skipNumber? (text : List Char) : Option (Rest text) := do
  have := length_skipBlanks text
  match h : skipBlanks text with
  | '-' :: cs =>
    let ⟨rest, _⟩ ← skipUnsigned? cs
    return ⟨rest, by simp only [h, List.length_cons] at this; omega⟩
  | cs =>
    let ⟨rest, _⟩ ← skipUnsigned? cs
    return ⟨rest, by rw [h] at this; omega⟩

mutual

/-- Read a value of any kind, with blanks before it. -/
def skipValue? (text : List Char) : Option (Rest text) :=
  have := length_skipBlanks text
  match h : skipBlanks text with
  | '"' :: cs => do
    let ⟨rest, _⟩ ← skipString? cs
    return ⟨rest, by simp only [h, List.length_cons] at this; omega⟩
  | '[' :: cs =>
    have := length_skipBlanks cs
    match h' : skipBlanks cs with
    | ']' :: rest => some ⟨rest, by simp only [h, h', List.length_cons] at *; omega⟩
    | _ => do
      let ⟨rest, _⟩ ← skipElements? cs
      return ⟨rest, by simp only [h, List.length_cons] at *; omega⟩
  | '\x7b' :: cs =>
    have := length_skipBlanks cs
    match h' : skipBlanks cs with
    | '\x7d' :: rest => some ⟨rest, by simp only [h, h', List.length_cons] at *; omega⟩
    | _ => do
      let ⟨rest, _⟩ ← skipMembers? cs
      return ⟨rest, by simp only [h, List.length_cons] at *; omega⟩
  | _ => skipNull? text <|> skipTrue? text <|> skipFalse? text <|> skipNumber? text
termination_by 2 * text.length
decreasing_by all_goals (simp only [h, List.length_cons] at *; omega)

/-- Read the elements of an array and its closing bracket. -/
def skipElements? (text : List Char) : Option (Rest text) := do
  let ⟨afterValue, _⟩ ← skipValue? text
  have := length_skipBlanks afterValue
  match h : skipBlanks afterValue with
  | ',' :: cs =>
    let ⟨rest, _⟩ ← skipElements? cs
    return ⟨rest, by simp only [h, List.length_cons] at *; omega⟩
  | ']' :: rest => some ⟨rest, by simp only [h, List.length_cons] at *; omega⟩
  | _ => none
termination_by 2 * text.length + 1
decreasing_by all_goals (try simp only [h, List.length_cons] at *); omega

/-- Read the members of an object and its closing brace. -/
def skipMembers? (text : List Char) : Option (Rest text) := do
  have := length_skipBlanks text
  match h : skipBlanks text with
  | '"' :: cs =>
    let ⟨afterKey, _⟩ ← skipString? cs
    have := length_skipBlanks afterKey
    match h' : skipBlanks afterKey with
    | ':' :: ds =>
      let ⟨afterValue, _⟩ ← skipValue? ds
      have := length_skipBlanks afterValue
      match h'' : skipBlanks afterValue with
      | ',' :: es =>
        let ⟨rest, _⟩ ← skipMembers? es
        return ⟨rest, by simp only [h, h', h'', List.length_cons] at *; omega⟩
      | '\x7d' :: rest => some ⟨rest, by simp only [h, h', h'', List.length_cons] at *; omega⟩
      | _ => none
    | _ => none
  | _ => none
termination_by 2 * text.length + 1
decreasing_by
  · simp only [h, h', List.length_cons] at *; omega
  · simp only [h, h', h'', List.length_cons] at *; omega

end

end TriangleTam.Json
