import TriangleTam.Token
import TriangleTam.Text.Line

/-! # Scanning

  A text is a sequence of tokens with **separators** before each of them:
  blanks, line comments from `!` or `#` through the next newline, and block
  comments between two `$`. A comment that is never closed reaches to the end
  of the text.

  A token is the longest lexeme of its class that starts at its first
  character, with one exception: `**` ends after its second star. Letters and
  digits are those of ASCII.
-/

namespace TriangleTam

namespace Scan

/-! ## Separators -/

/-- Where in a separator stretch a character stands. -/
inductive Gap
  | outside | lineComment | blockComment
  deriving DecidableEq, Repr

/-- The gap after `c`, or nothing if `c` starts a token. -/
def Gap.next (gap : Gap) (c : Char) : Option Gap :=
  match gap with
  | .outside =>
    if c = '!' ∨ c = '#' then some .lineComment
    else if c = '$' then some .blockComment
    else if c = ' ' ∨ c = '\n' ∨ c = '\r' ∨ c = '\t' then some .outside
    else none
  | .lineComment => some (if c = '\n' then .outside else .lineComment)
  | .blockComment => some (if c = '$' then .outside else .blockComment)

/-- The separator stretch at the start of a text, and the rest. -/
def separators (gap : Gap) : List Char → List Char × List Char
  | [] => ([], [])
  | c :: cs =>
    match gap.next c with
    | none => ([], c :: cs)
    | some gap' =>
      let (stretch, rest) := separators gap' cs
      (c :: stretch, rest)

/-! ## Lexemes -/

/-- The characters that operators are made of. -/
def isOperatorChar (c : Char) : Bool :=
  ['+', '-', '*', '/', '=', '<', '>', '\\', '&', '@', '%', '^', '?', '|'].contains c

/-- A token without its place, and the text after it. -/
structure Lexeme where
  kind     : TokenKind
  spelling : List Char
  rest     : List Char
  deriving DecidableEq, Repr

/-- The character `c` and the longest run of `p` after it. -/
def run (kind : List Char → TokenKind) (p : Char → Bool) (c : Char) (cs : List Char) :
    Lexeme :=
  ⟨kind (c :: cs.takeWhile p), c :: cs.takeWhile p, cs.dropWhile p⟩

/-- The lexeme that starts with `c`, when `cs` follows. -/
def lexeme (c : Char) (cs : List Char) : Lexeme :=
  if c.isAlpha then
    run (fun word => .forWord (String.ofList word)) Char.isAlphanum c cs
  else if c.isDigit then
    run (fun _ => .intLiteral) Char.isDigit c cs
  else if isOperatorChar c then
    match c, cs with
    | '*', '*' :: rest => ⟨.doubleOperator, ['*', '*'], rest⟩
    | _, _ => run (fun _ => .operator) isOperatorChar c cs
  else match c, cs with
    | '\'', x :: '\'' :: rest => ⟨.charLiteral, ['\'', x, '\''], rest⟩
    | '\'', x :: rest => ⟨.error, ['\'', x], rest⟩
    | ':', '=' :: rest => ⟨.becomes, [':', '='], rest⟩
    | ':', rest => ⟨.colon, [':'], rest⟩
    | _, rest => ⟨.forMark c, [c], rest⟩

/-! ## Tokens -/

/-- A place in a text: what is still to be read, and its line number. -/
structure Cursor where
  rest : List Char
  line : Nat
  deriving DecidableEq, Repr

namespace Cursor

/-- The start of a text. -/
def ofText (text : String) : Cursor := ⟨text.toList, 1⟩

/-- The next token and the place after it. At the end of the text that is the
    end marker, again and again. A token starts and finishes on the lines of
    its first and its last character. -/
def next (cursor : Cursor) : Token × Cursor :=
  let (stretch, rest) := separators .outside cursor.rest
  let start := cursor.line + Text.newlines stretch
  match rest with
  | [] => (⟨.endOfText, "", ⟨start, start⟩⟩, ⟨[], start⟩)
  | c :: cs =>
    let found := lexeme c cs
    let finish := start + Text.newlines found.spelling.dropLast
    (⟨found.kind, String.ofList found.spelling, ⟨start, finish⟩⟩,
      ⟨found.rest, start + Text.newlines found.spelling⟩)

/-- The answers to `count` requests for the next token. -/
def nextTokens (cursor : Cursor) : Nat → List Token
  | 0 => []
  | count + 1 =>
    let (token, after) := cursor.next
    token :: after.nextTokens count

end Cursor

/-! ## Progress -/

theorem length_separators (gap : Gap) (text : List Char) :
    (separators gap text).2.length ≤ text.length := by
  induction text generalizing gap with
  | nil => simp [separators]
  | cons c cs ih =>
    simp only [separators]
    split
    · simp
    · rename_i gap' _
      have := ih gap'
      simp only [List.length_cons]
      omega

theorem length_run (kind : List Char → TokenKind) (p : Char → Bool) (c : Char)
    (cs : List Char) : (run kind p c cs).rest.length ≤ cs.length :=
  (List.dropWhile_suffix p).length_le

/-- A lexeme takes its first character off the text at least. -/
theorem length_lexeme (c : Char) (cs : List Char) : (lexeme c cs).rest.length ≤ cs.length := by
  unfold lexeme
  split
  · exact length_run ..
  split
  · exact length_run ..
  split
  · split
    · simp
    · exact length_run ..
  · split <;> simp +arith

/-- Unless it is the end marker, a token is shorter to have behind than ahead. -/
theorem Cursor.length_next {cursor : Cursor} (h : cursor.next.1.kind ≠ .endOfText) :
    cursor.next.2.rest.length < cursor.rest.length := by
  have hs := length_separators .outside cursor.rest
  unfold Cursor.next at h ⊢
  generalize separators .outside cursor.rest = split at *
  obtain ⟨stretch, rest⟩ := split
  cases rest with
  | nil => simp at h
  | cons c cs =>
    have := length_lexeme c cs
    simp only [List.length_cons] at hs ⊢
    omega

/-- The tokens from a place on, the end marker last. -/
def Cursor.tokens (cursor : Cursor) : List Token :=
  if h : cursor.next.1.kind = .endOfText then [cursor.next.1]
  else
    have := Cursor.length_next h
    cursor.next.1 :: cursor.next.2.tokens
termination_by cursor.rest.length

end Scan

/-- The tokens of a text. The last one, and only that, is the end marker. -/
def tokenize (text : String) : List Token := (Scan.Cursor.ofText text).tokens

/-- Where the characters of a text are known, as those of a literal are, none has to be decoded. -/
theorem tokenize_of_chars {text : String} {chars : List Char} (h : text = String.ofList chars) :
    tokenize text = (⟨chars, 1⟩ : Scan.Cursor).tokens := by
  rw [h, tokenize, Scan.Cursor.ofText, String.toList_ofList]

end TriangleTam
