import TriangleTam.Token.Scan
import TriangleTam.Diagnostic

/-! # Token streams

  What a parser reads: the tokens of a text still to come. Every parser
  returns the stream it leaves together with a proof that this is shorter
  than a bound, so that recursive parsers end.
-/

namespace TriangleTam

/-- The tokens still to come, and what parsing carries along. -/
structure Stream where
  /-- The tokens before the end marker. -/
  pending    : List Token
  ending     : Token
  /-- The finish line of the last token taken. -/
  lastFinish : Nat
  /-- How many serial numbers were given to type denoters. -/
  serials    : Nat

/-- How many tokens come before the end marker. -/
def Stream.size (s : Stream) : Nat := s.pending.length

/-- A value, and the stream after it, which is shorter than `bound`. -/
structure Parsed (α : Type) (bound : Nat) where
  value   : α
  rest    : Stream
  shorter : rest.size < bound

/-- A parsed value, or the diagnostic that ends the parse. -/
abbrev Parse (α : Type) (bound : Nat) := Except Diagnostic (Parsed α bound)

namespace Stream

def ofText (text : String) : Stream :=
  let tokens := tokenize text
  ⟨tokens.dropLast, tokens.getLastD ⟨.endOfText, "", ⟨1, 1⟩⟩, 1, 0⟩

/-! ## Looking ahead -/

/-- The next token: the end marker when no other is left. -/
def current (s : Stream) : Token := s.pending.headD s.ending

def kind (s : Stream) : TokenKind := s.current.kind

/-- The line on which the next token starts. -/
def start (s : Stream) : Nat := s.current.span.start

/-- The span from `start` to the last token taken. -/
def since (s : Stream) (start : Nat) : Span := ⟨start, max s.lastFinish start⟩

/-- A complaint about the next token. -/
def fault (s : Stream) (cause : SyntacticCause) (token : String) : Diagnostic :=
  .ofSyntactic cause token s.current.span

/-- A complaint that names the next token. -/
def unexpected (s : Stream) (cause : SyntacticCause) : Diagnostic :=
  s.fault cause s.current.spelling

/-! ## Taking tokens -/

/-- Take the next token if it is of the kind, or fail. -/
def take (s : Stream) (kind : TokenKind) (otherwise : Diagnostic) : Parse Token s.size :=
  match h : s.pending with
  | [] => .error otherwise
  | token :: others =>
    if token.kind = kind then
      .ok ⟨token, { s with pending := others, lastFinish := token.span.finish }, by
        simp only [size, h, List.length_cons]; omega⟩
    else .error otherwise

/-- Take a token that has to stand here. -/
def expect (s : Stream) (kind : TokenKind) : Parse Token s.size :=
  s.take kind (s.fault .tokenExpected kind.written)

/-- The stream after a type denoter was given the serial number `s.serials`. -/
def numbered (s : Stream) : Stream := { s with serials := s.serials + 1 }

theorem size_numbered (s : Stream) : s.numbered.size = s.size := rfl

end Stream

end TriangleTam
