import TriangleTam.Text.Numeral

/-! # Line spans

  Tokens, tree nodes and diagnostics are placed by the lines they cover.
  Lines count from 1; the span `0..0` belongs to things that no source text
  wrote, such as the standard types.
-/

namespace TriangleTam

/-- The lines a token or a tree node covers, both ends included. -/
structure Span where
  start  : Nat
  finish : Nat
  deriving DecidableEq, Repr, Inhabited

namespace Span

/-- The place of things that no source text wrote. -/
def nowhere : Span := ⟨0, 0⟩

/-- A span is written with two points between its ends. -/
def text (span : Span) : String :=
  Numeral.ofNat span.start ++ ".." ++ Numeral.ofNat span.finish

end Span

end TriangleTam
