import TriangleTam.Proofs.Literals.Folding
import TriangleTam.Proofs.Printing.RoundTrip
import TriangleTam.Proofs.Typing.Exact

/-! # The values of integer literals

  A literal is kept as it is spelled, and read whenever its value is needed. It
  is accepted if its digits stand for a word, leading zeros or not, and what
  folding spells is read as the value that was folded. So the value of a literal
  in a tree is the number that is spelled, and never the zero that stands in for
  what is no word.

  One numeral is not looked at: the length of the type of an array aggregate is
  spelled from the number of its elements, however many there are.
-/

namespace TriangleTam

/-! ## Literals of a tree and of its decorations -/

/-- The literal is the numeral of the elements of an aggregate in the command, and they are more
    than any word. -/
def Command.Oversized (command : Command) (literal : IntegerLiteral) : Prop :=
  ∃ n ∈ command.counts, Word.greatest < (n : Int) ∧ literal.spelling = Numeral.ofNat n

/-- The literal is exact, or there are too many elements to spell their number. -/
def Command.ExactOrOversized (command : Command) (literal : IntegerLiteral) : Prop :=
  literal.Exact ∨ command.Oversized literal

/-- What becomes of the literals of `source` in a tree that is made from it: the aggregates have as
    many elements and types that say so, and a literal is exact unless it spells too many. -/
structure Command.Carries (source tree : Command) : Prop where
  counts   : tree.counts = source.counts
  spells   : ∀ e ∈ tree.expressions, e.SpellsCount
  literals : tree.Literals source.ExactOrOversized

namespace Command.Carries

variable {source tree : Command}

/-- An aggregate of the source has a type in the tree, and its length is the numeral of the
    elements. -/
theorem exists_type (h : source.Carries tree) {n : Nat} (hmem : n ∈ source.counts) :
    ∃ e ∈ tree.expressions, ∃ serial span element,
      e.type = some (.array serial span ⟨Numeral.ofNat n, span⟩ element) := by
  rw [← h.counts] at hmem
  obtain ⟨e, he, hcount⟩ := List.mem_filterMap.1 hmem
  cases e with
  | array span type elements =>
    obtain rfl := Option.some.inj hcount
    exact ⟨_, he, h.spells _ he⟩
  | _ => cases hcount

/-- All literals are exact unless an aggregate has more elements than any word. -/
theorem exact_iff (h : source.Carries tree) :
    tree.Literals IntegerLiteral.Exact ↔ ∀ n ∈ source.counts, (n : Int) ≤ Word.greatest := by
  constructor
  · intro hexact n hmem
    -- the length of the aggregate's type is among the exact literals
    obtain ⟨e, he, serial, span, element, htype⟩ := h.exists_type hmem
    have hlengths := hexact.lengths.types e he _ htype
    exact IntegerLiteral.exact_ofNat_iff.1 hlengths.1
  · intro hcounts
    refine h.literals.mono fun literal hliteral => hliteral.resolve_right ?_
    rintro ⟨n, hmem, hlt, -⟩
    exact Int.not_le.2 hlt (hcounts n hmem)

end Command.Carries

/-- An aggregate of one more zero than `n`. -/
private def zeros : Nat → ArrayAggregate
  | 0 => .one .nowhere (.integer .nowhere none ⟨"0", .nowhere⟩)
  | n + 1 => .more .nowhere (.integer .nowhere none ⟨"0", .nowhere⟩) (zeros n)

/-- The command that declares the aggregate as a constant and does nothing. -/
private def listing (n : Nat) : Command :=
  .letIn .nowhere (.const .nowhere false ⟨"a", .nowhere, none⟩ (.array .nowhere none (zeros n)))
    (.empty .nowhere)

end TriangleTam
