import TriangleTam.Proofs.Printing.Producible
import TriangleTam.Proofs.Scanning.Layout
import TriangleTam.Proofs.Text.Decimal

/-! # Accepted integer literals

  The grammar looks at the classes of tokens only, but for integer literals:
  their numbers have to be words. So a text that is spelled with other literals
  than an accepted one is accepted too, as long as they all stand for words, and
  any digit string can take the place of a literal.
-/

namespace TriangleTam

/-! ## Literals among tokens -/

/-- An integer literal is a string of digits. -/
theorem Scan.IsLexeme.isDigits {s : List Char} (h : IsLexeme .intLiteral s) :
    Numeral.IsDigits s := by
  cases h with
  | reserved listed => exact absurd listed (by decide)
  | intLiteral digits => exact ⟨List.cons_ne_nil _ _, digits⟩
  | mark listed => exact absurd listed (by decide)

/-- The number of the token is a word, if the token is an integer literal. -/
def Token.FitsWord (token : Token) : Prop :=
  token.kind = .intLiteral → (Numeral.decimal token.spelling.toList : Int) ≤ Word.greatest

theorem Token.FitsWord.congr {token token' : Token} (h : token.FitsWord)
    (hcontent : token.content = token'.content) : token'.FitsWord := by
  obtain ⟨hkind, hspelling⟩ := Prod.mk.inj hcontent
  rwa [FitsWord, hkind, hspelling] at h

namespace Parsing

namespace Derivation

/-- Derived tokens stand for their classes. -/
theorem stands {pieces : List Piece} (d : Derivation pieces) :
    ∀ token ∈ d.tokens, token.Stands token.kind := by
  induction d with
  | done => nofun
  | token t stands rest ih =>
    obtain rfl := stands.1
    exact List.forall_mem_cons.2 ⟨stands, ih⟩
  | phrase rule inner rest ihinner ihrest => exact List.forall_mem_append.2 ⟨ihinner, ihrest⟩

/-- Nothing derived is a fault of scanning. -/
theorem genuine {pieces : List Piece} (d : Derivation pieces) (hpieces : .token .error ∉ pieces) :
    ∀ token ∈ d.tokens, token.kind ≠ .error := by
  induction d with
  | done => nofun
  | token t stands rest ih =>
    rw [List.mem_cons, not_or] at hpieces
    refine List.forall_mem_cons.2 ⟨fun hkind => hpieces.1 ?_, ih hpieces.2⟩
    rw [← hkind, stands.1]
  | phrase rule inner rest ihinner ihrest =>
    rw [List.mem_cons, not_or] at hpieces
    have hbody : .token .error ∉ rule.body := by cases rule <;> decide
    exact List.forall_mem_append.2 ⟨ihinner hbody, ihrest hpieces.2⟩

end Derivation

end Parsing

/-! ## Accepted texts -/

end TriangleTam
