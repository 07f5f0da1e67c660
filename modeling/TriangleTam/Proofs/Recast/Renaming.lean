import Mathlib.Data.List.Forall2
import TriangleTam.Proofs.Recast.Tree
import TriangleTam.Standard
import TriangleTam.Token.Scan

/-! # Renaming

  A renaming gives every identifier another one. Different identifiers stay
  different, and the names of the standard environment stay as they are. What
  is no identifier, such as a reserved word, an operator or a literal, is not
  renamed.

  Scanning makes an identifier of a word if and only if it is one. So tokens
  that are renamed as tokens are renamed as words.
-/

namespace TriangleTam

/-- The word is made of letters and digits, starts with a letter and is not reserved. -/
def isIdentifier (word : String) : Bool :=
  match word.toList with
  | [] => false
  | c :: cs => c.isAlpha && cs.all Char.isAlphanum && TokenKind.forWord word == .identifier

/-- Another identifier for every identifier. -/
structure Renaming where
  map : String → String
  identifier {word : String} : isIdentifier word = true → isIdentifier (map word) = true
  /-- Different identifiers stay different. -/
  injective {a b : String} : isIdentifier a = true → isIdentifier b = true → map a = map b → a = b
  /-- Standard names stay as they are. -/
  standard : ∀ declaration ∈ Standard.declarations, isIdentifier declaration.name = true →
    map declaration.name = declaration.name

/-! ## Words -/

/-- A literal, a mark or a reserved word is no identifier, and neither is what stands for one in
    a message. -/
theorem isIdentifier_written (kind : TokenKind) : isIdentifier kind.written = false := by
  cases kind <;> decide

namespace Renaming

variable (ρ : Renaming)

/-- The word renamed, if it is an identifier. -/
def apply (word : String) : String := if isIdentifier word then ρ.map word else word

theorem apply_of_not {word : String} (h : isIdentifier word = false) : ρ.apply word = word := by
  simp [apply, h]

theorem isIdentifier_apply (word : String) : isIdentifier (ρ.apply word) = isIdentifier word := by
  unfold apply
  split
  · rename_i h
    rw [h, ρ.identifier h]
  · rfl

theorem apply_injective : Function.Injective ρ.apply := by
  intro a b heq
  -- what is no identifier is told by its being none
  have hsame : isIdentifier a = isIdentifier b := by
    rw [← ρ.isIdentifier_apply a, heq, ρ.isIdentifier_apply b]
  cases ha : isIdentifier a with
  | true =>
    have hb : isIdentifier b = true := hsame.symm.trans ha
    simp only [apply, ha, hb, if_true] at heq
    exact ρ.injective ha hb heq
  | false =>
    rwa [ρ.apply_of_not ha, ρ.apply_of_not (hsame.symm.trans ha)] at heq

theorem apply_empty : ρ.apply "" = "" := rfl

theorem apply_written (kind : TokenKind) : ρ.apply kind.written = kind.written :=
  ρ.apply_of_not (isIdentifier_written kind)

theorem apply_standard {declaration : StandardDeclaration}
    (h : declaration ∈ Standard.declarations) : ρ.apply declaration.name = declaration.name := by
  unfold apply
  split
  · exact ρ.standard declaration h ‹_›
  · rfl

/-- Renaming as a way to recast trees, which forgets where they stood. -/
def recast : Recast where
  spelling := ρ.apply
  span _ := Span.nowhere
  injective := ρ.apply_injective
  empty := ρ.apply_empty

@[simp] theorem spelling_recast (word : String) : ρ.recast.spelling word = ρ.apply word := rfl

@[simp] theorem span_recast (span : Span) : ρ.recast.span span = Span.nowhere := rfl

@[simp] theorem serial_recast (serial : Nat) : ρ.recast.serial serial = serial := rfl

end Renaming

/-- Where things stood is forgotten. Everything else stays as it is. -/
def Recast.unplaced : Recast where
  span _ := Span.nowhere
  injective := Function.injective_id
  empty := id_eq _

namespace Recast

@[simp] theorem spelling_unplaced (word : String) : unplaced.spelling word = word := rfl

@[simp] theorem span_unplaced (span : Span) : unplaced.span span = Span.nowhere := rfl

@[simp] theorem serial_unplaced (serial : Nat) : unplaced.serial serial = serial := rfl

end Recast

/-- What the one stands for is the other renamed, wherever the two stand. -/
@[simp] abbrev Renaming.Relates {α : Type} (ρ : Renaming) (recast : Recast → α → α) (a a' : α) : Prop :=
  recast .unplaced a' = recast ρ.recast a

/-! ## Tokens -/

namespace TokenKind

theorem forMark_ne_identifier (c : Char) : forMark c ≠ identifier := by
  unfold forMark
  split <;> simp

end TokenKind

/-- A lexeme is an identifier if and only if its spelling is one. -/
theorem Scan.lexeme_identifier (c : Char) (cs : List Char) :
    (lexeme c cs).kind = .identifier ↔
      isIdentifier (String.ofList (lexeme c cs).spelling) = true := by
  by_cases halpha : c.isAlpha = true
  · have hall : (cs.takeWhile Char.isAlphanum).all Char.isAlphanum = true :=
      List.all_takeWhile
    simp [lexeme, run, isIdentifier, halpha, hall]
  · -- no other class of lexemes starts with a letter
    have hspelling : ∃ others, (lexeme c cs).spelling = c :: others := by
      unfold lexeme run
      rw [if_neg halpha]
      split
      · exact ⟨_, rfl⟩
      · split <;> split <;> exact ⟨_, rfl⟩
    have hkind : (lexeme c cs).kind ≠ .identifier := by
      unfold lexeme run
      rw [if_neg halpha]
      split
      · simp
      · split <;> split <;> simp [TokenKind.forMark_ne_identifier]
    obtain ⟨others, hspelling⟩ := hspelling
    simp [hkind, hspelling, isIdentifier, halpha]

theorem Scan.Cursor.next_identifier (cursor : Cursor) :
    cursor.next.1.kind = .identifier ↔ isIdentifier cursor.next.1.spelling = true := by
  unfold next
  split
  rename_i stretch rest hseparators
  cases rest with
  | nil => simp [isIdentifier]
  | cons c cs => exact lexeme_identifier c cs

theorem Scan.Cursor.tokens_identifier (cursor : Cursor) : ∀ token ∈ cursor.tokens,
    (token.kind = .identifier ↔ isIdentifier token.spelling = true) := by
  induction cursor using Cursor.tokens.induct with
  | case1 cursor hend =>
    intro token hmem
    rw [Cursor.tokens, dif_pos hend] at hmem
    obtain rfl := List.mem_singleton.1 hmem
    exact cursor.next_identifier
  | case2 cursor hend hshorter ih =>
    intro token hmem
    rw [Cursor.tokens, dif_neg hend] at hmem
    rcases List.mem_cons.1 hmem with rfl | hmem
    · exact cursor.next_identifier
    · exact ih token hmem

/-- The second token is the first renamed, wherever the two stand. -/
structure Token.Renamed (ρ : Renaming) (token token' : Token) : Prop where
  kind     : token'.kind = token.kind
  spelling : token'.spelling =
    if token.kind = .identifier then ρ.map token.spelling else token.spelling

instance (ρ : Renaming) : DecidableRel (Token.Renamed ρ) := fun token token' =>
  decidable_of_iff (token'.kind = token.kind ∧ token'.spelling =
      if token.kind = .identifier then ρ.map token.spelling else token.spelling)
    ⟨fun h => ⟨h.1, h.2⟩, fun h => ⟨h.kind, h.spelling⟩⟩

/-- The same, said of the spelling as a word. -/
structure Token.Twin (ρ : Renaming) (token token' : Token) : Prop where
  kind     : token'.kind = token.kind
  spelling : token'.spelling = ρ.apply token.spelling
  same     : token.kind ≠ .identifier → token'.spelling = token.spelling

/-- Renamed tokens of a text are its tokens with their words renamed. -/
theorem Token.Renamed.twin {ρ : Renaming} {text : String} {token token' : Token}
    (hmem : token ∈ tokenize text) (h : token.Renamed ρ token') : token.Twin ρ token' := by
  have hiff := Scan.Cursor.tokens_identifier _ token hmem
  refine ⟨h.kind, ?_, fun hkind => ?_⟩
  · rw [h.spelling, Renaming.apply]
    simp only [hiff]
  · rw [h.spelling, if_neg hkind]

/-! ## Diagnostics -/

/-- The second diagnostic is the first about the renamed token, wherever the two point. -/
structure Diagnostic.Renamed (ρ : Renaming) (d d' : Diagnostic) : Prop where
  kind     : d'.kind = d.kind
  template : d'.template = d.template
  token    : d'.token = ρ.apply d.token

end TriangleTam
