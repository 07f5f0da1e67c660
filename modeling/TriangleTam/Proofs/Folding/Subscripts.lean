import Mathlib.Data.List.Basic
import TriangleTam.Proofs.Coding.Visits
import TriangleTam.Proofs.Folding.Entities

/-! # Subscripts of a folded program

  Where folding makes a subscript a literal, the encoder adds up offsets that
  the machine would have computed at run time, and these have to be words. They
  are if the literals stay within the bounds of their arrays. A vname **strays**
  if folding makes one of its subscripts a literal and one of its subscripts is
  out of bounds then.
-/

namespace TriangleTam

/-! ## Straying -/

/-- Folding makes the value of the expression known, however much was folded before. -/
def Expression.FoldsTo (expression : Expression) (value : Int) : Prop :=
  ∃ n, ((Fold.expression expression).run n).1.integerValue? = some value

namespace Vname

/-- Folding makes one of the subscripts a literal. -/
def Hardens : Vname → Prop
  | simple .. => False
  | dot _ _ _ record _ => record.Hardens
  | subscript _ _ _ array index =>
    array.Hardens ∨ index.integerValue? = none ∧ ∃ value, index.FoldsTo value

/-- After folding one of the subscripts selects no element: its array has none at any index that
    the subscript may have. -/
def Oversteps : Vname → Prop
  | simple .. => False
  | dot _ _ _ record _ => record.Oversteps
  | subscript _ _ _ array index =>
    array.Oversteps ∨ ∃ serial span length element,
      array.type = some (.array serial span length element) ∧
        ¬ ∃ i, 0 ≤ i ∧ i < length.value ∧ ∀ value, index.FoldsTo value → value = i

/-- Folding makes a subscript a literal, and some subscript is out of bounds then. -/
structure Strays (vname : Vname) : Prop where
  hardens   : vname.Hardens
  oversteps : vname.Oversteps

end Vname

/-! ## Phrases -/

/-- The second phrase is met when the first is encoded. -/
inductive Phrase.Holds : Phrase → Phrase → Prop
  | refl {phrase} : Holds phrase phrase
  | part {phrase part inner} : part ∈ phrase.parts → Holds part.phrase inner → Holds phrase inner

/-- A vname in the phrase strays in the case `P` alone. -/
def Phrase.Steady (P : Prop) (phrase : Phrase) : Prop :=
  ∀ vname, phrase.Holds (.vname vname) → vname.Strays → P

namespace Phrase.Steady

variable {P : Prop} {phrase : Phrase}

theorem all (h : phrase.Steady P) : (phrase.parts.map Part.phrase).Forall (Phrase.Steady P) := by
  rw [List.forall_iff_forall_mem]
  intro inner hmem vname hholds
  obtain ⟨part, hpart, rfl⟩ := List.mem_map.1 hmem
  exact h vname (.part hpart hholds)

/-- There is no vname in a literal. -/
theorem of_literal {expression : Expression} {value : Int}
    (hliteral : expression.literalValue? = some value) :
    (Phrase.expression expression).Steady P := by
  intro vname hholds
  cases expression with
  | integer | character =>
    cases hholds with
    | part hmem => cases hmem
  | _ => cases hliteral

theorem index {span : Span} {type : Option TypeDenoter} {isVariable : Bool} {array : Vname}
    {index : Expression} (h : (Phrase.vname (.subscript span type isVariable array index)).Steady P) :
    (Phrase.expression index).Steady P := by
  cases hvalue : index.integerValue? with
  | some value => exact of_literal (Expression.literalValue?_of_integerValue? hvalue)
  | none =>
    have hall := h.all
    simp only [Phrase.parts, Vname.parts, hvalue] at hall
    exact hall.2

theorem value {span : Span} {duplicated : Bool} {name : Name} {value : Expression}
    (h : (Phrase.declaration (.const span duplicated name value)).Steady P) :
    (Phrase.expression value).Steady P := by
  cases hvalue : value.literalValue? with
  | some known => exact of_literal hvalue
  | none =>
    have hall := h.all
    simp only [Phrase.parts, Declaration.parts, hvalue] at hall
    exact hall

theorem of_vname {vname : Vname} (h : (Phrase.vname vname).Steady P) :
    P ∨ ¬ vname.Hardens ∨ ¬ vname.Oversteps := by
  by_cases hhardens : vname.Hardens
  · by_cases hoversteps : vname.Oversteps
    · exact .inl (h vname .refl ⟨hhardens, hoversteps⟩)
    · exact .inr (.inr hoversteps)
  · exact .inr (.inl hhardens)

end Phrase.Steady

/-! ## Widths -/

theorem Fields.fits_extent (fields : Fields) (offset : Int) :
    Word.Fits (fields.extent offset) := by
  cases fields with
  | one => exact Word.fits_clamp _
  | more _ _ _ rest => exact rest.fits_extent _

/-- The width of an exact type is a word. -/
theorem TypeDenoter.Exact.fits {type : TypeDenoter} (h : type.Exact) : Word.Fits type.width := by
  rw [← h.size_eq]
  cases type with
  | boolean | character | integer | any | error => decide
  | named span name =>
    have hzero : Word.Fits 0 := by decide
    exact hzero
  | array => exact Word.fits_clamp _
  | record _ _ fields => exact fields.fits_extent 0

/-- A field that a record has is at some position. -/
theorem Fields.exists_position {name : String} {type : TypeDenoter} :
    ∀ {fields : Fields}, fields.find? name = some type →
      ∃ position, fields.position? name = some position
  | .one _ field _, hfind => by
    simp only [Fields.find?] at hfind
    simp only [position?]
    split at hfind
    · next heq => exact ⟨0, by rw [if_pos heq]⟩
    · cases hfind
  | .more _ field type' rest, hfind => by
    simp only [Fields.find?] at hfind
    simp only [position?]
    split at hfind
    · next heq => exact ⟨0, by rw [if_pos heq]⟩
    · next hne =>
      obtain ⟨position, hposition⟩ := Fields.exists_position hfind
      exact ⟨type'.width + position, by rw [if_neg hne, hposition]; rfl⟩

end TriangleTam
