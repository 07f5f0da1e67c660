import TriangleTam.Proofs.Coding.Commands
import TriangleTam.Proofs.Coding.Declarations

/-! # Encoding of decorated trees

  Every phrase of a decorated tree encodes, in the environment that its
  decoration was derived in. The bindings that a derivation creates are those
  that encoding represents, so one supply after the other says which bindings
  are still to come.
-/

namespace TriangleTam

variable {made : List TypeDenoter} {π : Plan}

/-- Literals are scalars. -/
theorem Expression.Typed.isScalar_of_literalValue? {Γ : Env} {p p' : Supply}
    {expression expression' : Expression} {type : TypeDenoter}
    (h : Expression.Typed Γ p expression expression' type p') {value : Int}
    (hliteral : expression'.literalValue? = some value) : type.IsScalar := by
  cases h with
  | integer | character => trivial
  | _ => cases hliteral

theorem Expression.Typed.known_of_all {Γ : Env} {p p' : Supply}
    {expression expression' : Expression} {type : TypeDenoter}
    (h : Expression.Typed Γ p expression expression' type p')
    (hall : expression'.All (TypeDenoter.Known made) (Finds (TypeDenoter.Known made))) :
    type.Known made := by
  obtain ⟨_, htype, hknown⟩ := hall.type
  rw [h.type_eq] at htype
  exact Option.some.inj htype ▸ hknown

theorem Vname.Typed.known_of_all {Γ : Env} {p p' : Supply} {vname vname' : Vname}
    {type : TypeDenoter} (h : Vname.Typed Γ p vname vname' type p')
    (hall : vname'.All (TypeDenoter.Known made) (Finds (TypeDenoter.Known made))) :
    type.Known made := by
  obtain ⟨_, htype, hknown⟩ := hall.type
  rw [h.type_eq] at htype
  exact Option.some.inj htype ▸ hknown

/-- Whether an index is known is seen from the index. A known index binds no names. -/
theorem Vname.Encodes.subscript {Γ : Env} {p p' : Supply} {lo : Nat} {span : Span}
    {element : TypeDenoter} {array : Vname} {index index' : Expression} {serial : Nat}
    {arraySpan : Span} {length : IntegerLiteral}
    (harray : array.Encodes made π Γ lo p.bindings (.array serial arraySpan length element))
    (hindex : Expression.Typed Γ p index index' .integer p')
    (hindex' : index'.Encodes made π Γ p.bindings p'.bindings .integer) (hlo : lo ≤ p.bindings)
    (hknown : element.Known made) :
    (Vname.subscript span (some element) array.isVariable array index').Encodes made π Γ lo
      p'.bindings element := by
  cases hvalue : index'.integerValue? with
  | some value =>
    have hsame := hindex.eq_of_literalValue? (Expression.literalValue?_of_integerValue? hvalue)
    rw [hsame]
    exact .known harray hvalue hknown
  | none => exact .unknown harray hindex' hlo hindex.before.bindings hvalue hknown

/-- Whether a constant is a literal is seen from its value. -/
theorem Declaration.Encodes.constant {Γ : Env} {p p' : Supply} {span : Span} {name : Name}
    {value value' : Expression} {type : TypeDenoter}
    (hvalue : Expression.Typed Γ p value value' type p')
    (hvalue' : value'.Encodes made π Γ p.bindings p'.bindings type) (hknown : type.Known made) :
    (Declaration.const span false (name.link p'.bindings) value').Encodes made π Γ p.bindings
      p'.bind.bindings (Γ.enter name.spelling p'.bindings (.const type)) := by
  have hmem : p'.bindings ∈ Set.Ico p'.bindings p'.bind.bindings :=
    ⟨Nat.le_refl _, Nat.lt_succ_self _⟩
  cases hliteral : value'.literalValue? with
  | some literal =>
    have hscalar := hvalue.isScalar_of_literalValue? hliteral
    rw [← hvalue.eq_of_literalValue? hliteral]
    exact .literal rfl hmem hvalue.type_eq hknown hscalar hliteral
  | none => exact .const hvalue' rfl hmem hvalue.before.bindings hknown hliteral

mutual

theorem Command.Typed.encodes {Γ : Env} {p p' : Supply} {command command' : Command} :
    Command.Typed Γ p command command' p' →
    command'.All (TypeDenoter.Known made) (Finds (TypeDenoter.Known made)) →
    command'.routines ⊆ π.routines →
    command'.Encodes made π Γ p.bindings p'.bindings
  | .empty, _, _ => .empty
  | .assign htarget hvalue hvariable _, ⟨hknown₁, hknown₂⟩, hplan => by
    obtain ⟨hplan₁, hplan₂⟩ := List.append_subset.1 hplan
    exact .assign (htarget.encodes hknown₁ hplan₁) (hvalue.encodes hknown₂ hplan₂)
      htarget.before.bindings hvalue.before.bindings hvariable
  | .call hfind hargs, hknown, hplan => .call (hargs.encodes hknown hplan) rfl hfind
  | .sequence hfirst hsecond, ⟨hknown₁, hknown₂⟩, hplan => by
    obtain ⟨hplan₁, hplan₂⟩ := List.append_subset.1 hplan
    exact .sequence (hfirst.encodes hknown₁ hplan₁) (hsecond.encodes hknown₂ hplan₂)
      hfirst.before.bindings hsecond.before.bindings
  | .letIn hdeclared hbody, ⟨hknown₁, hknown₂⟩, hplan => by
    obtain ⟨hplan₁, hplan₂⟩ := List.append_subset.1 hplan
    exact .letIn (hdeclared.encodes hknown₁ hplan₁) (hbody.encodes hknown₂ hplan₂)
      hdeclared.before.bindings hbody.before.bindings
  | .ifElse hcondition hthen helse, ⟨hknown₁, hknown₂, hknown₃⟩, hplan => by
    obtain ⟨hplan₁, hplan⟩ := List.append_subset.1 hplan
    obtain ⟨hplan₂, hplan₃⟩ := List.append_subset.1 hplan
    exact .ifElse (hcondition.encodes hknown₁ hplan₁) (hthen.encodes hknown₂ hplan₂)
      (helse.encodes hknown₃ hplan₃) hcondition.before.bindings hthen.before.bindings
      helse.before.bindings
  | .whileDo hcondition hbody, ⟨hknown₁, hknown₂⟩, hplan => by
    obtain ⟨hplan₁, hplan₂⟩ := List.append_subset.1 hplan
    exact .whileDo (hcondition.encodes hknown₁ hplan₁) (hbody.encodes hknown₂ hplan₂)
      hcondition.before.bindings hbody.before.bindings
  | .repeatUntil hbody hcondition, ⟨hknown₁, hknown₂⟩, hplan => by
    obtain ⟨hplan₁, hplan₂⟩ := List.append_subset.1 hplan
    exact .repeatUntil (hbody.encodes hknown₁ hplan₁) (hcondition.encodes hknown₂ hplan₂)
      hbody.before.bindings hcondition.before.bindings
  | .loopWhile hbody hcondition htail, ⟨hknown₁, hknown₂, hknown₃⟩, hplan => by
    obtain ⟨hplan₁, hplan⟩ := List.append_subset.1 hplan
    obtain ⟨hplan₂, hplan₃⟩ := List.append_subset.1 hplan
    exact .loopWhile (hbody.encodes hknown₁ hplan₁) (hcondition.encodes hknown₂ hplan₂)
      (htail.encodes hknown₃ hplan₃) hbody.before.bindings hcondition.before.bindings
      htail.before.bindings

theorem Expression.Typed.encodes {Γ : Env} {p p' : Supply} {expression expression' : Expression}
    {type : TypeDenoter} : Expression.Typed Γ p expression expression' type p' →
    expression'.All (TypeDenoter.Known made) (Finds (TypeDenoter.Known made)) →
    expression'.routines ⊆ π.routines →
    expression'.Encodes made π Γ p.bindings p'.bindings type
  | .integer, _, _ => .integer
  | .character, _, _ => .character
  | .vname hfound, ⟨⟨_, rfl, htype⟩, hknown⟩, hplan => .vname (hfound.encodes hknown hplan) htype
  | .call hfind hargs, ⟨⟨_, rfl, htype⟩, hknown⟩, hplan =>
    .call (hargs.encodes hknown hplan) rfl hfind htype
  | .ifElse hcondition hthen helse hequivalent, ⟨⟨_, rfl, htype⟩, hknown₁, hknown₂, hknown₃⟩,
      hplan => by
    obtain ⟨hplan₁, hplan⟩ := List.append_subset.1 hplan
    obtain ⟨hplan₂, hplan₃⟩ := List.append_subset.1 hplan
    exact .ifElse (hcondition.encodes hknown₁ hplan₁) (hthen.encodes hknown₂ hplan₂)
      (helse.encodes hknown₃ hplan₃) hcondition.before.bindings hthen.before.bindings
      helse.before.bindings hequivalent htype
  | .letIn hdeclared hbody, ⟨⟨_, rfl, htype⟩, hknown₁, hknown₂⟩, hplan => by
    obtain ⟨hplan₁, hplan₂⟩ := List.append_subset.1 hplan
    exact .letIn (hdeclared.encodes hknown₁ hplan₁) (hbody.encodes hknown₂ hplan₂)
      hdeclared.before.bindings hbody.before.bindings htype
  | .unary hoperand hfind hequivalent, ⟨⟨_, rfl, htype⟩, hknown⟩, hplan =>
    .unary (hoperand.encodes hknown hplan) rfl hfind hequivalent htype
  | .binary hleft hright hfind hequivalent hequivalent', ⟨⟨_, rfl, htype⟩, hknown₁, hknown₂⟩,
      hplan => by
    obtain ⟨hplan₁, hplan₂⟩ := List.append_subset.1 hplan
    exact .binary (hleft.encodes hknown₁ hplan₁) (hright.encodes hknown₂ hplan₂)
      hleft.before.bindings hright.before.bindings rfl hfind hequivalent hequivalent' htype
  | .equality hleft hright hfind hequivalent, ⟨⟨_, rfl, htype⟩, hknown₁, hknown₂⟩, hplan => by
    obtain ⟨hplan₁, hplan₂⟩ := List.append_subset.1 hplan
    exact .equality (hleft.encodes hknown₁ hplan₁) (hright.encodes hknown₂ hplan₂)
      hleft.before.bindings hright.before.bindings rfl hfind hequivalent htype
  | .array helements, ⟨⟨_, rfl, htype⟩, hknown⟩, hplan => by
    rw [helements.count_eq] at htype ⊢
    exact .array (helements.encodes hknown hplan) htype
  | .record hfields, ⟨⟨_, rfl, htype⟩, hknown⟩, hplan =>
    .record (hfields.encodes hknown hplan) htype

theorem ArrayAggregate.Typed.encodes {Γ : Env} {p p' : Supply}
    {elements elements' : ArrayAggregate} {type : TypeDenoter} :
    ArrayAggregate.Typed Γ p elements elements' type p' →
    elements'.All (TypeDenoter.Known made) (Finds (TypeDenoter.Known made)) →
    elements'.routines ⊆ π.routines →
    elements'.Encodes made π Γ p.bindings p'.bindings type
  | .one helement, hknown, hplan => .one (helement.encodes hknown hplan)
  | .more helement hrest hequivalent, ⟨hknown₁, hknown₂⟩, hplan => by
    obtain ⟨hplan₁, hplan₂⟩ := List.append_subset.1 hplan
    exact .more (helement.encodes hknown₁ hplan₁) (hrest.encodes hknown₂ hplan₂)
      helement.before.bindings hrest.before.bindings hequivalent

theorem RecordAggregate.Typed.encodes {Γ : Env} {p p' : Supply}
    {fields fields' : RecordAggregate} {types : Fields} :
    RecordAggregate.Typed Γ p fields fields' types p' →
    fields'.All (TypeDenoter.Known made) (Finds (TypeDenoter.Known made)) →
    fields'.routines ⊆ π.routines →
    fields'.Encodes made π Γ p.bindings p'.bindings types
  | .one hvalue, hknown, hplan => .one (hvalue.encodes hknown hplan)
  | .more hvalue hrest _, ⟨hknown₁, hknown₂⟩, hplan => by
    obtain ⟨hplan₁, hplan₂⟩ := List.append_subset.1 hplan
    exact .more (hvalue.encodes hknown₁ hplan₁) (hrest.encodes hknown₂ hplan₂)
      hvalue.before.bindings hrest.before.bindings

theorem Vname.Typed.encodes {Γ : Env} {p p' : Supply} {vname vname' : Vname}
    {type : TypeDenoter} : Vname.Typed Γ p vname vname' type p' →
    vname'.All (TypeDenoter.Known made) (Finds (TypeDenoter.Known made)) →
    vname'.routines ⊆ π.routines →
    vname'.Encodes made π Γ p.bindings p'.bindings type
  | .const hfind, _, _ => .const rfl hfind
  | .var hfind, _, _ => .var rfl hfind
  | .dot hrecord hfind, ⟨_, hknown⟩, hplan =>
    .dot (hrecord.encodes hknown hplan) hrecord.type_eq hfind (hrecord.known_of_all hknown)
  | .subscript harray hindex, ⟨⟨_, rfl, htype⟩, hknown₁, hknown₂⟩, hplan => by
    obtain ⟨hplan₁, hplan₂⟩ := List.append_subset.1 hplan
    exact .subscript (harray.encodes hknown₁ hplan₁) hindex (hindex.encodes hknown₂ hplan₂)
      harray.before.bindings htype

theorem Declaration.Typed.encodes {Γ Γ' : Env} {p p' : Supply}
    {declaration declaration' : Declaration} :
    Declaration.Typed Γ p declaration declaration' Γ' p' →
    declaration'.All (TypeDenoter.Known made) (Finds (TypeDenoter.Known made)) →
    declaration'.routines ⊆ π.routines →
    declaration'.Encodes made π Γ p.bindings p'.bindings Γ'
  | .const hvalue _, hknown, hplan =>
    .constant hvalue (hvalue.encodes hknown hplan) (hvalue.known_of_all hknown)
  | .var htype _, hknown, _ =>
    .var rfl ⟨htype.before.bindings, Nat.lt_succ_self _⟩ hknown
  | .proc _ hparameters hbody, ⟨hknown₁, hknown₂⟩, hplan => by
    obtain ⟨hplan₁, hplan⟩ := List.append_subset.1 hplan
    obtain ⟨hplan₂, hplan₃⟩ := List.append_subset.1 hplan
    exact .proc rfl (Nat.le_refl _) (Nat.lt_succ_self _) hparameters.before.bindings
      hbody.before.bindings (hplan₁ (List.mem_singleton_self _)) hparameters.words_eq
      (hparameters.places hknown₁ hplan₂) (hbody.encodes hknown₂ hplan₃)
  | .func hresult _ hparameters hbody hequivalent, ⟨hknown₁, _, hknown₂⟩, hplan => by
    obtain ⟨hplan₁, hplan⟩ := List.append_subset.1 hplan
    obtain ⟨hplan₂, hplan₃⟩ := List.append_subset.1 hplan
    exact .func rfl hresult.before.bindings (Nat.lt_succ_self _) hparameters.before.bindings
      hbody.before.bindings (hplan₁ (List.mem_singleton_self _)) hparameters.words_eq
      (hparameters.places hknown₁ hplan₂) (hbody.encodes hknown₂ hplan₃) hequivalent
  | .type _ _, hknown, _ => .type hknown
  | .sequence hfirst hsecond, ⟨hknown₁, hknown₂⟩, hplan => by
    obtain ⟨hplan₁, hplan₂⟩ := List.append_subset.1 hplan
    exact .sequence (hfirst.encodes hknown₁ hplan₁) (hsecond.encodes hknown₂ hplan₂)
      hfirst.before.bindings hsecond.before.bindings

theorem Actuals.Typed.encodes {Γ : Env} {p p' : Supply} {actuals actuals' : Actuals}
    {shapes : Signature} : Actuals.Typed Γ p actuals shapes actuals' p' →
    actuals'.All (TypeDenoter.Known made) (Finds (TypeDenoter.Known made)) →
    actuals'.routines ⊆ π.routines →
    actuals'.Encodes made π Γ p.bindings p'.bindings shapes
  | .empty, _, _ => .empty
  | .one hfirst, hknown, hplan => .one (hfirst.encodes hknown hplan)
  | .more hfirst hrest, ⟨hknown₁, hknown₂⟩, hplan => by
    obtain ⟨hplan₁, hplan₂⟩ := List.append_subset.1 hplan
    exact .more (hfirst.encodes hknown₁ hplan₁) (hrest.encodes hknown₂ hplan₂)
      hfirst.before.bindings hrest.before.bindings

theorem Actual.Typed.encodes {Γ : Env} {p p' : Supply} {actual actual' : Actual}
    {shape : FormalShape} : Actual.Typed Γ p actual shape actual' p' →
    actual'.All (TypeDenoter.Known made) (Finds (TypeDenoter.Known made)) →
    actual'.routines ⊆ π.routines →
    actual'.Encodes made π Γ p.bindings p'.bindings shape
  | .const hvalue hequivalent, hknown, hplan =>
    .const (hvalue.encodes hknown hplan) hequivalent
  | .var hfound hvariable _, hknown, hplan => .var (hfound.encodes hknown hplan) hvariable
  | .proc hfind _, _, _ => .proc rfl hfind
  | .func hfind _ _, _, _ => .func rfl hfind

end

end TriangleTam
