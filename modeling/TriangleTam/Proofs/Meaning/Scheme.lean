import TriangleTam.Proofs.Coding.Routines
import TriangleTam.Proofs.Meaning.Commands

/-! # The code scheme keeps meaning

  In a tree that declares no routines all code that the scheme gives to a
  phrase means the phrase. The induction follows the scheme. The decoration of
  the tree says what the scheme does not: which parameters a standard routine
  has, what the operands of an operator are, and of which type the elements of
  an array are.
-/

namespace TriangleTam

/-! ## Trees without routines -/

/-- Declarations without routines leave an environment without routines. -/
theorem Declaration.Typed.routineFree {Γ Γ' : Env} {s s' : Supply}
    {declaration declaration' : Declaration} :
    Declaration.Typed Γ s declaration declaration' Γ' s' → Γ.RoutineFree →
    declaration'.routines = [] → Γ'.RoutineFree
  | .const .., hΓ, _ | .var .., hΓ, _ | .type .., hΓ, _ => hΓ.enter trivial
  | .proc .., _, hnone | .func .., _, hnone => by cases hnone
  | .sequence hfirst hsecond, hΓ, hnone => by
    obtain ⟨hnone₁, hnone₂⟩ := List.append_eq_nil_iff.1 hnone
    exact hsecond.routineFree (hfirst.routineFree hΓ hnone₁) hnone₂

theorem Plan.KeepsStandard.eq_entity {π : Plan} (hπ : π.KeepsStandard) {id : BindingId}
    {declaration : StandardDeclaration} (hat : Standard.declaration? id = some declaration)
    {entity : Entity} (hentity : π.entity id = some entity) : entity = declaration.entity :=
  Option.some.inj (hentity.symm.trans (hπ id declaration hat))

/-- The parameter is a value or a variable. -/
def FormalShape.IsPlain : FormalShape → Prop
  | .const _ | .var _ => True
  | .proc _ | .func _ _ => False

/-- There is one parameter at most, and no routine is passed for it. -/
def Signature.IsPlain : Signature → Prop
  | [] => True
  | [shape] => shape.IsPlain
  | _ => False

theorem Standard.isPlain_of_proc {declaration : StandardDeclaration} {id : BindingId}
    (hat : declaration? id = some declaration) {shapes : Signature}
    (hkind : declaration.shape.kind = .proc shapes) : shapes.IsPlain := by
  obtain ⟨p, -, hp⟩ := procedure_of_kind declaration (List.mem_of_getElem? hat) hkind
  cases hp <;> trivial

theorem Standard.isPlain_of_func {declaration : StandardDeclaration} {id : BindingId}
    (hat : declaration? id = some declaration) {shapes : Signature} {result : TypeDenoter}
    (hkind : declaration.shape.kind = .func shapes result) : shapes.IsPlain := by
  obtain ⟨p, -, hp⟩ := function_of_kind declaration (List.mem_of_getElem? hat) hkind
  cases hp <;> trivial

/-! ## Phrases -/

section

variable {I : Interpretation} {callees : Callees} {π : Plan}

mutual

theorem Command.Code.means (hI : I.Calculates) (hπ : π.KeepsStandard) {F : Frame} {a : Nat}
    {Γ : Env} {s s' : Supply} {source command : Command} {lines : List Line} :
    Command.Code π F a command lines → Command.Typed Γ s source command s' →
    Γ.RoutineFree → command.routines = [] → command.Means I callees π F a lines
  | .empty, _, _, _ => .empty
  | .assign hvalue htarget hvariable, htyped, hΓ, hnone => by
    obtain ⟨hnone₁, hnone₂⟩ := List.append_eq_nil_iff.1 hnone
    cases htyped with
    | assign htarget' hvalue' =>
      exact .assign hI (hvalue.means hI hπ hvalue' hΓ hnone₂)
        (htarget.means hI hπ htarget' hΓ hnone₁) hvariable
  | .call hargs hbinding hentity hperforms _, htyped, hΓ, hnone => by
    cases htyped with
    | call hfind hargs' =>
      -- a procedure in scope can only be one of the standard environment
      obtain ⟨declaration, hat, hkind⟩ := hΓ.found hfind
      obtain rfl := Option.some.inj hbinding
      obtain rfl := hπ.eq_entity hat hentity
      have hargs := hargs.means hI hπ hargs' hΓ hnone (Standard.isPlain_of_proc hat hkind)
      exact .call hπ hargs hbinding hat hkind hperforms
  | .sequence hfirst hsecond, htyped, hΓ, hnone => by
    obtain ⟨hnone₁, hnone₂⟩ := List.append_eq_nil_iff.1 hnone
    cases htyped with
    | sequence hfirst' hsecond' =>
      exact .sequence (hfirst.means hI hπ hfirst' hΓ hnone₁)
        (hsecond.means hI hπ hsecond' hΓ hnone₂)
  | .letIn hdeclared hbody, htyped, hΓ, hnone => by
    obtain ⟨hnone₁, hnone₂⟩ := List.append_eq_nil_iff.1 hnone
    cases htyped with
    | letIn hdeclared' hbody' =>
      -- the body is checked where the declarations are in scope
      have hΓ' := hdeclared'.routineFree hΓ.enclose hnone₁
      exact .letIn (hdeclared.means hI hπ hdeclared' hΓ.enclose hnone₁)
        (hbody.means hI hπ hbody' hΓ' hnone₂)
  | .ifElse hcondition hthen helse, htyped, hΓ, hnone => by
    obtain ⟨hnone₁, hnone⟩ := List.append_eq_nil_iff.1 hnone
    obtain ⟨hnone₂, hnone₃⟩ := List.append_eq_nil_iff.1 hnone
    cases htyped with
    | ifElse hcondition' hthen' helse' =>
      exact .ifElse (hcondition.means hI hπ hcondition' hΓ hnone₁)
        (hthen.means hI hπ hthen' hΓ hnone₂) (helse.means hI hπ helse' hΓ hnone₃)
  | .whileDo hbody hcondition, htyped, hΓ, hnone => by
    obtain ⟨hnone₁, hnone₂⟩ := List.append_eq_nil_iff.1 hnone
    cases htyped with
    | whileDo hcondition' hbody' =>
      exact .whileDo (hbody.means hI hπ hbody' hΓ hnone₂)
        (hcondition.means hI hπ hcondition' hΓ hnone₁)
  | .repeatUntil hbody hcondition, htyped, hΓ, hnone => by
    obtain ⟨hnone₁, hnone₂⟩ := List.append_eq_nil_iff.1 hnone
    cases htyped with
    | repeatUntil hbody' hcondition' =>
      exact .repeatUntil (hbody.means hI hπ hbody' hΓ hnone₁)
        (hcondition.means hI hπ hcondition' hΓ hnone₂)
  | .loopWhile hbody hcondition htail, htyped, hΓ, hnone => by
    obtain ⟨hnone₁, hnone⟩ := List.append_eq_nil_iff.1 hnone
    obtain ⟨hnone₂, hnone₃⟩ := List.append_eq_nil_iff.1 hnone
    cases htyped with
    | loopWhile hbody' hcondition' htail' =>
      exact .loopWhile (hbody.means hI hπ hbody' hΓ hnone₁)
        (hcondition.means hI hπ hcondition' hΓ hnone₂) (htail.means hI hπ htail' hΓ hnone₃)

theorem Expression.Code.means (hI : I.Calculates) (hπ : π.KeepsStandard) {F : Frame} {a : Nat}
    {Γ : Env} {s s' : Supply} {source expression : Expression} {type : TypeDenoter}
    {lines : List Line} {n : Int} :
    Expression.Code π F a expression lines n → Expression.Typed Γ s source expression type s' →
    Γ.RoutineFree → expression.routines = [] →
    expression.Means I callees.apply π F a lines n
  | .integer, _, _, _ => .literal rfl
  | .character, _, _, _ => .literal rfl
  | .vname hfound hsuits, htyped, hΓ, hnone => by
    cases htyped with
    | vname hfound' => exact .vname hI (hfound.means hI hπ hfound' hΓ hnone) hsuits
  | .call hargs hbinding hentity hperforms, htyped, hΓ, hnone => by
    cases htyped with
    | call hfind hargs' =>
      obtain ⟨declaration, hat, hkind⟩ := hΓ.found hfind
      obtain rfl := Option.some.inj hbinding
      obtain rfl := hπ.eq_entity hat hentity
      have hargs := hargs.means hI hπ hargs' hΓ hnone (Standard.isPlain_of_func hat hkind)
      exact .call hπ hargs hbinding hat hkind hperforms
  | .ifElse hcondition hthen helse, htyped, hΓ, hnone => by
    obtain ⟨hnone₁, hnone⟩ := List.append_eq_nil_iff.1 hnone
    obtain ⟨hnone₂, hnone₃⟩ := List.append_eq_nil_iff.1 hnone
    cases htyped with
    | ifElse hcondition' hthen' helse' =>
      exact .ifElse (hcondition.means hI hπ hcondition' hΓ hnone₁)
        (hthen.means hI hπ hthen' hΓ hnone₂) (helse.means hI hπ helse' hΓ hnone₃)
  | .letIn hdeclared hbody, htyped, hΓ, hnone => by
    obtain ⟨hnone₁, hnone₂⟩ := List.append_eq_nil_iff.1 hnone
    cases htyped with
    | letIn hdeclared' hbody' =>
      have hΓ' := hdeclared'.routineFree hΓ.enclose hnone₁
      exact .letIn (hdeclared.means hI hπ hdeclared' hΓ.enclose hnone₁)
        (hbody.means hI hπ hbody' hΓ' hnone₂)
  | .unary hoperand hbinding hentity hperforms, htyped, hΓ, hnone => by
    cases htyped with
    | unary hoperand' hfind =>
      obtain ⟨declaration, hat, hkind⟩ := hΓ.found hfind
      obtain rfl := Option.some.inj hbinding
      obtain rfl := hπ.eq_entity hat hentity
      exact .unary hI (hoperand.means hI hπ hoperand' hΓ hnone) hbinding hat hkind hperforms
  | .binary hleft hright hbinding hentity hperforms htakes, htyped, hΓ, hnone => by
    obtain ⟨hnone₁, hnone₂⟩ := List.append_eq_nil_iff.1 hnone
    -- the code does not tell an equality from the other operators
    cases htyped with
    | binary hleft' hright' hfind | equality hleft' hright' hfind =>
      obtain ⟨declaration, hat, hkind⟩ := hΓ.found hfind
      obtain rfl := Option.some.inj hbinding
      obtain rfl := hπ.eq_entity hat hentity
      exact .binary (hleft.means hI hπ hleft' hΓ hnone₁) (hright.means hI hπ hright' hΓ hnone₂)
        hbinding hat hkind hperforms htakes
  | .array helements, htyped, hΓ, hnone => by
    cases htyped with
    | array helements' => exact .array (helements.means hI hπ helements' hΓ hnone)
  | .record hfields, htyped, hΓ, hnone => by
    cases htyped with
    | record hfields' => exact .record (hfields.means hI hπ hfields' hΓ hnone)

theorem ArrayAggregate.Code.means (hI : I.Calculates) (hπ : π.KeepsStandard) {F : Frame}
    {a : Nat} {Γ : Env} {s s' : Supply} {source elements : ArrayAggregate} {type : TypeDenoter}
    {lines : List Line} {n : Int} :
    ArrayAggregate.Code π F a elements lines n →
    ArrayAggregate.Typed Γ s source elements type s' →
    Γ.RoutineFree → elements.routines = [] → elements.Means I callees.apply π F a lines n
  | .one helement, htyped, hΓ, hnone => by
    cases htyped with
    | one helement' => exact .one (helement.means hI hπ helement' hΓ hnone)
  | .more helement hrest, htyped, hΓ, hnone => by
    obtain ⟨hnone₁, hnone₂⟩ := List.append_eq_nil_iff.1 hnone
    cases htyped with
    | more helement' hrest' =>
      exact .more (helement.means hI hπ helement' hΓ hnone₁) (hrest.means hI hπ hrest' hΓ hnone₂)

theorem RecordAggregate.Code.means (hI : I.Calculates) (hπ : π.KeepsStandard) {F : Frame}
    {a : Nat} {Γ : Env} {s s' : Supply} {source fields : RecordAggregate} {types : Fields}
    {lines : List Line} {n : Int} :
    RecordAggregate.Code π F a fields lines n →
    RecordAggregate.Typed Γ s source fields types s' →
    Γ.RoutineFree → fields.routines = [] → fields.Means I callees.apply π F a lines n
  | .one hvalue, htyped, hΓ, hnone => by
    cases htyped with
    | one hvalue' => exact .one (hvalue.means hI hπ hvalue' hΓ hnone)
  | .more hvalue hrest, htyped, hΓ, hnone => by
    obtain ⟨hnone₁, hnone₂⟩ := List.append_eq_nil_iff.1 hnone
    cases htyped with
    | more hvalue' hrest' =>
      exact .more (hvalue.means hI hπ hvalue' hΓ hnone₁) (hrest.means hI hπ hrest' hΓ hnone₂)

theorem Vname.Code.means (hI : I.Calculates) (hπ : π.KeepsStandard) {F : Frame} {a : Nat} {Γ : Env}
    {s s' : Supply} {source vname : Vname} {type : TypeDenoter} {lines : List Line}
    {entity : Entity} {access : Access} :
    Vname.Code π F a vname lines entity access → Vname.Typed Γ s source vname type s' →
    Γ.RoutineFree → vname.routines = [] →
    vname.Means I callees.apply π F a lines entity access
  | .simple hbinding hentity, _, _, _ => .simple hbinding hentity
  | .dot hrecord _ htype hposition, htyped, hΓ, hnone => by
    cases htyped with
    | dot hrecord' => exact .dot (hrecord.means hI hπ hrecord' hΓ hnone) htype hposition
  | .known harray _ hvalue, htyped, hΓ, hnone => by
    obtain ⟨hnone₁, -⟩ := List.append_eq_nil_iff.1 hnone
    cases htyped with
    | subscript harray' _ =>
      exact .known (harray.means hI hπ harray' hΓ hnone₁) harray'.type_eq hvalue
  | .unknown harray _ _ hindex, htyped, hΓ, hnone => by
    obtain ⟨hnone₁, hnone₂⟩ := List.append_eq_nil_iff.1 hnone
    cases htyped with
    | subscript harray' hindex' =>
      exact .unknown hI (harray.means hI hπ harray' hΓ hnone₁) harray'.type_eq
        (hindex.means hI hπ hindex' hΓ hnone₂)

theorem Declaration.Code.means (hI : I.Calculates) (hπ : π.KeepsStandard) {F : Frame} {a : Nat}
    {Γ Γ' : Env} {s s' : Supply} {source declaration : Declaration} {lines : List Line} {n : Int} :
    Declaration.Code π F a declaration lines n →
    Declaration.Typed Γ s source declaration Γ' s' →
    Γ.RoutineFree → declaration.routines = [] →
    declaration.Means I callees.apply π F a lines n
  | .literal hliteral hbinding hentity, _, _, _ => .literal hliteral hbinding hentity
  | .const _ hvalue _ hbinding hentity, htyped, hΓ, hnone => by
    cases htyped with
    | const hvalue' => exact .const (hvalue.means hI hπ hvalue' hΓ hnone) hbinding hentity
  | .var hwidth hbinding hentity, _, _, _ => .var hwidth hbinding hentity
  | .type, _, _, _ => .type
  | .proc hbinding _ _, _, _, hnone | .func hbinding _ _, _, _, hnone => by
    -- the routine itself is in the list
    rw [Declaration.routines, Name.routine, hbinding] at hnone
    cases hnone
  | .sequence hfirst hsecond, htyped, hΓ, hnone => by
    obtain ⟨hnone₁, hnone₂⟩ := List.append_eq_nil_iff.1 hnone
    cases htyped with
    | sequence hfirst' hsecond' =>
      have hΓ' := hfirst'.routineFree hΓ hnone₁
      exact .sequence (hfirst.means hI hπ hfirst' hΓ hnone₁)
        (hsecond.means hI hπ hsecond' hΓ' hnone₂)

theorem Actuals.Code.means (hI : I.Calculates) (hπ : π.KeepsStandard) {F : Frame} {a : Nat}
    {Γ : Env} {s s' : Supply} {source actuals : Actuals} {shapes : Signature} {lines : List Line}
    {n : Int} :
    Actuals.Code π F a actuals lines n → Actuals.Typed Γ s source shapes actuals s' →
    Γ.RoutineFree → actuals.routines = [] → shapes.IsPlain →
    actuals.Means I callees.apply π F a shapes lines n
  | .empty, htyped, _, _, _ => by
    cases htyped with
    | empty => exact .empty
  | .one hfirst, htyped, hΓ, hnone, hplain => by
    cases htyped with
    | one hfirst' => exact .one (hfirst.means hI hπ hfirst' hΓ hnone hplain)
  | .more _ _, htyped, _, _, hplain => by
    -- no standard routine has two parameters
    cases htyped with
    | more => exact hplain.elim

theorem Actual.Code.means (hI : I.Calculates) (hπ : π.KeepsStandard) {F : Frame} {a : Nat} {Γ : Env}
    {s s' : Supply} {source actual : Actual} {shape : FormalShape} {lines : List Line} {n : Int} :
    Actual.Code π F a actual lines n → Actual.Typed Γ s source shape actual s' →
    Γ.RoutineFree → actual.routines = [] → shape.IsPlain →
    actual.Means I callees.apply π F a shape lines n
  | .const hvalue, htyped, hΓ, hnone, _ => by
    cases htyped with
    | const hvalue' => exact .const (hvalue.means hI hπ hvalue' hΓ hnone)
  | .var hfound hvariable, htyped, hΓ, hnone, _ => by
    cases htyped with
    | var hfound' => exact .var hI (hfound.means hI hπ hfound' hΓ hnone) hvariable
  | .proc _ _ _, htyped, _, _, hplain | .func _ _ _, htyped, _, _, hplain => by
    cases htyped
    exact hplain.elim

end

end

end TriangleTam
