import TriangleTam.Proofs.Literals.Acceptance
import TriangleTam.Proofs.NormalForm

/-! # Integer literals in trees

  A tree has integer literals in two places: as expressions, and as lengths of
  array types. The types are those written in the tree and, after checking, the
  ones found of its expressions and vnames. In a parsed tree all literals are
  digits that stand for a word.
-/

namespace TriangleTam

/-! ## Lengths of types -/

section Lengths

variable (P : IntegerLiteral → Prop)

mutual

/-- The lengths of the arrays in the denoter satisfy `P`. -/
def TypeDenoter.Lengths : TypeDenoter → Prop
  | .array _ _ length element => P length ∧ element.Lengths
  | .record _ _ fields => fields.Lengths
  | _ => True

def Fields.Lengths : Fields → Prop
  | .one _ _ type => type.Lengths
  | .more _ _ type rest => type.Lengths ∧ rest.Lengths

end

end Lengths

section mono

variable {P Q : IntegerLiteral → Prop}

mutual

theorem TypeDenoter.Lengths.mono (h : ∀ literal, P literal → Q literal) :
    ∀ {type : TypeDenoter}, type.Lengths P → type.Lengths Q
  | .array _ _ length _, ⟨hlength, helement⟩ => ⟨h length hlength, helement.mono h⟩
  | .record _ _ fields, hfields =>
    have hfields' : fields.Lengths P := hfields
    hfields'.mono h
  | .boolean, _ | .character, _ | .integer, _ | .any, _ | .error, _ | .named .., _ => trivial

theorem Fields.Lengths.mono (h : ∀ literal, P literal → Q literal) :
    ∀ {fields : Fields}, fields.Lengths P → fields.Lengths Q
  | .one _ _ type, htype =>
    have htype' : type.Lengths P := htype
    htype'.mono h
  | .more .., ⟨htype, hrest⟩ => ⟨htype.mono h, hrest.mono h⟩

end

end mono

/-! ## Literals and counts of a tree -/

namespace Expression

/-- The literal that the expression is, if it is an integer literal. -/
def integerLiteral? : Expression → Option IntegerLiteral
  | .integer _ _ literal => some literal
  | _ => none

/-- How many elements the expression lists, if it is an array aggregate. -/
def count? : Expression → Option Nat
  | .array _ _ elements => some elements.count
  | _ => none

end Expression

namespace Command

/-- The integer literals that are expressions of the command. -/
def integers (command : Command) : List IntegerLiteral :=
  command.expressions.filterMap Expression.integerLiteral?

/-- The numbers of elements of the array aggregates in the command. -/
def counts (command : Command) : List Nat :=
  command.expressions.filterMap Expression.count?

/-- All integer literals of the command satisfy `P`, be they expressions or lengths of types. -/
structure Literals (P : IntegerLiteral → Prop) (command : Command) : Prop where
  integers : ∀ literal ∈ command.integers, P literal
  lengths  : command.All (TypeDenoter.Lengths P) fun type => ∀ τ ∈ type, τ.Lengths P

theorem Literals.mono {P Q : IntegerLiteral → Prop} (h : ∀ literal, P literal → Q literal)
    {command : Command} (hcommand : command.Literals P) : command.Literals Q where
  integers literal hmem := h literal (hcommand.integers literal hmem)
  lengths := hcommand.lengths.mono (fun _ => .mono h) fun _ hfound τ hmem => (hfound τ hmem).mono h

end Command

/-! ## The types of expressions -/

section types

variable {written : TypeDenoter → Prop} {found : Option TypeDenoter → Prop}

mutual

/-- What is so of all types found in a tree is so of the types of its expressions. -/
theorem Command.All.types : ∀ {command : Command}, command.All written found →
    ∀ e ∈ command.expressions, found e.type
  | .empty _, _ => nofun
  | .assign .., ⟨htarget, hvalue⟩ => List.forall_mem_append.2 ⟨htarget.types, hvalue.types⟩
  | .call _ _ actuals, h =>
    have hactuals : actuals.All written found := h
    hactuals.types
  | .sequence .., ⟨hfirst, hsecond⟩ => List.forall_mem_append.2 ⟨hfirst.types, hsecond.types⟩
  | .letIn .., ⟨hdeclaration, hbody⟩ =>
    List.forall_mem_append.2 ⟨hdeclaration.types, hbody.types⟩
  | .ifElse .., ⟨hcondition, hthen, helse⟩ => List.forall_mem_append.2
    ⟨List.forall_mem_append.2 ⟨hcondition.types, hthen.types⟩, helse.types⟩
  | .whileDo .., ⟨hcondition, hbody⟩ => List.forall_mem_append.2 ⟨hcondition.types, hbody.types⟩
  | .repeatUntil .., ⟨hbody, hcondition⟩ =>
    List.forall_mem_append.2 ⟨hbody.types, hcondition.types⟩
  | .loopWhile .., ⟨hbody, hcondition, htail⟩ => List.forall_mem_append.2
    ⟨List.forall_mem_append.2 ⟨hbody.types, hcondition.types⟩, htail.types⟩

theorem Expression.All.types : ∀ {expression : Expression}, expression.All written found →
    ∀ e ∈ expression.expressions, found e.type
  | .integer .., h | .character .., h => List.forall_mem_singleton.2 h
  | .vname .., ⟨htype, hvname⟩ => List.forall_mem_cons.2 ⟨htype, hvname.types⟩
  | .call .., ⟨htype, hactuals⟩ => List.forall_mem_cons.2 ⟨htype, hactuals.types⟩
  | .ifElse .., ⟨htype, hcondition, hthen, helse⟩ => List.forall_mem_cons.2
    ⟨htype, List.forall_mem_append.2
      ⟨List.forall_mem_append.2 ⟨hcondition.types, hthen.types⟩, helse.types⟩⟩
  | .letIn .., ⟨htype, hdeclaration, hbody⟩ => List.forall_mem_cons.2
    ⟨htype, List.forall_mem_append.2 ⟨hdeclaration.types, hbody.types⟩⟩
  | .unary .., ⟨htype, hoperand⟩ => List.forall_mem_cons.2 ⟨htype, hoperand.types⟩
  | .binary .., ⟨htype, hleft, hright⟩ => List.forall_mem_cons.2
    ⟨htype, List.forall_mem_append.2 ⟨hleft.types, hright.types⟩⟩
  | .array .., ⟨htype, helements⟩ => List.forall_mem_cons.2 ⟨htype, helements.types⟩
  | .record .., ⟨htype, hfields⟩ => List.forall_mem_cons.2 ⟨htype, hfields.types⟩

theorem ArrayAggregate.All.types : ∀ {elements : ArrayAggregate}, elements.All written found →
    ∀ e ∈ elements.expressions, found e.type
  | .one _ element, h =>
    have helement : element.All written found := h
    helement.types
  | .more .., ⟨helement, hrest⟩ => List.forall_mem_append.2 ⟨helement.types, hrest.types⟩

theorem RecordAggregate.All.types : ∀ {fields : RecordAggregate}, fields.All written found →
    ∀ e ∈ fields.expressions, found e.type
  | .one _ _ value, h =>
    have hvalue : value.All written found := h
    hvalue.types
  | .more .., ⟨hvalue, hrest⟩ => List.forall_mem_append.2 ⟨hvalue.types, hrest.types⟩

theorem Vname.All.types : ∀ {vname : Vname}, vname.All written found →
    ∀ e ∈ vname.expressions, found e.type
  | .simple .., _ => nofun
  | .dot .., ⟨_, hrecord⟩ => hrecord.types
  | .subscript .., ⟨_, harray, hindex⟩ => List.forall_mem_append.2 ⟨harray.types, hindex.types⟩

theorem Declaration.All.types : ∀ {declaration : Declaration}, declaration.All written found →
    ∀ e ∈ declaration.expressions, found e.type
  | .const _ _ _ value, h =>
    have hvalue : value.All written found := h
    hvalue.types
  | .var .., _ | .type .., _ => nofun
  | .proc .., ⟨_, hbody⟩ => hbody.types
  | .func .., ⟨_, _, hbody⟩ => hbody.types
  | .sequence .., ⟨hfirst, hsecond⟩ => List.forall_mem_append.2 ⟨hfirst.types, hsecond.types⟩

theorem Actuals.All.types : ∀ {actuals : Actuals}, actuals.All written found →
    ∀ e ∈ actuals.expressions, found e.type
  | .empty _, _ => nofun
  | .one _ actual, h =>
    have hactual : actual.All written found := h
    hactual.types
  | .more .., ⟨hactual, hrest⟩ => List.forall_mem_append.2 ⟨hactual.types, hrest.types⟩

theorem Actual.All.types : ∀ {actual : Actual}, actual.All written found →
    ∀ e ∈ actual.expressions, found e.type
  | .const _ value, h =>
    have hvalue : value.All written found := h
    hvalue.types
  | .var _ vname, h =>
    have hvname : vname.All written found := h
    hvname.types
  | .proc .., _ | .func .., _ => nofun

end

end types

/-! ## Parsed trees -/

theorem IntegerLiteral.Producible.plain {literal : IntegerLiteral} (h : literal.Producible) :
    literal.Plain :=
  plain_of_isSome h.1.isDigits h.2

mutual

theorem TypeDenoter.lengths_of_producible : (type : TypeDenoter) →
    type.bare.Producible → type.Lengths IntegerLiteral.Plain
  | .array _ _ length element, ⟨hlength, helement⟩ =>
    have hlength' : length.Producible := hlength
    ⟨hlength'.plain, element.lengths_of_producible helement⟩
  | .record _ _ fields, h => fields.lengths_of_producible h
  | .boolean, _ | .character, _ | .integer, _ | .any, _ | .error, _ | .named .., _ => trivial

theorem Fields.lengths_of_producible : (fields : Fields) →
    fields.bare.Producible → fields.Lengths IntegerLiteral.Plain
  | .one _ _ type, ⟨_, htype⟩ => type.lengths_of_producible htype
  | .more _ _ type rest, ⟨_, htype, hrest⟩ =>
    ⟨type.lengths_of_producible htype, rest.lengths_of_producible hrest⟩

end

mutual

theorem Formal.lengths_of_producible : (formal : Formal) →
    formal.bare.Producible → formal.All (TypeDenoter.Lengths IntegerLiteral.Plain)
  | .const _ _ _ type, ⟨_, _, htype⟩ | .var _ _ _ type, ⟨_, _, htype⟩ =>
    type.lengths_of_producible htype
  | .proc _ _ _ formals, ⟨_, _, hformals⟩ => formals.lengths_of_producible hformals
  | .func _ _ _ formals result, ⟨_, _, hformals, hresult⟩ =>
    ⟨formals.lengths_of_producible hformals, result.lengths_of_producible hresult⟩

theorem Formals.lengths_of_producible : (formals : Formals) →
    formals.bare.Producible → formals.All (TypeDenoter.Lengths IntegerLiteral.Plain)
  | .empty _, _ => trivial
  | .one _ formal, h => formal.lengths_of_producible h
  | .more _ formal rest, ⟨hformal, hrest, _⟩ =>
    ⟨formal.lengths_of_producible hformal, rest.lengths_of_producible hrest⟩

end

private abbrev plainLengths : TypeDenoter → Prop := TypeDenoter.Lengths IntegerLiteral.Plain

private abbrev noneFound : Option TypeDenoter → Prop := fun type => type = none

mutual

/-- No type is found in a producible tree, and the lengths written in it are plain. -/
theorem Command.all_of_producible : (command : Command) →
    command.bare.Producible → command.All plainLengths noneFound
  | .empty _, _ => trivial
  | .assign _ target value, ⟨htarget, hvalue⟩ =>
    ⟨target.all_of_producible htarget, value.all_of_producible hvalue⟩
  | .call _ _ actuals, ⟨_, hactuals⟩ => actuals.all_of_producible hactuals
  | .sequence _ first second, ⟨hfirst, hsecond⟩ =>
    ⟨first.all_of_producible hfirst, second.all_of_producible hsecond⟩
  | .letIn _ declaration body, ⟨hdeclaration, hbody⟩ =>
    ⟨declaration.all_of_producible hdeclaration, body.all_of_producible hbody⟩
  | .ifElse _ condition thenBranch elseBranch, ⟨hcondition, hthen, helse⟩ =>
    ⟨condition.all_of_producible hcondition, thenBranch.all_of_producible hthen,
      elseBranch.all_of_producible helse⟩
  | .whileDo _ condition body, ⟨hcondition, hbody⟩ =>
    ⟨condition.all_of_producible hcondition, body.all_of_producible hbody⟩
  | .repeatUntil _ body condition, ⟨hbody, hcondition⟩ =>
    ⟨body.all_of_producible hbody, condition.all_of_producible hcondition⟩
  | .loopWhile _ body condition tail, ⟨hbody, hcondition, htail⟩ =>
    ⟨body.all_of_producible hbody, condition.all_of_producible hcondition,
      tail.all_of_producible htail⟩

theorem Expression.all_of_producible : (expression : Expression) →
    expression.bare.Producible → expression.All plainLengths noneFound
  | .integer .., ⟨htype, _⟩ | .character .., ⟨htype, _⟩ => Option.map_eq_none_iff.1 htype
  | .vname _ _ vname, ⟨htype, hvname⟩ =>
    ⟨Option.map_eq_none_iff.1 htype, vname.all_of_producible hvname⟩
  | .call _ _ _ actuals, ⟨htype, _, hactuals⟩ =>
    ⟨Option.map_eq_none_iff.1 htype, actuals.all_of_producible hactuals⟩
  | .ifElse _ _ condition thenBranch elseBranch, ⟨htype, hcondition, hthen, helse⟩ =>
    ⟨Option.map_eq_none_iff.1 htype, condition.all_of_producible hcondition,
      thenBranch.all_of_producible hthen, elseBranch.all_of_producible helse⟩
  | .letIn _ _ declaration body, ⟨htype, hdeclaration, hbody⟩ =>
    ⟨Option.map_eq_none_iff.1 htype, declaration.all_of_producible hdeclaration,
      body.all_of_producible hbody⟩
  | .unary _ _ _ operand, ⟨htype, _, hoperand⟩ =>
    ⟨Option.map_eq_none_iff.1 htype, operand.all_of_producible hoperand⟩
  | .binary _ _ left _ right, ⟨htype, hleft, _, hright⟩ =>
    ⟨Option.map_eq_none_iff.1 htype, left.all_of_producible hleft,
      right.all_of_producible hright⟩
  | .array _ _ elements, ⟨htype, helements⟩ =>
    ⟨Option.map_eq_none_iff.1 htype, elements.all_of_producible helements⟩
  | .record _ _ fields, ⟨htype, hfields⟩ =>
    ⟨Option.map_eq_none_iff.1 htype, fields.all_of_producible hfields⟩

theorem ArrayAggregate.all_of_producible : (elements : ArrayAggregate) →
    elements.bare.Producible → elements.All plainLengths noneFound
  | .one _ element, h => element.all_of_producible h
  | .more _ element rest, ⟨helement, hrest⟩ =>
    ⟨element.all_of_producible helement, rest.all_of_producible hrest⟩

theorem RecordAggregate.all_of_producible : (fields : RecordAggregate) →
    fields.bare.Producible → fields.All plainLengths noneFound
  | .one _ _ value, ⟨_, hvalue⟩ => value.all_of_producible hvalue
  | .more _ _ value rest, ⟨_, hvalue, hrest⟩ =>
    ⟨value.all_of_producible hvalue, rest.all_of_producible hrest⟩

theorem Vname.all_of_producible : (vname : Vname) →
    vname.bare.Producible → vname.All plainLengths noneFound
  | .simple .., ⟨htype, _⟩ => Option.map_eq_none_iff.1 htype
  | .dot _ _ _ record _, ⟨htype, _, hrecord, _⟩ =>
    ⟨Option.map_eq_none_iff.1 htype, record.all_of_producible hrecord⟩
  | .subscript _ _ _ array index, ⟨htype, _, harray, hindex⟩ =>
    ⟨Option.map_eq_none_iff.1 htype, array.all_of_producible harray,
      index.all_of_producible hindex⟩

theorem Declaration.all_of_producible : (declaration : Declaration) →
    declaration.bare.Producible → declaration.All plainLengths noneFound
  | .const _ _ _ value, ⟨_, _, hvalue⟩ => value.all_of_producible hvalue
  | .var _ _ _ type, ⟨_, _, htype⟩ | .type _ _ _ type, ⟨_, _, htype⟩ =>
    type.lengths_of_producible htype
  | .proc _ _ _ formals body, ⟨_, _, hformals, hbody⟩ =>
    ⟨formals.lengths_of_producible hformals, body.all_of_producible hbody⟩
  | .func _ _ _ formals result body, ⟨_, _, hformals, hresult, hbody⟩ =>
    ⟨formals.lengths_of_producible hformals, result.lengths_of_producible hresult,
      body.all_of_producible hbody⟩
  | .sequence _ first second, ⟨hfirst, hsecond, _⟩ =>
    ⟨first.all_of_producible hfirst, second.all_of_producible hsecond⟩

theorem Actuals.all_of_producible : (actuals : Actuals) →
    actuals.bare.Producible → actuals.All plainLengths noneFound
  | .empty _, _ => trivial
  | .one _ actual, h => actual.all_of_producible h
  | .more _ actual rest, ⟨hactual, hrest, _⟩ =>
    ⟨actual.all_of_producible hactual, rest.all_of_producible hrest⟩

theorem Actual.all_of_producible : (actual : Actual) →
    actual.bare.Producible → actual.All plainLengths noneFound
  | .const _ value, h => value.all_of_producible h
  | .var _ vname, h => vname.all_of_producible h
  | .proc .., _ | .func .., _ => trivial

end

mutual

/-- The expressions of a producible tree are producible. -/
theorem Command.producible_expressions : (command : Command) →
    command.bare.Producible → ∀ e ∈ command.expressions, e.bare.Producible
  | .empty _, _ => nofun
  | .assign _ target value, ⟨htarget, hvalue⟩ => List.forall_mem_append.2
    ⟨target.producible_expressions htarget, value.producible_expressions hvalue⟩
  | .call _ _ actuals, ⟨_, hactuals⟩ => actuals.producible_expressions hactuals
  | .sequence _ first second, ⟨hfirst, hsecond⟩ => List.forall_mem_append.2
    ⟨first.producible_expressions hfirst, second.producible_expressions hsecond⟩
  | .letIn _ declaration body, ⟨hdeclaration, hbody⟩ => List.forall_mem_append.2
    ⟨declaration.producible_expressions hdeclaration, body.producible_expressions hbody⟩
  | .ifElse _ condition thenBranch elseBranch, ⟨hcondition, hthen, helse⟩ =>
    List.forall_mem_append.2 ⟨List.forall_mem_append.2
      ⟨condition.producible_expressions hcondition, thenBranch.producible_expressions hthen⟩,
      elseBranch.producible_expressions helse⟩
  | .whileDo _ condition body, ⟨hcondition, hbody⟩ => List.forall_mem_append.2
    ⟨condition.producible_expressions hcondition, body.producible_expressions hbody⟩
  | .repeatUntil _ body condition, ⟨hbody, hcondition⟩ => List.forall_mem_append.2
    ⟨body.producible_expressions hbody, condition.producible_expressions hcondition⟩
  | .loopWhile _ body condition tail, ⟨hbody, hcondition, htail⟩ =>
    List.forall_mem_append.2 ⟨List.forall_mem_append.2
      ⟨body.producible_expressions hbody, condition.producible_expressions hcondition⟩,
      tail.producible_expressions htail⟩

theorem Expression.producible_expressions : (expression : Expression) →
    expression.bare.Producible → ∀ e ∈ expression.expressions, e.bare.Producible
  | .integer .., h | .character .., h => List.forall_mem_singleton.2 h
  | .vname _ _ vname, h => List.forall_mem_cons.2 ⟨h, vname.producible_expressions h.2⟩
  | .call _ _ _ actuals, h => List.forall_mem_cons.2 ⟨h, actuals.producible_expressions h.2.2⟩
  | .ifElse _ _ condition thenBranch elseBranch, h =>
    have ⟨_, hcondition, hthen, helse⟩ := h
    List.forall_mem_cons.2 ⟨h, List.forall_mem_append.2 ⟨List.forall_mem_append.2
      ⟨condition.producible_expressions hcondition, thenBranch.producible_expressions hthen⟩,
      elseBranch.producible_expressions helse⟩⟩
  | .letIn _ _ declaration body, h =>
    have ⟨_, hdeclaration, hbody⟩ := h
    List.forall_mem_cons.2 ⟨h, List.forall_mem_append.2
      ⟨declaration.producible_expressions hdeclaration, body.producible_expressions hbody⟩⟩
  | .unary _ _ _ operand, h => List.forall_mem_cons.2 ⟨h, operand.producible_expressions h.2.2⟩
  | .binary _ _ left _ right, h =>
    have ⟨_, hleft, _, hright⟩ := h
    List.forall_mem_cons.2 ⟨h, List.forall_mem_append.2
      ⟨left.producible_expressions hleft, right.producible_expressions hright⟩⟩
  | .array _ _ elements, h => List.forall_mem_cons.2 ⟨h, elements.producible_expressions h.2⟩
  | .record _ _ fields, h => List.forall_mem_cons.2 ⟨h, fields.producible_expressions h.2⟩

theorem ArrayAggregate.producible_expressions : (elements : ArrayAggregate) →
    elements.bare.Producible → ∀ e ∈ elements.expressions, e.bare.Producible
  | .one _ element, h => element.producible_expressions h
  | .more _ element rest, ⟨helement, hrest⟩ => List.forall_mem_append.2
    ⟨element.producible_expressions helement, rest.producible_expressions hrest⟩

theorem RecordAggregate.producible_expressions : (fields : RecordAggregate) →
    fields.bare.Producible → ∀ e ∈ fields.expressions, e.bare.Producible
  | .one _ _ value, ⟨_, hvalue⟩ => value.producible_expressions hvalue
  | .more _ _ value rest, ⟨_, hvalue, hrest⟩ => List.forall_mem_append.2
    ⟨value.producible_expressions hvalue, rest.producible_expressions hrest⟩

theorem Vname.producible_expressions : (vname : Vname) →
    vname.bare.Producible → ∀ e ∈ vname.expressions, e.bare.Producible
  | .simple .., _ => nofun
  | .dot _ _ _ record _, ⟨_, _, hrecord, _⟩ => record.producible_expressions hrecord
  | .subscript _ _ _ array index, ⟨_, _, harray, hindex⟩ => List.forall_mem_append.2
    ⟨array.producible_expressions harray, index.producible_expressions hindex⟩

theorem Declaration.producible_expressions : (declaration : Declaration) →
    declaration.bare.Producible → ∀ e ∈ declaration.expressions, e.bare.Producible
  | .const _ _ _ value, ⟨_, _, hvalue⟩ => value.producible_expressions hvalue
  | .var .., _ | .type .., _ => nofun
  | .proc _ _ _ _ body, ⟨_, _, _, hbody⟩ => body.producible_expressions hbody
  | .func _ _ _ _ _ body, ⟨_, _, _, _, hbody⟩ => body.producible_expressions hbody
  | .sequence _ first second, ⟨hfirst, hsecond, _⟩ => List.forall_mem_append.2
    ⟨first.producible_expressions hfirst, second.producible_expressions hsecond⟩

theorem Actuals.producible_expressions : (actuals : Actuals) →
    actuals.bare.Producible → ∀ e ∈ actuals.expressions, e.bare.Producible
  | .empty _, _ => nofun
  | .one _ actual, h => actual.producible_expressions h
  | .more _ actual rest, ⟨hactual, hrest, _⟩ => List.forall_mem_append.2
    ⟨actual.producible_expressions hactual, rest.producible_expressions hrest⟩

theorem Actual.producible_expressions : (actual : Actual) →
    actual.bare.Producible → ∀ e ∈ actual.expressions, e.bare.Producible
  | .const _ value, h => value.producible_expressions h
  | .var _ vname, h => vname.producible_expressions h
  | .proc .., _ | .func .., _ => nofun

end

end TriangleTam
