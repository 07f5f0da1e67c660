import TriangleTam.Proofs.Typing.Rules

/-! # Types in trees

  Where types stand in a tree: the denoters that declarations and formal
  parameters are written with, and the types that checking finds of
  expressions and vnames. A decorated tree has all of the latter, and all of
  both are known denoters.
-/

namespace TriangleTam

section All

variable (written : TypeDenoter → Prop) (found : Option TypeDenoter → Prop)

mutual

/-- All denoters written in the parameter satisfy `written`. -/
def Formal.All : Formal → Prop
  | .const _ _ _ type | .var _ _ _ type => written type
  | .proc _ _ _ formals => formals.All
  | .func _ _ _ formals result => formals.All ∧ written result

def Formals.All : Formals → Prop
  | .empty _ => True
  | .one _ formal => formal.All
  | .more _ formal rest => formal.All ∧ rest.All

end

mutual

/-- All denoters written in the command satisfy `written`, and all types of
    expressions and vnames in it satisfy `found`. -/
def Command.All : Command → Prop
  | .empty _ => True
  | .assign _ target value => target.All ∧ value.All
  | .call _ _ actuals => actuals.All
  | .sequence _ first second => first.All ∧ second.All
  | .letIn _ declaration body => declaration.All ∧ body.All
  | .ifElse _ condition thenBranch elseBranch =>
    condition.All ∧ thenBranch.All ∧ elseBranch.All
  | .whileDo _ condition body => condition.All ∧ body.All
  | .repeatUntil _ body condition => body.All ∧ condition.All
  | .loopWhile _ body condition tail => body.All ∧ condition.All ∧ tail.All

def Expression.All : Expression → Prop
  | .integer _ type _ | .character _ type _ => found type
  | .vname _ type vname => found type ∧ vname.All
  | .call _ type _ actuals => found type ∧ actuals.All
  | .ifElse _ type condition thenBranch elseBranch =>
    found type ∧ condition.All ∧ thenBranch.All ∧ elseBranch.All
  | .letIn _ type declaration body => found type ∧ declaration.All ∧ body.All
  | .unary _ type _ operand => found type ∧ operand.All
  | .binary _ type left _ right => found type ∧ left.All ∧ right.All
  | .array _ type elements => found type ∧ elements.All
  | .record _ type fields => found type ∧ fields.All

def ArrayAggregate.All : ArrayAggregate → Prop
  | .one _ element => element.All
  | .more _ element rest => element.All ∧ rest.All

def RecordAggregate.All : RecordAggregate → Prop
  | .one _ _ value => value.All
  | .more _ _ value rest => value.All ∧ rest.All

def Vname.All : Vname → Prop
  | .simple _ type _ _ => found type
  | .dot _ type _ record _ => found type ∧ record.All
  | .subscript _ type _ array index => found type ∧ array.All ∧ index.All

def Declaration.All : Declaration → Prop
  | .const _ _ _ value => value.All
  | .var _ _ _ type | .type _ _ _ type => written type
  | .proc _ _ _ formals body => formals.All written ∧ body.All
  | .func _ _ _ formals result body => formals.All written ∧ written result ∧ body.All
  | .sequence _ first second => first.All ∧ second.All

def Actuals.All : Actuals → Prop
  | .empty _ => True
  | .one _ actual => actual.All
  | .more _ actual rest => actual.All ∧ rest.All

def Actual.All : Actual → Prop
  | .const _ value => value.All
  | .var _ vname => vname.All
  | .proc _ _ | .func _ _ => True

end

end All

section type

variable {written : TypeDenoter → Prop} {found : Option TypeDenoter → Prop}

theorem Expression.All.type {expression : Expression} (h : expression.All written found) :
    found expression.type := by
  cases expression <;> first | exact h | exact h.1

theorem Vname.All.type {vname : Vname} (h : vname.All written found) : found vname.type := by
  cases vname <;> first | exact h | exact h.1

end type

/-! ## Weakening -/

section mono

variable {written written' : TypeDenoter → Prop} {found found' : Option TypeDenoter → Prop}

mutual

theorem Formal.All.mono (hw : ∀ type, written type → written' type) :
    ∀ {formal : Formal}, formal.All written → formal.All written'
  | .const _ _ _ type, h | .var _ _ _ type, h => hw type h
  | .proc _ _ _ formals, h =>
    have hformals : formals.All written := h
    hformals.mono hw
  | .func _ _ _ _ _, ⟨hformals, hresult⟩ => ⟨hformals.mono hw, hw _ hresult⟩

theorem Formals.All.mono (hw : ∀ type, written type → written' type) :
    ∀ {formals : Formals}, formals.All written → formals.All written'
  | .empty _, _ => trivial
  | .one _ formal, h =>
    have hformal : formal.All written := h
    hformal.mono hw
  | .more _ _ _, ⟨hformal, hrest⟩ => ⟨hformal.mono hw, hrest.mono hw⟩

end

variable (hw : ∀ type, written type → written' type) (hf : ∀ type, found type → found' type)

include hw hf

-- each theorem of the block needs both for its calls of the others
set_option linter.unusedSectionVars false

mutual

theorem Command.All.mono : ∀ {command : Command}, command.All written found →
    command.All written' found'
  | .empty _, _ => trivial
  | .assign .., ⟨htarget, hvalue⟩ => ⟨htarget.mono, hvalue.mono⟩
  | .call _ _ actuals, h =>
    have hactuals : actuals.All written found := h
    hactuals.mono
  | .sequence .., ⟨hfirst, hsecond⟩ => ⟨hfirst.mono, hsecond.mono⟩
  | .letIn .., ⟨hdeclaration, hbody⟩ => ⟨hdeclaration.mono, hbody.mono⟩
  | .ifElse .., ⟨hcondition, hthen, helse⟩ => ⟨hcondition.mono, hthen.mono, helse.mono⟩
  | .whileDo .., ⟨hcondition, hbody⟩ => ⟨hcondition.mono, hbody.mono⟩
  | .repeatUntil .., ⟨hbody, hcondition⟩ => ⟨hbody.mono, hcondition.mono⟩
  | .loopWhile .., ⟨hbody, hcondition, htail⟩ => ⟨hbody.mono, hcondition.mono, htail.mono⟩

theorem Expression.All.mono : ∀ {expression : Expression}, expression.All written found →
    expression.All written' found'
  | .integer _ type _, h | .character _ type _, h => hf type h
  | .vname .., ⟨htype, hvname⟩ => ⟨hf _ htype, hvname.mono⟩
  | .call .., ⟨htype, hactuals⟩ => ⟨hf _ htype, hactuals.mono⟩
  | .ifElse .., ⟨htype, hcondition, hthen, helse⟩ =>
    ⟨hf _ htype, hcondition.mono, hthen.mono, helse.mono⟩
  | .letIn .., ⟨htype, hdeclaration, hbody⟩ => ⟨hf _ htype, hdeclaration.mono, hbody.mono⟩
  | .unary .., ⟨htype, hoperand⟩ => ⟨hf _ htype, hoperand.mono⟩
  | .binary .., ⟨htype, hleft, hright⟩ => ⟨hf _ htype, hleft.mono, hright.mono⟩
  | .array .., ⟨htype, helements⟩ => ⟨hf _ htype, helements.mono⟩
  | .record .., ⟨htype, hfields⟩ => ⟨hf _ htype, hfields.mono⟩

theorem ArrayAggregate.All.mono : ∀ {elements : ArrayAggregate},
    elements.All written found → elements.All written' found'
  | .one _ element, h =>
    have helement : element.All written found := h
    helement.mono
  | .more .., ⟨helement, hrest⟩ => ⟨helement.mono, hrest.mono⟩

theorem RecordAggregate.All.mono : ∀ {fields : RecordAggregate},
    fields.All written found → fields.All written' found'
  | .one _ _ value, h =>
    have hvalue : value.All written found := h
    hvalue.mono
  | .more .., ⟨hvalue, hrest⟩ => ⟨hvalue.mono, hrest.mono⟩

theorem Vname.All.mono : ∀ {vname : Vname}, vname.All written found → vname.All written' found'
  | .simple _ type _ _, h => hf type h
  | .dot .., ⟨htype, hrecord⟩ => ⟨hf _ htype, hrecord.mono⟩
  | .subscript .., ⟨htype, harray, hindex⟩ => ⟨hf _ htype, harray.mono, hindex.mono⟩

theorem Declaration.All.mono : ∀ {declaration : Declaration},
    declaration.All written found → declaration.All written' found'
  | .const _ _ _ value, h =>
    have hvalue : value.All written found := h
    hvalue.mono
  | .var _ _ _ type, h | .type _ _ _ type, h => hw type h
  | .proc .., ⟨hformals, hbody⟩ => ⟨hformals.mono hw, hbody.mono⟩
  | .func .., ⟨hformals, hresult, hbody⟩ => ⟨hformals.mono hw, hw _ hresult, hbody.mono⟩
  | .sequence .., ⟨hfirst, hsecond⟩ => ⟨hfirst.mono, hsecond.mono⟩

theorem Actuals.All.mono : ∀ {actuals : Actuals},
    actuals.All written found → actuals.All written' found'
  | .empty _, _ => trivial
  | .one _ actual, h =>
    have hactual : actual.All written found := h
    hactual.mono
  | .more .., ⟨hactual, hrest⟩ => ⟨hactual.mono, hrest.mono⟩

theorem Actual.All.mono : ∀ {actual : Actual}, actual.All written found →
    actual.All written' found'
  | .const _ value, h =>
    have hvalue : value.All written found := h
    hvalue.mono
  | .var _ vname, h =>
    have hvname : vname.All written found := h
    hvname.mono
  | .proc .., _ | .func .., _ => trivial

end

end mono

/-! ## Every type -/

section intro

variable {written : TypeDenoter → Prop} {found : Option TypeDenoter → Prop}

mutual

/-- What is so of every type is so of all types of a tree. -/
theorem Formal.All.intro (hw : ∀ type, written type) : ∀ formal : Formal, formal.All written
  | .const _ _ _ type | .var _ _ _ type => hw type
  | .proc _ _ _ formals => Formals.All.intro hw formals
  | .func _ _ _ formals result => ⟨Formals.All.intro hw formals, hw result⟩

theorem Formals.All.intro (hw : ∀ type, written type) : ∀ formals : Formals, formals.All written
  | .empty _ => trivial
  | .one _ formal => Formal.All.intro hw formal
  | .more _ formal rest => ⟨Formal.All.intro hw formal, Formals.All.intro hw rest⟩

end

variable (hw : ∀ type, written type) (hf : ∀ type, found type)

include hw hf

set_option linter.unusedSectionVars false

mutual

theorem Command.All.intro : ∀ command : Command, command.All written found
  | .empty _ => trivial
  | .assign _ target value => ⟨Vname.All.intro target, Expression.All.intro value⟩
  | .call _ _ actuals => Actuals.All.intro actuals
  | .sequence _ first second => ⟨Command.All.intro first, Command.All.intro second⟩
  | .letIn _ declaration body => ⟨Declaration.All.intro declaration, Command.All.intro body⟩
  | .ifElse _ condition thenBranch elseBranch =>
    ⟨Expression.All.intro condition, Command.All.intro thenBranch, Command.All.intro elseBranch⟩
  | .whileDo _ condition body => ⟨Expression.All.intro condition, Command.All.intro body⟩
  | .repeatUntil _ body condition => ⟨Command.All.intro body, Expression.All.intro condition⟩
  | .loopWhile _ body condition tail =>
    ⟨Command.All.intro body, Expression.All.intro condition, Command.All.intro tail⟩

theorem Expression.All.intro : ∀ expression : Expression, expression.All written found
  | .integer _ type _ | .character _ type _ => hf type
  | .vname _ type vname => ⟨hf type, Vname.All.intro vname⟩
  | .call _ type _ actuals => ⟨hf type, Actuals.All.intro actuals⟩
  | .ifElse _ type condition thenBranch elseBranch =>
    ⟨hf type, Expression.All.intro condition, Expression.All.intro thenBranch,
      Expression.All.intro elseBranch⟩
  | .letIn _ type declaration body =>
    ⟨hf type, Declaration.All.intro declaration, Expression.All.intro body⟩
  | .unary _ type _ operand => ⟨hf type, Expression.All.intro operand⟩
  | .binary _ type left _ right =>
    ⟨hf type, Expression.All.intro left, Expression.All.intro right⟩
  | .array _ type elements => ⟨hf type, ArrayAggregate.All.intro elements⟩
  | .record _ type fields => ⟨hf type, RecordAggregate.All.intro fields⟩

theorem ArrayAggregate.All.intro : ∀ elements : ArrayAggregate, elements.All written found
  | .one _ element => Expression.All.intro element
  | .more _ element rest => ⟨Expression.All.intro element, ArrayAggregate.All.intro rest⟩

theorem RecordAggregate.All.intro : ∀ fields : RecordAggregate, fields.All written found
  | .one _ _ value => Expression.All.intro value
  | .more _ _ value rest => ⟨Expression.All.intro value, RecordAggregate.All.intro rest⟩

theorem Vname.All.intro : ∀ vname : Vname, vname.All written found
  | .simple _ type _ _ => hf type
  | .dot _ type _ record _ => ⟨hf type, Vname.All.intro record⟩
  | .subscript _ type _ array index =>
    ⟨hf type, Vname.All.intro array, Expression.All.intro index⟩

theorem Declaration.All.intro : ∀ declaration : Declaration, declaration.All written found
  | .const _ _ _ value => Expression.All.intro value
  | .var _ _ _ type | .type _ _ _ type => hw type
  | .proc _ _ _ formals body => ⟨Formals.All.intro hw formals, Command.All.intro body⟩
  | .func _ _ _ formals result body =>
    ⟨Formals.All.intro hw formals, hw result, Expression.All.intro body⟩
  | .sequence _ first second => ⟨Declaration.All.intro first, Declaration.All.intro second⟩

theorem Actuals.All.intro : ∀ actuals : Actuals, actuals.All written found
  | .empty _ => trivial
  | .one _ actual => Actual.All.intro actual
  | .more _ actual rest => ⟨Actual.All.intro actual, Actuals.All.intro rest⟩

theorem Actual.All.intro : ∀ actual : Actual, actual.All written found
  | .const _ value => Expression.All.intro value
  | .var _ vname => Vname.All.intro vname
  | .proc .. | .func .. => trivial

end

end intro

/-! ## Decorated trees -/

/-- The type was found and satisfies `P`. -/
def Finds (P : TypeDenoter → Prop) (type : Option TypeDenoter) : Prop := ∃ τ ∈ type, P τ

theorem Finds.mono {P Q : TypeDenoter → Prop} (h : ∀ type, P type → Q type)
    {type : Option TypeDenoter} : Finds P type → Finds Q type :=
  fun ⟨τ, hmem, hP⟩ => ⟨τ, hmem, h τ hP⟩

end TriangleTam
