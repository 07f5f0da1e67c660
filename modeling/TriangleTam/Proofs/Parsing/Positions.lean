import TriangleTam.Tree

/-! # Trees without positions

  The **bare** form of a tree forgets where its parts stand in the text: every
  span is the one of things that no text wrote, and all denoters have the same
  serial number. Two trees are the same, positions aside, if their bare forms
  are.
-/

namespace TriangleTam

def Name.bare (name : Name) : Name := { name with span := .nowhere }

def IntegerLiteral.bare (literal : IntegerLiteral) : IntegerLiteral := ⟨literal.spelling, .nowhere⟩

def CharacterLiteral.bare (literal : CharacterLiteral) : CharacterLiteral :=
  ⟨literal.spelling, .nowhere⟩

mutual

def TypeDenoter.bare : TypeDenoter → TypeDenoter
  | .boolean => .boolean
  | .character => .character
  | .integer => .integer
  | .any => .any
  | .error => .error
  | .named _ name => .named .nowhere name.bare
  | .array _ _ length element => .array 0 .nowhere length.bare element.bare
  | .record _ _ fields => .record 0 .nowhere fields.bare

def Fields.bare : Fields → Fields
  | .one _ name type => .one .nowhere name.bare type.bare
  | .more _ name type rest => .more .nowhere name.bare type.bare rest.bare

end

mutual

def Formal.bare : Formal → Formal
  | .const _ duplicated name type => .const .nowhere duplicated name.bare type.bare
  | .var _ duplicated name type => .var .nowhere duplicated name.bare type.bare
  | .proc _ duplicated name formals => .proc .nowhere duplicated name.bare formals.bare
  | .func _ duplicated name formals result =>
    .func .nowhere duplicated name.bare formals.bare result.bare

def Formals.bare : Formals → Formals
  | .empty _ => .empty .nowhere
  | .one _ formal => .one .nowhere formal.bare
  | .more _ formal rest => .more .nowhere formal.bare rest.bare

end

mutual

def Command.bare : Command → Command
  | .empty _ => .empty .nowhere
  | .assign _ target value => .assign .nowhere target.bare value.bare
  | .call _ callee actuals => .call .nowhere callee.bare actuals.bare
  | .sequence _ first second => .sequence .nowhere first.bare second.bare
  | .letIn _ declaration body => .letIn .nowhere declaration.bare body.bare
  | .ifElse _ condition thenBranch elseBranch =>
    .ifElse .nowhere condition.bare thenBranch.bare elseBranch.bare
  | .whileDo _ condition body => .whileDo .nowhere condition.bare body.bare
  | .repeatUntil _ body condition => .repeatUntil .nowhere body.bare condition.bare
  | .loopWhile _ body condition tail =>
    .loopWhile .nowhere body.bare condition.bare tail.bare

def Expression.bare : Expression → Expression
  | .integer _ type literal => .integer .nowhere (type.map TypeDenoter.bare) literal.bare
  | .character _ type literal => .character .nowhere (type.map TypeDenoter.bare) literal.bare
  | .vname _ type vname => .vname .nowhere (type.map TypeDenoter.bare) vname.bare
  | .call _ type callee actuals =>
    .call .nowhere (type.map TypeDenoter.bare) callee.bare actuals.bare
  | .ifElse _ type condition thenBranch elseBranch =>
    .ifElse .nowhere (type.map TypeDenoter.bare) condition.bare thenBranch.bare elseBranch.bare
  | .letIn _ type declaration body =>
    .letIn .nowhere (type.map TypeDenoter.bare) declaration.bare body.bare
  | .unary _ type operator operand =>
    .unary .nowhere (type.map TypeDenoter.bare) operator.bare operand.bare
  | .binary _ type left operator right =>
    .binary .nowhere (type.map TypeDenoter.bare) left.bare operator.bare right.bare
  | .array _ type elements => .array .nowhere (type.map TypeDenoter.bare) elements.bare
  | .record _ type fields => .record .nowhere (type.map TypeDenoter.bare) fields.bare

def ArrayAggregate.bare : ArrayAggregate → ArrayAggregate
  | .one _ element => .one .nowhere element.bare
  | .more _ element rest => .more .nowhere element.bare rest.bare

def RecordAggregate.bare : RecordAggregate → RecordAggregate
  | .one _ field value => .one .nowhere field.bare value.bare
  | .more _ field value rest => .more .nowhere field.bare value.bare rest.bare

def Vname.bare : Vname → Vname
  | .simple _ type isVariable name =>
    .simple .nowhere (type.map TypeDenoter.bare) isVariable name.bare
  | .dot _ type isVariable record field =>
    .dot .nowhere (type.map TypeDenoter.bare) isVariable record.bare field.bare
  | .subscript _ type isVariable array index =>
    .subscript .nowhere (type.map TypeDenoter.bare) isVariable array.bare index.bare

def Declaration.bare : Declaration → Declaration
  | .const _ duplicated name value => .const .nowhere duplicated name.bare value.bare
  | .var _ duplicated name type => .var .nowhere duplicated name.bare type.bare
  | .proc _ duplicated name formals body =>
    .proc .nowhere duplicated name.bare formals.bare body.bare
  | .func _ duplicated name formals result body =>
    .func .nowhere duplicated name.bare formals.bare result.bare body.bare
  | .type _ duplicated name type => .type .nowhere duplicated name.bare type.bare
  | .sequence _ first second => .sequence .nowhere first.bare second.bare

def Actual.bare : Actual → Actual
  | .const _ value => .const .nowhere value.bare
  | .var _ vname => .var .nowhere vname.bare
  | .proc _ name => .proc .nowhere name.bare
  | .func _ name => .func .nowhere name.bare

def Actuals.bare : Actuals → Actuals
  | .empty _ => .empty .nowhere
  | .one _ actual => .one .nowhere actual.bare
  | .more _ actual rest => .more .nowhere actual.bare rest.bare

end

end TriangleTam
