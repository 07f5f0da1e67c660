import TriangleTam.Proofs.Typing.Decoration

/-! # Misspelt trees

  A tree is **misspelt** where names in it were replaced by a spelling that
  nothing in it is called. The names are those of constants and variables, at
  the root of a vname, and those of types, in a denoter. They are listed by
  their places, in the order in which checking comes to them.

  In a checked tree errors stand **apart** when the type `error` was found
  alone everywhere: the type of no expression has it as a part. For the types
  of parameters there is a choice, because they are compared as parts of
  signatures where routines are passed as parameters.
-/

namespace TriangleTam

/-! ## Misspelt names -/

section Misspelt

variable (w : String)

mutual

/-- The second denoter is the first with `w` in place of the type names at the places. -/
inductive TypeDenoter.Misspelt : List Span → TypeDenoter → TypeDenoter → Prop
  | boolean : TypeDenoter.Misspelt [] .boolean .boolean
  | character : TypeDenoter.Misspelt [] .character .character
  | integer : TypeDenoter.Misspelt [] .integer .integer
  | named {span name} : TypeDenoter.Misspelt [] (.named span name) (.named span name)
  /-- Here a name is misspelt. -/
  | misspelt {span name} :
      TypeDenoter.Misspelt [name.span] (.named span name) (.named span { name with spelling := w })
  | array {spans serial span length element element'} :
      TypeDenoter.Misspelt spans element element' →
      TypeDenoter.Misspelt spans (.array serial span length element)
        (.array serial span length element')
  | record {spans serial span fields fields'} :
      Fields.Misspelt spans fields fields' →
      TypeDenoter.Misspelt spans (.record serial span fields) (.record serial span fields')

inductive Fields.Misspelt : List Span → Fields → Fields → Prop
  | one {spans span name type type'} :
      TypeDenoter.Misspelt spans type type' →
      Fields.Misspelt spans (.one span name type) (.one span name type')
  | more {spans spans' span name type rest type' rest'} :
      TypeDenoter.Misspelt spans type type' → Fields.Misspelt spans' rest rest' →
      Fields.Misspelt (spans ++ spans') (.more span name type rest) (.more span name type' rest')

end

mutual

/-- The second parameter is the first with `w` in place of the type names at the places. No
    parameter is called `w`. -/
inductive Formal.Misspelt : List Span → Formal → Formal → Prop
  | const {spans span duplicated name type type'} :
      name.spelling ≠ w → type.Misspelt w spans type' →
      Formal.Misspelt spans (.const span duplicated name type) (.const span duplicated name type')
  | var {spans span duplicated name type type'} :
      name.spelling ≠ w → type.Misspelt w spans type' →
      Formal.Misspelt spans (.var span duplicated name type) (.var span duplicated name type')
  | proc {spans span duplicated name inner inner'} :
      name.spelling ≠ w → Formals.Misspelt spans inner inner' →
      Formal.Misspelt spans (.proc span duplicated name inner) (.proc span duplicated name inner')
  /-- The result is checked before the parameters. -/
  | func {spans spans' span duplicated name inner inner' result result'} :
      name.spelling ≠ w → result.Misspelt w spans result' → Formals.Misspelt spans' inner inner' →
      Formal.Misspelt (spans ++ spans') (.func span duplicated name inner result)
        (.func span duplicated name inner' result')

inductive Formals.Misspelt : List Span → Formals → Formals → Prop
  | empty {span} : Formals.Misspelt [] (.empty span) (.empty span)
  | one {spans span first first'} :
      Formal.Misspelt spans first first' →
      Formals.Misspelt spans (.one span first) (.one span first')
  | more {spans spans' span first first' rest rest'} :
      Formal.Misspelt spans first first' → Formals.Misspelt spans' rest rest' →
      Formals.Misspelt (spans ++ spans') (.more span first rest) (.more span first' rest')

end

mutual

/-- The second command is the first with `w` in place of the names at the places. Nothing that
    is declared in it is called `w`. -/
inductive Command.Misspelt : List Span → Command → Command → Prop
  | empty {span} : Command.Misspelt [] (.empty span) (.empty span)
  | assign {spans spans' span target target' value value'} :
      Vname.Misspelt spans target target' → Expression.Misspelt spans' value value' →
      Command.Misspelt (spans ++ spans') (.assign span target value) (.assign span target' value')
  | call {spans span callee args args'} :
      Actuals.Misspelt spans args args' →
      Command.Misspelt spans (.call span callee args) (.call span callee args')
  | sequence {spans spans' span first first' second second'} :
      Command.Misspelt spans first first' → Command.Misspelt spans' second second' →
      Command.Misspelt (spans ++ spans') (.sequence span first second)
        (.sequence span first' second')
  | letIn {spans spans' span declared declared' body body'} :
      Declaration.Misspelt spans declared declared' → Command.Misspelt spans' body body' →
      Command.Misspelt (spans ++ spans') (.letIn span declared body) (.letIn span declared' body')
  | ifElse {spans spans' spans'' span condition condition' thenBranch thenBranch' elseBranch
        elseBranch'} :
      Expression.Misspelt spans condition condition' →
      Command.Misspelt spans' thenBranch thenBranch' →
      Command.Misspelt spans'' elseBranch elseBranch' →
      Command.Misspelt (spans ++ (spans' ++ spans''))
        (.ifElse span condition thenBranch elseBranch)
        (.ifElse span condition' thenBranch' elseBranch')
  | whileDo {spans spans' span condition condition' body body'} :
      Expression.Misspelt spans condition condition' → Command.Misspelt spans' body body' →
      Command.Misspelt (spans ++ spans') (.whileDo span condition body)
        (.whileDo span condition' body')
  | repeatUntil {spans spans' span body body' condition condition'} :
      Command.Misspelt spans body body' → Expression.Misspelt spans' condition condition' →
      Command.Misspelt (spans ++ spans') (.repeatUntil span body condition)
        (.repeatUntil span body' condition')
  | loopWhile {spans spans' spans'' span body body' condition condition' tail tail'} :
      Command.Misspelt spans body body' → Expression.Misspelt spans' condition condition' →
      Command.Misspelt spans'' tail tail' →
      Command.Misspelt (spans ++ (spans' ++ spans'')) (.loopWhile span body condition tail)
        (.loopWhile span body' condition' tail')

inductive Expression.Misspelt : List Span → Expression → Expression → Prop
  | integer {span type literal} :
      Expression.Misspelt [] (.integer span type literal) (.integer span type literal)
  | character {span type literal} :
      Expression.Misspelt [] (.character span type literal) (.character span type literal)
  | vname {spans span type found found'} :
      Vname.Misspelt spans found found' →
      Expression.Misspelt spans (.vname span type found) (.vname span type found')
  | call {spans span type callee args args'} :
      Actuals.Misspelt spans args args' →
      Expression.Misspelt spans (.call span type callee args) (.call span type callee args')
  | ifElse {spans spans' spans'' span type condition condition' thenBranch thenBranch' elseBranch
        elseBranch'} :
      Expression.Misspelt spans condition condition' →
      Expression.Misspelt spans' thenBranch thenBranch' →
      Expression.Misspelt spans'' elseBranch elseBranch' →
      Expression.Misspelt (spans ++ (spans' ++ spans''))
        (.ifElse span type condition thenBranch elseBranch)
        (.ifElse span type condition' thenBranch' elseBranch')
  | letIn {spans spans' span type declared declared' body body'} :
      Declaration.Misspelt spans declared declared' → Expression.Misspelt spans' body body' →
      Expression.Misspelt (spans ++ spans') (.letIn span type declared body)
        (.letIn span type declared' body')
  | unary {spans span type operator operand operand'} :
      Expression.Misspelt spans operand operand' →
      Expression.Misspelt spans (.unary span type operator operand)
        (.unary span type operator operand')
  | binary {spans spans' span type left left' operator right right'} :
      Expression.Misspelt spans left left' → Expression.Misspelt spans' right right' →
      Expression.Misspelt (spans ++ spans') (.binary span type left operator right)
        (.binary span type left' operator right')
  | array {spans span type elements elements'} :
      ArrayAggregate.Misspelt spans elements elements' →
      Expression.Misspelt spans (.array span type elements) (.array span type elements')
  | record {spans span type fields fields'} :
      RecordAggregate.Misspelt spans fields fields' →
      Expression.Misspelt spans (.record span type fields) (.record span type fields')

inductive ArrayAggregate.Misspelt : List Span → ArrayAggregate → ArrayAggregate → Prop
  | one {spans span element element'} :
      Expression.Misspelt spans element element' →
      ArrayAggregate.Misspelt spans (.one span element) (.one span element')
  | more {spans spans' span element element' rest rest'} :
      Expression.Misspelt spans element element' → ArrayAggregate.Misspelt spans' rest rest' →
      ArrayAggregate.Misspelt (spans ++ spans') (.more span element rest)
        (.more span element' rest')

inductive RecordAggregate.Misspelt : List Span → RecordAggregate → RecordAggregate → Prop
  | one {spans span field value value'} :
      Expression.Misspelt spans value value' →
      RecordAggregate.Misspelt spans (.one span field value) (.one span field value')
  | more {spans spans' span field value value' rest rest'} :
      Expression.Misspelt spans value value' → RecordAggregate.Misspelt spans' rest rest' →
      RecordAggregate.Misspelt (spans ++ spans') (.more span field value rest)
        (.more span field value' rest')

inductive Vname.Misspelt : List Span → Vname → Vname → Prop
  | simple {span type isVariable name} :
      Vname.Misspelt [] (.simple span type isVariable name) (.simple span type isVariable name)
  /-- Here a name is misspelt. -/
  | misspelt {span type isVariable name} :
      Vname.Misspelt [name.span] (.simple span type isVariable name)
        (.simple span type isVariable { name with spelling := w })
  | dot {spans span type isVariable record record' field} :
      Vname.Misspelt spans record record' →
      Vname.Misspelt spans (.dot span type isVariable record field)
        (.dot span type isVariable record' field)
  | subscript {spans spans' span type isVariable array array' index index'} :
      Vname.Misspelt spans array array' → Expression.Misspelt spans' index index' →
      Vname.Misspelt (spans ++ spans') (.subscript span type isVariable array index)
        (.subscript span type isVariable array' index')

inductive Declaration.Misspelt : List Span → Declaration → Declaration → Prop
  | const {spans span duplicated name value value'} :
      name.spelling ≠ w → Expression.Misspelt spans value value' →
      Declaration.Misspelt spans (.const span duplicated name value)
        (.const span duplicated name value')
  | var {spans span duplicated name type type'} :
      name.spelling ≠ w → type.Misspelt w spans type' →
      Declaration.Misspelt spans (.var span duplicated name type)
        (.var span duplicated name type')
  | proc {spans spans' span duplicated name parameters parameters' body body'} :
      name.spelling ≠ w → parameters.Misspelt w spans parameters' →
      Command.Misspelt spans' body body' →
      Declaration.Misspelt (spans ++ spans') (.proc span duplicated name parameters body)
        (.proc span duplicated name parameters' body')
  /-- The result is checked before the parameters. -/
  | func {spans spans' spans'' span duplicated name parameters parameters' result result' body
        body'} :
      name.spelling ≠ w → result.Misspelt w spans result' →
      parameters.Misspelt w spans' parameters' → Expression.Misspelt spans'' body body' →
      Declaration.Misspelt (spans ++ (spans' ++ spans''))
        (.func span duplicated name parameters result body)
        (.func span duplicated name parameters' result' body')
  | type {spans span duplicated name type type'} :
      name.spelling ≠ w → type.Misspelt w spans type' →
      Declaration.Misspelt spans (.type span duplicated name type)
        (.type span duplicated name type')
  | sequence {spans spans' span first first' second second'} :
      Declaration.Misspelt spans first first' → Declaration.Misspelt spans' second second' →
      Declaration.Misspelt (spans ++ spans') (.sequence span first second)
        (.sequence span first' second')

inductive Actuals.Misspelt : List Span → Actuals → Actuals → Prop
  | empty {span} : Actuals.Misspelt [] (.empty span) (.empty span)
  | one {spans span first first'} :
      Actual.Misspelt spans first first' →
      Actuals.Misspelt spans (.one span first) (.one span first')
  | more {spans spans' span first first' rest rest'} :
      Actual.Misspelt spans first first' → Actuals.Misspelt spans' rest rest' →
      Actuals.Misspelt (spans ++ spans') (.more span first rest) (.more span first' rest')

inductive Actual.Misspelt : List Span → Actual → Actual → Prop
  | const {spans span value value'} :
      Expression.Misspelt spans value value' →
      Actual.Misspelt spans (.const span value) (.const span value')
  | var {spans span found found'} :
      Vname.Misspelt spans found found' →
      Actual.Misspelt spans (.var span found) (.var span found')
  | proc {span name} : Actual.Misspelt [] (.proc span name) (.proc span name)
  | func {span name} : Actual.Misspelt [] (.func span name) (.func span name)

end

/-- Misspelling leaves the number of elements alone. -/
theorem ArrayAggregate.Misspelt.count_eq {spans : List Span} {elements elements' : ArrayAggregate} :
    ArrayAggregate.Misspelt w spans elements elements' → elements'.count = elements.count := by
  intro h
  cases h with
  | one => rfl
  | more _ hrest => rw [count, count, hrest.count_eq]

end Misspelt

/-- The second program is the first with `w`, which is no standard name either, in place of the
    names at the places. -/
structure Program.Misspelt (w : String) (spans : List Span) (program program' : Program) :
    Prop where
  command  : program.command.Misspelt w spans program'.command
  serials  : program'.serials = program.serials
  standard : ∀ declaration ∈ Standard.declarations, declaration.name ≠ w

/-! ## Errors apart -/

namespace TypeDenoter

/-- The type is `error`, or `error` is nowhere in it. -/
def Whole (type : TypeDenoter) : Prop := type = .error ∨ type.Resolved

theorem Resolved.whole {type : TypeDenoter} (h : type.Resolved) : type.Whole := .inr h

end TypeDenoter

/-- A type that was found satisfies what is found. -/
theorem Finds.of_some {P : TypeDenoter → Prop} {type : TypeDenoter} (h : Finds P (some type)) :
    P type := by
  obtain ⟨_, hmem, hP⟩ := h
  rwa [Option.mem_some.1 hmem]

section Apart

variable (formal : TypeDenoter → Prop) (passing : Prop)

mutual

/-- The types of all expressions are whole, the types of all parameters and results of routines
    satisfy `formal`, and where a routine is passed as a parameter, `passing` holds. -/
def Command.Apart : Command → Prop
  | .empty _ => True
  | .assign _ target value => target.Apart ∧ value.Apart
  | .call _ _ actuals => actuals.Apart
  | .sequence _ first second => first.Apart ∧ second.Apart
  | .letIn _ declaration body => declaration.Apart ∧ body.Apart
  | .ifElse _ condition thenBranch elseBranch =>
    condition.Apart ∧ thenBranch.Apart ∧ elseBranch.Apart
  | .whileDo _ condition body => condition.Apart ∧ body.Apart
  | .repeatUntil _ body condition => body.Apart ∧ condition.Apart
  | .loopWhile _ body condition tail => body.Apart ∧ condition.Apart ∧ tail.Apart

def Expression.Apart : Expression → Prop
  | .integer _ type _ | .character _ type _ => Finds TypeDenoter.Whole type
  | .vname _ type vname => Finds TypeDenoter.Whole type ∧ vname.Apart
  | .call _ type _ actuals => Finds TypeDenoter.Whole type ∧ actuals.Apart
  | .ifElse _ type condition thenBranch elseBranch =>
    Finds TypeDenoter.Whole type ∧ condition.Apart ∧ thenBranch.Apart ∧ elseBranch.Apart
  | .letIn _ type declaration body =>
    Finds TypeDenoter.Whole type ∧ declaration.Apart ∧ body.Apart
  | .unary _ type _ operand => Finds TypeDenoter.Whole type ∧ operand.Apart
  | .binary _ type left _ right => Finds TypeDenoter.Whole type ∧ left.Apart ∧ right.Apart
  | .array _ type elements => Finds TypeDenoter.Whole type ∧ elements.Apart
  | .record _ type fields => Finds TypeDenoter.Whole type ∧ fields.Apart

def ArrayAggregate.Apart : ArrayAggregate → Prop
  | .one _ element => element.Apart
  | .more _ element rest => element.Apart ∧ rest.Apart

def RecordAggregate.Apart : RecordAggregate → Prop
  | .one _ _ value => value.Apart
  | .more _ _ value rest => value.Apart ∧ rest.Apart

def Vname.Apart : Vname → Prop
  | .simple _ type _ _ => Finds TypeDenoter.Whole type
  | .dot _ type _ record _ => Finds TypeDenoter.Whole type ∧ record.Apart
  | .subscript _ type _ array index =>
    Finds TypeDenoter.Whole type ∧ array.Apart ∧ index.Apart

def Declaration.Apart : Declaration → Prop
  | .const _ _ _ value => value.Apart
  | .var .. | .type .. => True
  | .proc _ _ _ formals body => formals.All formal ∧ body.Apart
  | .func _ _ _ formals result body => formals.All formal ∧ formal result ∧ body.Apart
  | .sequence _ first second => first.Apart ∧ second.Apart

def Actuals.Apart : Actuals → Prop
  | .empty _ => True
  | .one _ actual => actual.Apart
  | .more _ actual rest => actual.Apart ∧ rest.Apart

def Actual.Apart : Actual → Prop
  | .const _ value => value.Apart
  | .var _ vname => vname.Apart
  | .proc _ _ | .func _ _ => passing

end

end Apart

/-- The type `error` stands alone wherever it was found. It is in no signature either, unless no
    routine is passed as a parameter. -/
def Program.Apart (program : Program) : Prop :=
  program.command.Apart TypeDenoter.Resolved True ∨
    program.command.Apart TypeDenoter.Whole False

end TriangleTam
