import TriangleTam.Journal
import TriangleTam.Standard
import TriangleTam.Tree

/-! # Contextual analysis

  Checking walks the tree once. It resolves every name by lexical scoping,
  infers and checks every type, and returns the tree decorated with what it
  found, together with all bindings.

  A rule that is broken is reported and checking goes on. The node gets the
  type `error`, which every later check accepts, so that one mistake is
  reported once.
-/

namespace TriangleTam

/-- What checking carries through the tree. -/
structure Checker where
  bindings : Bindings
  scopes   : Scopes
  journal  : Journal
  /-- How many serial numbers were given to type denoters. -/
  serials  : Nat

/-- A step of checking. -/
abbrev Check := StateM Checker

namespace Check

/-! ## Steps -/

def report (cause : SemanticCause) (token : String) (span : Span) : Check Unit :=
  modify fun s => { s with journal := s.journal.report (.ofSemantic cause token span) }

/-- Complain about a name. -/
def reject (cause : SemanticCause) (name : Name) : Check Unit :=
  report cause name.spelling name.span

def openScope : Check Unit := modify fun s => { s with scopes := s.scopes.enclose }

def closeScope : Check Unit := modify fun s => { s with scopes := s.scopes.close }

/-- A serial number for a new type denoter. -/
def newSerial : Check Nat :=
  modifyGet fun s => (s.serials, { s with serials := s.serials + 1 })

/-- What a spelling stands for at this point of the program. -/
def lookup? (spelling : String) : Check (Option (BindingId × BindingKind)) := do
  let s ← get
  return do
    let id ← s.scopes.find? spelling
    let binding ← s.bindings[id]?
    return (id, binding.kind)

/-- Bind a name in the innermost scope. Returns its binding and whether the
    scope had the name already. -/
def bind (name : Name) (kind : BindingKind) : Check (BindingId × Bool) :=
  modifyGet fun s =>
    let (id, bindings) := s.bindings.add name.spelling kind
    let duplicated := s.scopes.declares name.spelling
    ((id, duplicated), { s with bindings, scopes := s.scopes.enter name.spelling id })

/-- Bind a name and complain if the scope had it already. Returns the name
    with its binding. -/
def declare (cause : SemanticCause) (name : Name) (kind : BindingKind) :
    Check (Name × BindingId × Bool) := do
  let (id, duplicated) ← bind name kind
  if duplicated then reject cause name
  return ({ name with binding := some id }, id, duplicated)

/-- Give a binding another kind. -/
def rebind (id : BindingId) (kind : BindingKind) : Check Unit :=
  modify fun s => { s with bindings := s.bindings.update id kind }

def expectBoolean (type : TypeDenoter) (span : Span) : Check Unit := do
  if !type.compatible .boolean then report .booleanExpected "" span

/-! ## Type denoters -/

mutual

/-- Resolve the type identifiers in a denoter. A declared type resolves to the
    denoter of its declaration; arrays and records become new denoters. -/
def typeDenoter : TypeDenoter → Check TypeDenoter
  | .named _ name => do
    match ← lookup? name.spelling with
    | none => reject .undeclared name; return .error
    | some (_, .type type) => return type
    | some _ => reject .notType name; return .error
  | .array _ span length element => do
    if length.value ≤ 0 then report .emptyArray "" length.span
    let element ← typeDenoter element
    return .array (← newSerial) span length element
  | .record _ span fields => do
    let fields ← fieldTypes fields
    return .record (← newSerial) span fields
  | .boolean => return .boolean
  | .character => return .character
  | .integer => return .integer
  | .any => return .any
  | .error => return .error

def fieldTypes : Fields → Check Fields
  | .one span name type => do
    let type ← typeDenoter type
    return .one span name type
  | .more span name type rest => do
    let type ← typeDenoter type
    let rest ← fieldTypes rest
    return .more span name type rest

end

/-! ## Formal parameters -/

mutual

/-- Declare a formal parameter in the innermost scope. -/
def formal : Formal → Check (Formal × FormalShape)
  | .const span _ name type => do
    let type ← typeDenoter type
    let (name, _, duplicated) ← declare .duplicatedFormal name (.const type)
    return (.const span duplicated name type, .const type)
  | .var span _ name type => do
    let type ← typeDenoter type
    let (name, _, duplicated) ← declare .duplicatedFormal name (.var type)
    return (.var span duplicated name type, .var type)
  | .proc span _ name inner => do
    openScope
    let (inner, shapes) ← formals inner
    closeScope
    let (name, _, duplicated) ← declare .duplicatedFormal name (.proc shapes)
    return (.proc span duplicated name inner, .proc shapes)
  | .func span _ name inner result => do
    let result ← typeDenoter result
    openScope
    let (inner, shapes) ← formals inner
    closeScope
    let (name, _, duplicated) ← declare .duplicatedFormal name (.func shapes result)
    return (.func span duplicated name inner result, .func shapes result)

/-- Declare formal parameters in order. -/
def formals : Formals → Check (Formals × Signature)
  | .empty span => return (.empty span, [])
  | .one span first => do
    let (first, shape) ← formal first
    return (.one span first, [shape])
  | .more span first rest => do
    let (first, shape) ← formal first
    let (rest, shapes) ← formals rest
    return (.more span first rest, shape :: shapes)

end

/-! ## Commands, expressions and declarations -/

mutual

def command : Command → Check Command
  | .empty span => return .empty span
  | .assign span target value => do
    let (target, targetType) ← vname target
    let (value, valueType) ← expression value
    if !target.isVariable && !targetType.isError then report .targetNotVariable "" target.span
    if !targetType.compatible valueType then report .assignmentIncompatible "" span
    return .assign span target value
  | .call span callee args => do
    match ← lookup? callee.spelling with
    | none => reject .undeclared callee; return .call span callee args
    | some (id, .proc shapes) =>
      let args ← actuals args shapes
      return .call span { callee with binding := some id } args
    | some _ => reject .notProcedure callee; return .call span callee args
  | .sequence span first second => do
    let first ← command first
    let second ← command second
    return .sequence span first second
  | .letIn span declared body => do
    openScope
    let declared ← declaration declared
    let body ← command body
    closeScope
    return .letIn span declared body
  | .ifElse span condition thenBranch elseBranch => do
    let (condition, type) ← expression condition
    expectBoolean type condition.span
    let thenBranch ← command thenBranch
    let elseBranch ← command elseBranch
    return .ifElse span condition thenBranch elseBranch
  | .whileDo span condition body => do
    let (condition, type) ← expression condition
    expectBoolean type condition.span
    let body ← command body
    return .whileDo span condition body
  | .repeatUntil span body condition => do
    let body ← command body
    let (condition, type) ← expression condition
    expectBoolean type condition.span
    return .repeatUntil span body condition
  | .loopWhile span body condition tail => do
    let body ← command body
    let (condition, type) ← expression condition
    expectBoolean type condition.span
    let tail ← command tail
    return .loopWhile span body condition tail

/-- Check an expression. Returns it with its type, which it also carries. -/
def expression : Expression → Check (Expression × TypeDenoter)
  | .integer span _ literal => return (.integer span (some .integer) literal, .integer)
  | .character span _ literal => return (.character span (some .character) literal, .character)
  | .vname span _ found => do
    let (found, type) ← vname found
    return (.vname span (some type) found, type)
  | .call span _ callee args => do
    match ← lookup? callee.spelling with
    | none => reject .undeclared callee; return (.call span (some .error) callee args, .error)
    | some (id, .func shapes result) =>
      let args ← actuals args shapes
      return (.call span (some result) { callee with binding := some id } args, result)
    | some _ =>
      reject .notFunction callee
      return (.call span (some .error) callee args, .error)
  | .ifElse span _ condition thenBranch elseBranch => do
    let (condition, conditionType) ← expression condition
    expectBoolean conditionType condition.span
    let (thenBranch, thenType) ← expression thenBranch
    let (elseBranch, elseType) ← expression elseBranch
    if !thenType.compatible elseType then report .incompatibleLimbs "" span
    let type := if thenType.isError then elseType else thenType
    return (.ifElse span (some type) condition thenBranch elseBranch, type)
  | .letIn span _ declared body => do
    openScope
    let declared ← declaration declared
    let (body, type) ← expression body
    closeScope
    return (.letIn span (some type) declared body, type)
  | .unary span _ operator operand => do
    let (operand, operandType) ← expression operand
    match ← lookup? operator.spelling with
    | none =>
      reject .undeclared operator
      return (.unary span (some .error) operator operand, .error)
    | some (id, .unary expected result) =>
      let type := if operandType.isError then .error else result
      if !operandType.isError && !expected.compatible operandType then
        reject .wrongOperand operator
      return (.unary span (some type) { operator with binding := some id } operand, type)
    | some _ =>
      reject .notUnaryOperator operator
      return (.unary span (some .error) operator operand, .error)
  | .binary span _ left operator right => do
    let (left, leftType) ← expression left
    let (right, rightType) ← expression right
    match ← lookup? operator.spelling with
    | none =>
      reject .undeclared operator
      return (.binary span (some .error) left operator right, .error)
    | some (id, .binary expectedLeft expectedRight result) =>
      let failed := leftType.isError || rightType.isError
      let type := if failed then .error else result
      if !failed then
        -- an operand of any type has to be of the type of the other
        if expectedLeft.isAny then
          if !leftType.compatible rightType then reject .incompatibleOperands operator
        else if !expectedLeft.compatible leftType || !expectedRight.compatible rightType then
          reject .wrongOperand operator
      return (.binary span (some type) left { operator with binding := some id } right, type)
    | some _ =>
      reject .notBinaryOperator operator
      return (.binary span (some .error) left operator right, .error)
  | .array span _ elements => do
    let count := elements.count
    let (elements, element) ← arrayAggregate elements
    let type := .array (← newSerial) span ⟨Numeral.ofNat count, span⟩ element
    return (.array span (some type) elements, type)
  | .record span _ fields => do
    let (fields, types) ← recordAggregate fields
    let type := .record (← newSerial) span types
    return (.record span (some type) fields, type)

/-- Check the elements of an array. Their type is that of the first. -/
def arrayAggregate : ArrayAggregate → Check (ArrayAggregate × TypeDenoter)
  | .one span element => do
    let (element, type) ← expression element
    return (.one span element, type)
  | .more span element rest => do
    let (element, type) ← expression element
    let (rest, restType) ← arrayAggregate rest
    if !type.compatible restType then report .incompatibleElement "" element.span
    return (.more span element rest, type)

/-- Check the fields of a record. Their names and types make its type. -/
def recordAggregate : RecordAggregate → Check (RecordAggregate × Fields)
  | .one span field value => do
    let (value, type) ← expression value
    return (.one span field value, .one span field type)
  | .more span field value rest => do
    let (value, type) ← expression value
    let (rest, types) ← recordAggregate rest
    if (types.find? field.spelling).isSome then reject .duplicateField field
    return (.more span field value rest, .more span field type types)

/-- Check a value-or-variable name. Returns it with its type. -/
def vname : Vname → Check (Vname × TypeDenoter)
  | .simple span _ _ name => do
    match ← lookup? name.spelling with
    | none => reject .undeclared name; return (.simple span (some .error) false name, .error)
    | some (id, .const type) =>
      return (.simple span (some type) false { name with binding := some id }, type)
    | some (id, .var type) =>
      return (.simple span (some type) true { name with binding := some id }, type)
    | some _ => reject .notConstOrVar name; return (.simple span (some .error) false name, .error)
  | .dot span _ _ record field => do
    let (record, recordType) ← vname record
    let type ← match recordType with
      | .error => pure .error
      | .record _ _ fields =>
        match fields.find? field.spelling with
        | some type => pure type
        | none => do reject .noSuchField field; pure .error
      | _ => do report .recordExpected "" record.span; pure .error
    return (.dot span (some type) record.isVariable record field, type)
  | .subscript span _ _ array index => do
    let (array, arrayType) ← vname array
    let (index, indexType) ← expression index
    let type ← match arrayType with
      | .error => pure .error
      | .array _ _ _ element => do
        if !indexType.compatible .integer then report .integerExpected "" index.span
        pure element
      | _ => do report .arrayExpected "" array.span; pure .error
    return (.subscript span (some type) array.isVariable array index, type)

def declaration : Declaration → Check Declaration
  | .const span _ name value => do
    let (value, type) ← expression value
    let (name, _, duplicated) ← declare .alreadyDeclared name (.const type)
    return .const span duplicated name value
  | .var span _ name type => do
    let type ← typeDenoter type
    let (name, _, duplicated) ← declare .alreadyDeclared name (.var type)
    return .var span duplicated name type
  | .proc span _ name parameters body => do
    -- bound before its parameters are known, so that the body can call it
    let (name, id, duplicated) ← declare .alreadyDeclared name (.proc [])
    openScope
    let (parameters, shapes) ← formals parameters
    rebind id (.proc shapes)
    let body ← command body
    closeScope
    return .proc span duplicated name parameters body
  | .func span _ name parameters result body => do
    let result ← typeDenoter result
    let (name, id, duplicated) ← declare .alreadyDeclared name (.func [] result)
    openScope
    let (parameters, shapes) ← formals parameters
    rebind id (.func shapes result)
    let (body, bodyType) ← expression body
    closeScope
    if !result.compatible bodyType then report .wrongBody name.spelling body.span
    return .func span duplicated name parameters result body
  | .type span _ name type => do
    let type ← typeDenoter type
    let (name, _, duplicated) ← declare .alreadyDeclared name (.type type)
    return .type span duplicated name type
  | .sequence span first second => do
    let first ← declaration first
    let second ← declaration second
    return .sequence span first second

/-- Check actual parameters against the shapes they have to fit. Where the
    numbers differ, the last of the shorter list and all after it are left
    unchecked. -/
def actuals : Actuals → Signature → Check Actuals
  | .empty span, shapes => do
    if !shapes.isEmpty then report .tooFewActuals "" span
    return .empty span
  | .one span first, shapes => do
    match shapes with
    | [shape] =>
      let first ← actual first shape
      return .one span first
    | _ => report .wrongNumberOfActuals "" span; return .one span first
  | .more span first rest, shapes => do
    match shapes with
    | shape :: next :: others =>
      let first ← actual first shape
      let rest ← actuals rest (next :: others)
      return .more span first rest
    | _ => report .tooManyActuals "" span; return .more span first rest

def actual : Actual → FormalShape → Check Actual
  | .const span value, shape => do
    let (value, type) ← expression value
    match shape with
    | .const expected =>
      if !expected.compatible type then report .constWrongType "" span
    | _ => report .constUnexpected "" span
    return .const span value
  | .var span found, shape => do
    let (found, type) ← vname found
    if !found.isVariable && !type.isError then report .actualNotVariable "" found.span
    match shape with
    | .var expected =>
      if !expected.compatible type then report .varWrongType "" span
    | _ => report .varUnexpected "" span
    return .var span found
  | .proc span name, shape => do
    match ← lookup? name.spelling with
    | none => reject .undeclared name; return .proc span name
    | some (id, .proc shapes) =>
      match shape with
      | .proc expected =>
        if !Signature.equivalent expected shapes then
          report .procWrongSignature name.spelling span
      | _ => report .procUnexpected "" span
      return .proc span { name with binding := some id }
    | some _ => reject .notProcedure name; return .proc span name
  | .func span name, shape => do
    match ← lookup? name.spelling with
    | none => reject .undeclared name; return .func span name
    | some (id, .func shapes result) =>
      match shape with
      | .func expected expectedResult =>
        if !Signature.equivalent expected shapes then
          report .funcWrongSignature name.spelling span
        else if !expectedResult.equivalent result then
          report .funcWrongType name.spelling span
      | _ => report .funcUnexpected "" span
      return .func span { name with binding := some id }
    | some _ => reject .notFunction name; return .func span name

end

end Check

/-! ## Programs -/

/-- A checked program, all bindings and the journal. -/
structure Checked where
  program  : Program
  bindings : Bindings
  journal  : Journal

/-- Check a program. -/
def Program.check (program : Program) (journal : Journal) : Checked :=
  let (command, s) :=
    (Check.command program.command).run
      ⟨Standard.bindings, Standard.scopes, journal, program.serials⟩
  { program := { program with command, serials := s.serials }
    bindings := s.bindings
    journal := s.journal.log .debug "contextual analysis finished"
      [("bindings", Numeral.ofNat s.bindings.size)] }

end TriangleTam
