import TriangleTam.Journal
import TriangleTam.Standard
import TriangleTam.Tree

/-! # Constant folding

  Folding replaces integer arithmetic on literals by its value. Only the
  standard operators `+ - * / //` fold, and they are known by their bindings:
  a program that declares an operator of the same spelling keeps its own.

  What the machine could not compute stays as it is, so that it fails at run
  time: division by zero, and values beyond `maxint` in either direction.
-/

namespace TriangleTam

/-! ## Arithmetic -/

/-- The exact value of an arithmetic primitive: division truncates, and a
    remainder has the sign of the dividend. Other primitives have no value. -/
def Primitive.result? (primitive : Primitive) (a b : Int) : Option Int :=
  match primitive with
  | .add => some (a + b)
  | .sub => some (a - b)
  | .mult => some (a * b)
  | .div => if b = 0 then none else some (a.tdiv b)
  | .mod => if b = 0 then none else some (a.tmod b)
  | _ => none

/-- The value of an arithmetic primitive, if the machine has it. -/
def Primitive.evaluate? (primitive : Primitive) (a b : Int) : Option Int :=
  (primitive.result? a b).filter fun value => -Machine.maxint ≤ value ∧ value ≤ Machine.maxint

/-- Counts the operations folded. -/
abbrev Fold := StateM Nat

namespace Fold

/-- The value of an operation on two literals that can be folded. -/
def value? (left : Expression) (operator : Name) (right : Expression) : Option Int := do
  let a ← left.integerValue?
  let b ← right.integerValue?
  let primitive ← operator.binding >>= Standard.arithmetic?
  primitive.evaluate? a b

/-- The literal of a value, in place of an expression at `span`. -/
def literal (span : Span) (value : Int) : Expression :=
  .integer span (some .integer) ⟨Numeral.ofInt value, span⟩

/-! ## Trees -/

mutual

def command : Command → Fold Command
  | .empty span => return .empty span
  | .assign span target value => do
    let target ← vname target
    let value ← expression value
    return .assign span target value
  | .call span callee args => do
    let args ← actuals args
    return .call span callee args
  | .sequence span first second => do
    let first ← command first
    let second ← command second
    return .sequence span first second
  | .letIn span declared body => do
    let declared ← declaration declared
    let body ← command body
    return .letIn span declared body
  | .ifElse span condition thenBranch elseBranch => do
    let condition ← expression condition
    let thenBranch ← command thenBranch
    let elseBranch ← command elseBranch
    return .ifElse span condition thenBranch elseBranch
  | .whileDo span condition body => do
    let condition ← expression condition
    let body ← command body
    return .whileDo span condition body
  | .repeatUntil span body condition => do
    let condition ← expression condition
    let body ← command body
    return .repeatUntil span body condition
  | .loopWhile span body condition tail => do
    let body ← command body
    let condition ← expression condition
    let tail ← command tail
    return .loopWhile span body condition tail

/-- Fold inside an expression, then the expression itself. -/
def expression : Expression → Fold Expression
  | .integer span type literal => return .integer span type literal
  | .character span type literal => return .character span type literal
  | .vname span type found => do
    let found ← vname found
    return .vname span type found
  | .call span type callee args => do
    let args ← actuals args
    return .call span type callee args
  | .ifElse span type condition thenBranch elseBranch => do
    let condition ← expression condition
    let thenBranch ← expression thenBranch
    let elseBranch ← expression elseBranch
    return .ifElse span type condition thenBranch elseBranch
  | .letIn span type declared body => do
    let declared ← declaration declared
    let body ← expression body
    return .letIn span type declared body
  | .unary span type operator operand => do
    let operand ← expression operand
    return .unary span type operator operand
  | .binary span type left operator right => do
    let left ← expression left
    let right ← expression right
    match value? left operator right with
    | some value => do
      modify fun count => count + 1
      return literal left.span value
    | none => return .binary span type left operator right
  | .array span type elements => do
    let elements ← arrayAggregate elements
    return .array span type elements
  | .record span type fields => do
    let fields ← recordAggregate fields
    return .record span type fields

def arrayAggregate : ArrayAggregate → Fold ArrayAggregate
  | .one span element => do
    let element ← expression element
    return .one span element
  | .more span element rest => do
    let element ← expression element
    let rest ← arrayAggregate rest
    return .more span element rest

def recordAggregate : RecordAggregate → Fold RecordAggregate
  | .one span field value => do
    let value ← expression value
    return .one span field value
  | .more span field value rest => do
    let value ← expression value
    let rest ← recordAggregate rest
    return .more span field value rest

def vname : Vname → Fold Vname
  | .simple span type isVariable name => return .simple span type isVariable name
  | .dot span type isVariable record field => do
    let record ← vname record
    return .dot span type isVariable record field
  | .subscript span type isVariable array index => do
    let array ← vname array
    let index ← expression index
    return .subscript span type isVariable array index

def declaration : Declaration → Fold Declaration
  | .const span duplicated name value => do
    let value ← expression value
    return .const span duplicated name value
  | .var span duplicated name type => return .var span duplicated name type
  | .proc span duplicated name parameters body => do
    let body ← command body
    return .proc span duplicated name parameters body
  | .func span duplicated name parameters result body => do
    let body ← expression body
    return .func span duplicated name parameters result body
  | .type span duplicated name type => return .type span duplicated name type
  | .sequence span first second => do
    let first ← declaration first
    let second ← declaration second
    return .sequence span first second

def actuals : Actuals → Fold Actuals
  | .empty span => return .empty span
  | .one span first => do
    let first ← actual first
    return .one span first
  | .more span first rest => do
    let first ← actual first
    let rest ← actuals rest
    return .more span first rest

def actual : Actual → Fold Actual
  | .const span value => do
    let value ← expression value
    return .const span value
  | .var span found => do
    let found ← vname found
    return .var span found
  | .proc span name => return .proc span name
  | .func span name => return .func span name

end

end Fold

/-! ## Programs -/

/-- A folded program and how many operations were folded. -/
structure Folded where
  program : Program
  folds   : Nat
  journal : Journal

/-- Fold a program. -/
def Program.fold (program : Program) (journal : Journal) : Folded :=
  let (command, folds) := (Fold.command program.command).run 0
  { program := { program with command }
    folds
    journal := journal.log .debug "constant folding finished" [("folds", Numeral.ofNat folds)] }

end TriangleTam
