import TriangleTam.Tree.TypeDenoter

/-! # Program trees

  The tree of a program, with the decorations that checking fills in: the
  binding of each name, the type of each expression and value-or-variable
  name, whether the latter denotes a variable, and whether a declaration
  repeats a name of its scope. A parsed tree has none of them.

  Grouping brackets of the text leave no node in the tree. Chains of commands
  and declarations lean to the left; lists of parameters, elements and fields
  lean to the right, and each rest of a list has a span of its own.
-/

namespace TriangleTam

/-! ## Formal parameters -/

mutual

/-- A formal parameter of a routine. -/
inductive Formal
  /-- A value parameter, written `x: T`. -/
  | const (span : Span) (duplicated : Bool) (name : Name) (type : TypeDenoter)
  /-- A variable parameter, written `var x: T`. -/
  | var (span : Span) (duplicated : Bool) (name : Name) (type : TypeDenoter)
  /-- A procedure parameter, written `proc p(FS)`. -/
  | proc (span : Span) (duplicated : Bool) (name : Name) (formals : Formals)
  /-- A function parameter, written `func f(FS): T`. -/
  | func (span : Span) (duplicated : Bool) (name : Name) (formals : Formals)
      (result : TypeDenoter)

/-- The formal parameters of a routine, in order. -/
inductive Formals
  | empty (span : Span)
  | one (span : Span) (formal : Formal)
  | more (span : Span) (formal : Formal) (rest : Formals)

end

/-! ## Commands, expressions and declarations -/

mutual

/-- What a program does: commands change variables and have no value. -/
inductive Command
  | empty (span : Span)
  | assign (span : Span) (target : Vname) (value : Expression)
  | call (span : Span) (callee : Name) (actuals : Actuals)
  | sequence (span : Span) (first second : Command)
  | letIn (span : Span) (declaration : Declaration) (body : Command)
  | ifElse (span : Span) (condition : Expression) (thenBranch elseBranch : Command)
  | whileDo (span : Span) (condition : Expression) (body : Command)
  | repeatUntil (span : Span) (body : Command) (condition : Expression)
  /-- The loop `loop C1 while E do C2`, with its test in the middle. -/
  | loopWhile (span : Span) (body : Command) (condition : Expression) (tail : Command)

/-- What has a value. -/
inductive Expression
  | integer (span : Span) (type : Option TypeDenoter) (literal : IntegerLiteral)
  | character (span : Span) (type : Option TypeDenoter) (literal : CharacterLiteral)
  | vname (span : Span) (type : Option TypeDenoter) (vname : Vname)
  | call (span : Span) (type : Option TypeDenoter) (callee : Name) (actuals : Actuals)
  | ifElse (span : Span) (type : Option TypeDenoter)
      (condition thenBranch elseBranch : Expression)
  | letIn (span : Span) (type : Option TypeDenoter) (declaration : Declaration)
      (body : Expression)
  | unary (span : Span) (type : Option TypeDenoter) (operator : Name) (operand : Expression)
  | binary (span : Span) (type : Option TypeDenoter) (left : Expression) (operator : Name)
      (right : Expression)
  | array (span : Span) (type : Option TypeDenoter) (elements : ArrayAggregate)
  | record (span : Span) (type : Option TypeDenoter) (fields : RecordAggregate)

/-- The elements of an array value, written between brackets. -/
inductive ArrayAggregate
  | one (span : Span) (element : Expression)
  | more (span : Span) (element : Expression) (rest : ArrayAggregate)

/-- The fields of a record value, written between braces. -/
inductive RecordAggregate
  | one (span : Span) (field : Name) (value : Expression)
  | more (span : Span) (field : Name) (value : Expression) (rest : RecordAggregate)

/-- A value-or-variable name: a constant or a variable, a field of one, or an
    element of one. -/
inductive Vname
  | simple (span : Span) (type : Option TypeDenoter) (isVariable : Bool) (name : Name)
  | dot (span : Span) (type : Option TypeDenoter) (isVariable : Bool) (record : Vname)
      (field : Name)
  | subscript (span : Span) (type : Option TypeDenoter) (isVariable : Bool) (array : Vname)
      (index : Expression)

/-- What introduces names. -/
inductive Declaration
  | const (span : Span) (duplicated : Bool) (name : Name) (value : Expression)
  | var (span : Span) (duplicated : Bool) (name : Name) (type : TypeDenoter)
  | proc (span : Span) (duplicated : Bool) (name : Name) (formals : Formals) (body : Command)
  | func (span : Span) (duplicated : Bool) (name : Name) (formals : Formals)
      (result : TypeDenoter) (body : Expression)
  | type (span : Span) (duplicated : Bool) (name : Name) (type : TypeDenoter)
  | sequence (span : Span) (first second : Declaration)

/-- An actual parameter. Its mode is written in front, but for a value. -/
inductive Actual
  | const (span : Span) (value : Expression)
  | var (span : Span) (vname : Vname)
  | proc (span : Span) (name : Name)
  | func (span : Span) (name : Name)

/-- The actual parameters of a call, in order. -/
inductive Actuals
  | empty (span : Span)
  | one (span : Span) (actual : Actual)
  | more (span : Span) (actual : Actual) (rest : Actuals)

end

/-- A whole program. -/
structure Program where
  command : Command
  span    : Span
  /-- How many serial numbers were given to its type denoters so far. -/
  serials : Nat

/-! ## Parts of nodes -/

namespace Formal

def name : Formal → Name
  | const _ _ name _ | var _ _ name _ | proc _ _ name _ | func _ _ name _ _ => name

end Formal

namespace Command

def span : Command → Span
  | empty span | assign span .. | call span .. | sequence span .. | letIn span ..
  | ifElse span .. | whileDo span .. | repeatUntil span .. | loopWhile span .. => span

end Command

namespace Expression

def span : Expression → Span
  | integer span .. | character span .. | vname span .. | call span .. | ifElse span ..
  | letIn span .. | unary span .. | binary span .. | array span .. | record span .. => span

/-- The type that checking found, if it has run. -/
def type : Expression → Option TypeDenoter
  | integer _ type .. | character _ type .. | vname _ type .. | call _ type ..
  | ifElse _ type .. | letIn _ type .. | unary _ type .. | binary _ type ..
  | array _ type .. | record _ type .. => type

/-- The value of an integer literal. -/
def integerValue? : Expression → Option Int
  | integer _ _ literal => some literal.value
  | _ => none

/-- The value of an integer or character literal. -/
def literalValue? : Expression → Option Int
  | integer _ _ literal => some literal.value
  | character _ _ literal => some literal.value
  | _ => none

end Expression

namespace Vname

def span : Vname → Span
  | simple span .. | dot span .. | subscript span .. => span

def type : Vname → Option TypeDenoter
  | simple _ type .. | dot _ type .. | subscript _ type .. => type

def isVariable : Vname → Bool
  | simple _ _ isVariable _ | dot _ _ isVariable .. | subscript _ _ isVariable .. => isVariable

end Vname

namespace Actual

def span : Actual → Span
  | const span _ | var span _ | proc span _ | func span _ => span

end Actual

namespace ArrayAggregate

/-- How many elements the aggregate lists. -/
def count : ArrayAggregate → Nat
  | one .. => 1
  | more _ _ rest => rest.count + 1

end ArrayAggregate

end TriangleTam
