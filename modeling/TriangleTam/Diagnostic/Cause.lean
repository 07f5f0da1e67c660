/-! # Causes of diagnostics

  Everything that a diagnostic can be about, with its wording. In a wording
  `%` stands for the spelling that the diagnostic names.
-/

namespace TriangleTam

/-! ## Syntax -/

/-- Why a token cannot stand at its place. -/
inductive SyntacticCause
  | tokenExpected
  | identifierExpected
  | operatorExpected
  | integerLiteralExpected
  | characterLiteralExpected
  | literalTooLarge
  | noCommand
  | noExpression
  | noDeclaration
  | noFormal
  | noActual
  | noTypeDenoter
  | trailingToken
  deriving DecidableEq, Repr

def SyntacticCause.template : SyntacticCause → String
  | tokenExpected => "\"%\" expected here"
  | identifierExpected => "identifier expected here"
  | operatorExpected => "operator expected here"
  | integerLiteralExpected => "integer literal expected here"
  | characterLiteralExpected => "character literal expected here"
  | literalTooLarge => "integer literal \"%\" is too large"
  | noCommand => "\"%\" cannot start a command"
  | noExpression => "\"%\" cannot start an expression"
  | noDeclaration => "\"%\" cannot start a declaration"
  | noFormal => "\"%\" cannot start a formal parameter"
  | noActual => "\"%\" cannot start an actual parameter"
  | noTypeDenoter => "\"%\" cannot start a type denoter"
  | trailingToken => "\"%\" not expected after end of program"

/-! ## Names, types and parameters -/

/-- Which contextual rule a program breaks. -/
inductive SemanticCause
  -- names
  | undeclared
  | alreadyDeclared
  | duplicatedFormal
  | notProcedure
  | notFunction
  | notConstOrVar
  | notType
  | notUnaryOperator
  | notBinaryOperator
  -- commands
  | targetNotVariable
  | assignmentIncompatible
  | booleanExpected
  -- expressions
  | incompatibleLimbs
  | wrongOperand
  | incompatibleOperands
  | incompatibleElement
  | duplicateField
  | noSuchField
  | recordExpected
  | arrayExpected
  | integerExpected
  -- declarations
  | wrongBody
  | emptyArray
  -- parameters
  | tooFewActuals
  | wrongNumberOfActuals
  | tooManyActuals
  | constWrongType
  | constUnexpected
  | actualNotVariable
  | varWrongType
  | varUnexpected
  | procWrongSignature
  | procUnexpected
  | funcWrongSignature
  | funcWrongType
  | funcUnexpected
  deriving DecidableEq, Repr

def SemanticCause.template : SemanticCause → String
  | undeclared => "\"%\" is not declared"
  | alreadyDeclared => "identifier \"%\" already declared"
  | duplicatedFormal => "duplicated formal parameter \"%\""
  | notProcedure => "\"%\" is not a procedure identifier"
  | notFunction => "\"%\" is not a function identifier"
  | notConstOrVar => "\"%\" is not a const or var identifier"
  | notType => "\"%\" is not a type identifier"
  | notUnaryOperator => "\"%\" is not a unary operator"
  | notBinaryOperator => "\"%\" is not a binary operator"
  | targetNotVariable => "LHS of assignment is not a variable"
  | assignmentIncompatible => "assignment incompatibility"
  | booleanExpected => "Boolean expression expected here"
  | incompatibleLimbs => "incompatible limbs in if-expression"
  | wrongOperand => "wrong argument type for \"%\""
  | incompatibleOperands => "incompatible argument types for \"%\""
  | incompatibleElement => "incompatible array-aggregate element"
  | duplicateField => "duplicate field \"%\" in record"
  | noSuchField => "no field \"%\" in this record type"
  | recordExpected => "record expected here"
  | arrayExpected => "array expected here"
  | integerExpected => "Integer expression expected here"
  | wrongBody => "body of function \"%\" has wrong type"
  | emptyArray => "arrays must not be empty"
  | tooFewActuals => "too few actual parameters"
  | wrongNumberOfActuals => "incorrect number of actual parameters"
  | tooManyActuals => "too many actual parameters"
  | constWrongType => "wrong type for const actual parameter"
  | constUnexpected => "const actual parameter not expected here"
  | actualNotVariable => "actual parameter is not a variable"
  | varWrongType => "wrong type for var actual parameter"
  | varUnexpected => "var actual parameter not expected here"
  | procWrongSignature => "wrong signature for procedure \"%\""
  | procUnexpected => "proc actual parameter not expected here"
  | funcWrongSignature => "wrong signature for function \"%\""
  | funcWrongType => "wrong type for function \"%\""
  | funcUnexpected => "func actual parameter not expected here"

/-! ## Limits of the machine -/

/-- Which limit of the machine a program exceeds. -/
inductive Limit
  | operandLength
  | loadLength
  | storeLength
  | codeStore
  | word
  | routineNesting
  | displayReach
  deriving DecidableEq, Repr

def Limit.message : Limit → String
  | operandLength => "length of operand can't exceed 255 words"
  | loadLength => "can't load values larger than 255 words"
  | storeLength => "can't store values larger than 255 words"
  | codeStore => "too many instructions for code segment"
  | word => "data too large to address"
  | routineNesting => "can't nest routines more than 7 deep"
  | displayReach => "can't access data more than 6 levels out"

/-! ## Faults of the compiler -/

/-- What code generation misses in a tree that was not checked well. -/
inductive InternalCause
  | uncheckedDeclaration
  | noEntity
  | untyped
  | noFieldLayout
  deriving DecidableEq, Repr

def InternalCause.template : InternalCause → String
  | uncheckedDeclaration => "declaration of \"%\" was never checked"
  | noEntity => "no run-time entity for \"%\""
  | untyped => "expression has no type"
  | noFieldLayout => "no field \"%\" laid out"

end TriangleTam
