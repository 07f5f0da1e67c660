import TriangleTam.Tree.TypeDenoter

/-! # Bindings

  What names stand for. Checking creates a **binding** for each declaration
  and formal parameter and numbers them in order, the standard bindings
  first.
-/

namespace TriangleTam

/-! ## Shapes of parameters -/

/-- What a formal parameter accepts. -/
inductive FormalShape
  | const (type : TypeDenoter)
  | var (type : TypeDenoter)
  | proc (formals : List FormalShape)
  | func (formals : List FormalShape) (result : TypeDenoter)

/-- The shapes of the formal parameters of a routine. -/
abbrev Signature := List FormalShape

mutual

/-- Parameters of the same mode with equivalent types or signatures. -/
def FormalShape.equivalent : FormalShape → FormalShape → Bool
  | .const type, .const type' => type.equivalent type'
  | .var type, .var type' => type.equivalent type'
  | .proc formals, .proc formals' => Signature.equivalent formals formals'
  | .func formals result, .func formals' result' =>
    Signature.equivalent formals formals' && result.equivalent result'
  | _, _ => false

/-- As many parameters, equivalent one by one. -/
def Signature.equivalent : List FormalShape → List FormalShape → Bool
  | [], [] => true
  | formal :: others, formal' :: others' =>
    formal.equivalent formal' && Signature.equivalent others others'
  | _, _ => false

end

mutual

def FormalShape.text : FormalShape → String
  | .const type => "const " ++ type.text
  | .var type => "var " ++ type.text
  | .proc formals => "proc(" ++ Signature.text formals ++ ")"
  | .func formals result => "func(" ++ Signature.text formals ++ "): " ++ result.text

def Signature.text : List FormalShape → String
  | [] => ""
  | [formal] => formal.text
  | formal :: others => formal.text ++ ", " ++ Signature.text others

end

/-! ## Bindings -/

/-- What a name stands for. -/
inductive BindingKind
  /-- A constant declaration or parameter. -/
  | const (type : TypeDenoter)
  /-- A variable declaration or parameter. -/
  | var (type : TypeDenoter)
  | proc (formals : Signature)
  | func (formals : Signature) (result : TypeDenoter)
  | type (type : TypeDenoter)
  | unary (operand result : TypeDenoter)
  | binary (left right result : TypeDenoter)

namespace BindingKind

def text : BindingKind → String
  | .const denoter => "constant " ++ denoter.text
  | .var denoter => "variable " ++ denoter.text
  | .proc formals => "procedure(" ++ Signature.text formals ++ ")"
  | .func formals result => "function(" ++ Signature.text formals ++ "): " ++ result.text
  | .type denoter => "type " ++ denoter.text
  | .unary operand result => "unary " ++ operand.text ++ " -> " ++ result.text
  | .binary left right result =>
    "binary " ++ left.text ++ ", " ++ right.text ++ " -> " ++ result.text

end BindingKind

/-- A name and what it stands for. -/
structure Binding where
  spelling : String
  kind     : BindingKind

/-- All bindings of a compilation. A binding's number is its place. -/
abbrev Bindings := Array Binding

namespace Bindings

/-- The bindings with one more, and its number. -/
def add (bindings : Bindings) (spelling : String) (kind : BindingKind) : BindingId × Bindings :=
  (bindings.size, bindings.push ⟨spelling, kind⟩)

/-- The bindings with another kind for the binding `id`. -/
def update (bindings : Bindings) (id : BindingId) (kind : BindingKind) : Bindings :=
  bindings.modify id fun binding => { binding with kind }

end Bindings

end TriangleTam
