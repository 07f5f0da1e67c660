import TriangleTam.Binding
import TriangleTam.Machine
import TriangleTam.Scope

/-! # The standard environment

  The types, constants, operators and routines that every program may use.
  Each **standard declaration** has a shape, from which its binding is made,
  and a representation on the machine. The binding of the `i`-th standard
  declaration is the `i`-th binding of every compilation.
-/

namespace TriangleTam

namespace Standard

/-! ## Shapes -/

/-- The types that standard declarations are about. -/
inductive Scalar
  | boolean | character | integer | any
  deriving DecidableEq, Repr

def Scalar.denoter : Scalar → TypeDenoter
  | boolean => .boolean
  | character => .character
  | integer => .integer
  | any => .any

/-- A parameter of a standard routine. -/
inductive Parameter
  | const (type : Scalar)
  | var (type : Scalar)
  deriving DecidableEq, Repr

def Parameter.shape : Parameter → FormalShape
  | const type => .const type.denoter
  | var type => .var type.denoter

/-- What a standard declaration declares. -/
inductive Shape
  | type (type : Scalar)
  | const (type : Scalar)
  | unary (operand result : Scalar)
  | binary (left right result : Scalar)
  | proc (formals : List Parameter)
  | func (formals : List Parameter) (result : Scalar)
  deriving DecidableEq, Repr

def Shape.kind : Shape → BindingKind
  | .type scalar => .type scalar.denoter
  | .const scalar => .const scalar.denoter
  | .unary operand result => .unary operand.denoter result.denoter
  | .binary left right result => .binary left.denoter right.denoter result.denoter
  | .proc formals => .proc (formals.map Parameter.shape)
  | .func formals result => .func (formals.map Parameter.shape) result.denoter

/-! ## Representations -/

/-- How a standard declaration is represented on the machine. -/
inductive Representation
  | type
  | value (value : Int)
  | primitive (primitive : Primitive)
  /-- A primitive that takes the size of its operands as a third argument. -/
  | equality (primitive : Primitive)
  /-- The operator `|`. -/
  | bar
  deriving DecidableEq, Repr

end Standard

/-! ## Declarations -/

/-- A name of the standard environment, what it declares, and how that is
    represented. -/
structure StandardDeclaration where
  name           : String
  shape          : Standard.Shape
  representation : Standard.Representation
  deriving DecidableEq, Repr

namespace Standard

/-- The standard environment. -/
def declarations : List StandardDeclaration :=
  [ -- types
   ⟨"Boolean", .type .boolean, .type⟩,
   ⟨"Char", .type .character, .type⟩,
   ⟨"Integer", .type .integer, .type⟩,
   -- constants
   ⟨"false", .const .boolean, .value Machine.falseRep⟩,
   ⟨"true", .const .boolean, .value Machine.trueRep⟩,
   ⟨"maxint", .const .integer, .value Machine.maxint⟩,
   -- unary operators
   ⟨"\\", .unary .boolean .boolean, .primitive .not⟩,
   ⟨"|", .unary .integer .integer, .bar⟩,
   -- binary operators
   ⟨"/\\", .binary .boolean .boolean .boolean, .primitive .and⟩,
   ⟨"\\/", .binary .boolean .boolean .boolean, .primitive .or⟩,
   ⟨"+", .binary .integer .integer .integer, .primitive .add⟩,
   ⟨"-", .binary .integer .integer .integer, .primitive .sub⟩,
   ⟨"*", .binary .integer .integer .integer, .primitive .mult⟩,
   ⟨"/", .binary .integer .integer .integer, .primitive .div⟩,
   ⟨"//", .binary .integer .integer .integer, .primitive .mod⟩,
   ⟨"<", .binary .integer .integer .boolean, .primitive .lt⟩,
   ⟨"<=", .binary .integer .integer .boolean, .primitive .le⟩,
   ⟨">", .binary .integer .integer .boolean, .primitive .gt⟩,
   ⟨">=", .binary .integer .integer .boolean, .primitive .ge⟩,
   ⟨"=", .binary .any .any .boolean, .equality .eq⟩,
   ⟨"\\=", .binary .any .any .boolean, .equality .ne⟩,
   -- routines
   ⟨"chr", .func [.const .integer] .character, .primitive .id⟩,
   ⟨"ord", .func [.const .character] .integer, .primitive .id⟩,
   ⟨"eof", .func [] .boolean, .primitive .eof⟩,
   ⟨"eol", .func [] .boolean, .primitive .eol⟩,
   ⟨"get", .proc [.var .character], .primitive .get⟩,
   ⟨"put", .proc [.const .character], .primitive .put⟩,
   ⟨"getint", .proc [.var .integer], .primitive .getint⟩,
   ⟨"putint", .proc [.const .integer], .primitive .putint⟩,
   ⟨"geteol", .proc [], .primitive .geteol⟩,
   ⟨"puteol", .proc [], .primitive .puteol⟩]

/-- The bindings that every compilation starts with. -/
def bindings : Bindings :=
  (declarations.map fun declaration => ⟨declaration.name, declaration.shape.kind⟩).toArray

/-- The scope that every compilation starts with. -/
def scopes : Scopes :=
  declarations.zipIdx.foldl (fun scopes (declaration, id) => scopes.enter declaration.name id)
    .empty

/-- The standard declaration of a binding. -/
def declaration? (id : BindingId) : Option StandardDeclaration := declarations[id]?

/-- The primitive of a standard operator on integers whose result is an
    integer. It is found by binding, so a new declaration of the operator's
    spelling has none. -/
def arithmetic? (id : BindingId) : Option Primitive :=
  match declaration? id with
  | some ⟨_, .binary .integer .integer .integer, .primitive primitive⟩ => some primitive
  | _ => none

end Standard

end TriangleTam
