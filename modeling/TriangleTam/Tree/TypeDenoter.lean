import TriangleTam.Machine
import TriangleTam.Span

/-! # Names, literals and type denoters

  The leaves of the tree, and the denoters of types. A written denoter of an
  array or record type carries a **serial number**: the pass that makes the
  denoter gives it a new one, and a use of a declared type is the very denoter
  of its declaration, serial included. Whatever is recorded once for each
  denoter is recorded by serial.

  Because uses share the denoter of a declaration, a short program can denote
  a type whose tree is huge:

      type T1 ~ record a: T0, b: T0 end; type T2 ~ record a: T1, b: T1 end; ...

  So a denoter keeps the **size** of its values, computed from its parts when
  it is made, and asking for it walks no tree. Sizes saturate at the greatest
  word. What stands for no type has size zero.
-/

namespace TriangleTam

/-- Bindings are numbered in the order of their creation. -/
abbrev BindingId := Nat

/-- An identifier or operator at one place of the text. Where it introduces a
    binding or stands for one, checking records which. -/
structure Name where
  spelling : String
  span     : Span
  binding  : Option BindingId := none
  deriving DecidableEq, Repr

/-! ## Literals -/

/-- An integer as it is written. -/
structure IntegerLiteral where
  spelling : String
  span     : Span
  deriving DecidableEq, Repr

/-- The word the literal stands for. Parsing lets no other literal into a tree;
    elsewhere a spelling of no word counts as zero. -/
def IntegerLiteral.value (literal : IntegerLiteral) : Int :=
  (Numeral.toWord? literal.spelling).getD 0

/-- A character literal is spelled with its quotes. -/
structure CharacterLiteral where
  spelling : String
  span     : Span
  deriving DecidableEq, Repr

/-- The code point of the character after the opening quote. -/
def CharacterLiteral.value (literal : CharacterLiteral) : Int :=
  match literal.spelling.toList with
  | _ :: c :: _ => c.toNat
  | _ => 0

/-! ## Type denoters -/

mutual

/-- What denotes a type: a standard type, a name, an array or a record. -/
inductive TypeDenoter
  | boolean
  | character
  | integer
  /-- The operand type of `=` and `\=`, which compare values of any one type. -/
  | any
  /-- The type of what failed its checks. -/
  | error
  /-- A type identifier that is not resolved yet. -/
  | named (span : Span) (name : Name)
  | array (serial : Nat) (span : Span) (length : IntegerLiteral) (element : TypeDenoter)
  | record (serial : Nat) (span : Span) (fields : Fields)
with
  /-- The words of a value of the type. -/
  @[computed_field] size : TypeDenoter → Int
    | .boolean | .character | .integer => Machine.scalarSize
    | .any | .error | .named .. => 0
    | .array _ _ length element => Word.clamp (length.value * element.size)
    | .record _ _ fields => fields.extent 0

/-- The fields of a record type, at least one. -/
inductive Fields
  | one (span : Span) (name : Name) (type : TypeDenoter)
  | more (span : Span) (name : Name) (type : TypeDenoter) (rest : Fields)
with
  /-- Where the fields end when the first of them starts at an offset. -/
  @[computed_field] extent : Fields → Int → Int
    | .one _ _ type => fun offset => Word.clamp (offset + type.size)
    | .more _ _ type rest => fun offset => rest.extent (Word.clamp (offset + type.size))

end

instance : Inhabited TypeDenoter := ⟨.error⟩

/-! ## Text of a type -/

mutual

/-- A type as it is written in a program; the two types that no program can
    write are bracketed. -/
def TypeDenoter.text : TypeDenoter → String
  | .boolean => "Boolean"
  | .character => "Char"
  | .integer => "Integer"
  | .any => "<any>"
  | .error => "<error>"
  | .named _ name => name.spelling
  | .array _ _ length element => "array " ++ length.spelling ++ " of " ++ element.text
  | .record _ _ fields => "record " ++ fields.text ++ " end"

def Fields.text : Fields → String
  | .one _ name type => name.spelling ++ ": " ++ type.text
  | .more _ name type rest => name.spelling ++ ": " ++ type.text ++ ", " ++ rest.text

end

/-! ## Equivalence -/

mutual

/-- Structural equality of types. `error` and `any` are equivalent to nothing,
    not even to themselves. -/
def TypeDenoter.equivalent : TypeDenoter → TypeDenoter → Bool
  | .boolean, .boolean => true
  | .character, .character => true
  | .integer, .integer => true
  | .named _ name, .named _ name' => name.spelling == name'.spelling
  | .array _ _ length element, .array _ _ length' element' =>
    length.value == length'.value && element.equivalent element'
  | .record _ _ fields, .record _ _ fields' => fields.equivalent fields'
  | _, _ => false

/-- The same field names and equivalent types, in the same order. -/
def Fields.equivalent : Fields → Fields → Bool
  | .one _ name type, .one _ name' type' =>
    name.spelling == name'.spelling && type.equivalent type'
  | .more _ name type rest, .more _ name' type' rest' =>
    name.spelling == name'.spelling && type.equivalent type' && rest.equivalent rest'
  | _, _ => false

end

namespace TypeDenoter

def isError : TypeDenoter → Bool
  | .error => true
  | _ => false

def isAny : TypeDenoter → Bool
  | .any => true
  | _ => false

/-- A value of either type may stand where the other is expected. What failed
    its checks may stand anywhere, so that one mistake is reported once. -/
def compatible (a b : TypeDenoter) : Bool := a.isError || b.isError || a.equivalent b

end TypeDenoter

/-! ## Fields -/

namespace Fields

/-- The type of the first field called `name`. -/
def find? (name : String) : Fields → Option TypeDenoter
  | .one _ field type => if field.spelling = name then some type else none
  | .more _ field type rest => if field.spelling = name then some type else rest.find? name

end Fields

/-- The type of the field called `name`, in a record type that has one. -/
def TypeDenoter.field? (name : String) : TypeDenoter → Option TypeDenoter
  | .record _ _ fields => fields.find? name
  | _ => none

end TriangleTam
