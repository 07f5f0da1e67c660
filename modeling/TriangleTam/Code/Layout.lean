import Std.Data.TreeSet.Lemmas
import TriangleTam.Code.Entity
import TriangleTam.Tree.TypeDenoter

/-! # Layout of types

  Where the fields of a record stand, and which types are laid out.

  A denoter is **laid out** once: the first time its size is asked for, after
  its parts. What is laid out is on record, by the serial of the denoter, and
  the first time may show that a size is no word. Types that stand for
  nothing have size zero and are never laid out.
-/

namespace TriangleTam

/-! ## Offsets -/

/-- The offset of the first field called `name`, when the fields start at
    `offset`. -/
def Fields.offset? (name : String) (offset : Int) : Fields → Option Int
  | .one _ field _ => if field.spelling = name then some offset else none
  | .more _ field type rest =>
    if field.spelling = name then some offset
    else rest.offset? name (Word.clamp (offset + type.size))

/-- The offset of the field called `name`, in a record type that has one. -/
def TypeDenoter.fieldOffset? (name : String) : TypeDenoter → Option Int
  | .record _ _ fields => fields.offset? name 0
  | _ => none

/-- The entity of a type that is laid out. -/
def TypeDenoter.entity (type : TypeDenoter) : Entity := .typeRepresentation type.size

/-! ## The record of layouts -/

/-- What the layout of a denoter is recorded by. -/
inductive LayoutKey
  | boolean | character | integer
  | written (serial : Nat)
  deriving DecidableEq, Repr

/-- The denoters that are laid out. -/
structure Layouts where
  boolean   : Bool := false
  character : Bool := false
  integer   : Bool := false
  /-- The serials of the written denoters. -/
  serials   : Std.TreeSet Nat := ∅

namespace Layouts

def empty : Layouts := {}

def contains (layouts : Layouts) : LayoutKey → Bool
  | .boolean => layouts.boolean
  | .character => layouts.character
  | .integer => layouts.integer
  | .written serial => layouts.serials.contains serial

/-- The layouts with one more denoter on record. -/
def insert (layouts : Layouts) : LayoutKey → Layouts
  | .boolean => { layouts with boolean := true }
  | .character => { layouts with character := true }
  | .integer => { layouts with integer := true }
  | .written serial => { layouts with serials := layouts.serials.insert serial }

@[simp] theorem contains_empty (key : LayoutKey) : empty.contains key = false := by
  cases key <;> simp [empty, contains]

@[simp] theorem contains_insert (layouts : Layouts) (key key' : LayoutKey) :
    (layouts.insert key).contains key' = (decide (key = key') || layouts.contains key') := by
  cases key <;> cases key' <;>
    simp [insert, contains, Std.TreeSet.contains_insert, Bool.beq_eq_decide_eq]

/-- The layouts that outlive a program: those of the standard types. -/
def standard (layouts : Layouts) : Layouts := { layouts with serials := ∅ }

/-- No written denoter outlives its program. -/
theorem contains_standard (layouts : Layouts) (serial : Nat) :
    layouts.standard.contains (.written serial) = false := by
  simp [standard, contains]

end Layouts

/-- The key of a type that can be laid out. -/
def TypeDenoter.layoutKey? : TypeDenoter → Option LayoutKey
  | .boolean => some .boolean
  | .character => some .character
  | .integer => some .integer
  | .any | .error | .named .. => none
  | .array serial .. | .record serial .. => some (.written serial)

/-- The entity of a type, if it is laid out. -/
def Layouts.entity? (layouts : Layouts) (type : TypeDenoter) : Option Entity :=
  match type.layoutKey? with
  | some key => if layouts.contains key then some type.entity else none
  | none => none

/-! ## Laying out -/

/-- Layouts while a type is being laid out. -/
structure LayingOut where
  layouts    : Layouts
  /-- The denoters laid out on the way, in order. -/
  added      : Array TypeDenoter := #[]
  /-- A size met on the way is no word. -/
  outOfRange : Bool := false

namespace LayingOut

/-- Note that the size `n` was met. -/
def meet (s : LayingOut) (n : Int) : LayingOut :=
  if Word.Fits n then s else { s with outOfRange := true }

/-- Put a denoter on record. -/
def add (s : LayingOut) (key : LayoutKey) (type : TypeDenoter) : LayingOut :=
  { s with layouts := s.layouts.insert key, added := s.added.push type }

end LayingOut

mutual

/-- Lay out a type, unless it is on record. -/
def TypeDenoter.layOut (type : TypeDenoter) (s : LayingOut) : LayingOut :=
  match type with
  | .boolean => if s.layouts.contains .boolean then s else s.add .boolean .boolean
  | .character => if s.layouts.contains .character then s else s.add .character .character
  | .integer => if s.layouts.contains .integer then s else s.add .integer .integer
  | .any | .error | .named .. => s
  | .array serial span length element =>
    if s.layouts.contains (.written serial) then s
    else ((element.layOut s).meet (length.value * element.size)).add (.written serial)
      (.array serial span length element)
  | .record serial span fields =>
    if s.layouts.contains (.written serial) then s
    else (fields.layOut 0 s).add (.written serial) (.record serial span fields)

/-- Lay out the types of fields that start at `offset`. -/
def Fields.layOut (fields : Fields) (offset : Int) (s : LayingOut) : LayingOut :=
  match fields with
  | .one _ _ type => (type.layOut s).meet (offset + type.size)
  | .more _ _ type rest =>
    rest.layOut (Word.clamp (offset + type.size)) ((type.layOut s).meet (offset + type.size))

end

end TriangleTam
