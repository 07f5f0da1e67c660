import TriangleTam.Machine.Instruction

/-! # Object programs

  The finished code, its object file and its two listings.
-/

namespace TriangleTam

/-- Instructions to be loaded at the base of the code store. -/
structure ObjectProgram where
  instructions : Array Instruction
  deriving DecidableEq, Repr

namespace ObjectProgram

def size (object : ObjectProgram) : Nat := object.instructions.size

/-- The object file. -/
def bytes (object : ObjectProgram) : List UInt8 :=
  object.instructions.toList.flatMap Instruction.bytes

/-! ## Listings -/

/-- The lines of the listing: every instruction after its address. -/
def lines (object : ObjectProgram) : List String :=
  object.instructions.toList.zipIdx.map fun (i, address) =>
    Text.padLeft 4 (Numeral.ofNat address) ++ ": " ++ i.text

/-- The listing as one text. -/
def listing (object : ObjectProgram) : String :=
  String.join (object.lines.map fun line => line ++ "\n")

/-- An entry of the structured listing. Instruction texts need no escapes. -/
def entryJson (i : Instruction) (address : Nat) : String :=
  "  \x7b\n    \"address\": " ++ Numeral.ofNat address
    ++ ",\n    \"op\": \"" ++ i.op.name
    ++ "\",\n    \"r\": " ++ Numeral.ofInt i.r
    ++ ",\n    \"n\": " ++ Numeral.ofInt i.n
    ++ ",\n    \"d\": " ++ Numeral.ofInt i.d
    ++ ",\n    \"text\": \"" ++ i.text ++ "\"\n  \x7d"

/-- The structured listing: a JSON array with one object for an instruction. -/
def listingJson (object : ObjectProgram) : String :=
  if object.instructions.isEmpty then "[]"
  else
    "[\n" ++ String.intercalate ",\n"
      (object.instructions.toList.zipIdx.map fun (i, address) => entryJson i address) ++ "\n]"

end ObjectProgram

end TriangleTam
