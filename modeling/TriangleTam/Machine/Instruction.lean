import TriangleTam.Machine
import TriangleTam.Text.Line
import TriangleTam.Text.Numeral

/-! # Instructions

  An instruction has an operation code and three words: `n` is a size, a truth
  value or the register of a static link, `r` a register, `d` a displacement
  or a literal. It is written in assembly notation, which leaves out the
  fields an operation ignores, and in object code, which has all four.
-/

namespace TriangleTam

/-- An operation and its operands. -/
structure Instruction where
  op : OpCode
  r  : Int
  n  : Int
  d  : Int
  deriving DecidableEq, Repr

namespace Instruction

/-! ## Assembly notation -/

/-- The register of a number; a number of no register stands for itself. -/
def registerText (number : Int) : String :=
  match Register.ofNumber? number with
  | some register => register.name
  | none => Numeral.ofInt number

/-- The location `d[r]`. -/
def locationText (i : Instruction) : String :=
  Numeral.ofInt i.d ++ "[" ++ registerText i.r ++ "]"

/-- A word in parentheses. -/
def sizeText (n : Int) : String := "(" ++ Numeral.ofInt n ++ ")"

/-- What follows the mnemonic. Primitive routines are called by name. -/
def operandText (i : Instruction) : String :=
  match i.op with
  | .load | .store | .jumpIf => sizeText i.n ++ " " ++ i.locationText
  | .loadA | .jump | .jumpI => i.locationText
  | .loadI | .storeI => sizeText i.n
  | .loadL | .push => Numeral.ofInt i.d
  | .call =>
    let linked := "(" ++ registerText i.n ++ ") " ++ i.locationText
    if i.r = Register.pb.number then
      match Primitive.ofDisplacement? i.d with
      | some primitive => primitive.name
      | none => linked
    else linked
  | .ret | .pop => sizeText i.n ++ " " ++ Numeral.ofInt i.d
  | .callI | .halt => ""

/-- The instruction in assembly notation, such as `LOAD   (1) 3[LB]`. -/
def text (i : Instruction) : String :=
  match i.op with
  | .callI | .halt => i.op.mnemonic
  | _ => Text.padRight 7 i.op.mnemonic ++ i.operandText

/-! ## Object code -/

/-- The four bytes of a word in two's complement, the most significant first. -/
def wordBytes (n : Int) : List UInt8 :=
  let u := (n % 4294967296).toNat
  [.ofNat (u / 16777216), .ofNat (u / 65536), .ofNat (u / 256), .ofNat u]

/-- Object code has the words `op`, `r`, `n` and `d` in this order. -/
def bytes (i : Instruction) : List UInt8 :=
  wordBytes i.op.number ++ wordBytes i.r ++ wordBytes i.n ++ wordBytes i.d

end Instruction

end TriangleTam
