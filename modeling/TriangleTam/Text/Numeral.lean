import TriangleTam.Word

/-! # Decimal numerals

  The one decimal notation of the library: digits with no leading zero and a
  minus sign in front of negative numbers. Reading is more generous than
  writing: it takes leading zeros and either sign.
-/

namespace TriangleTam.Numeral

/-! ## Writing -/

/-- The character of a digit below ten. -/
def digit (d : Nat) : Char := Char.ofNat ('0'.toNat + d)

/-- The decimal digits of `n`, the most significant first. -/
def digits (n : Nat) : List Char :=
  if n < 10 then [digit n] else digits (n / 10) ++ [digit (n % 10)]

/-- The numeral of a natural number. -/
def ofNat (n : Nat) : String := String.ofList (digits n)

/-- The numeral of an integer. -/
def ofInt (n : Int) : String :=
  if n < 0 then String.ofList ('-' :: digits n.natAbs) else ofNat n.natAbs

/-! ## Reading -/

/-- The number a digit sequence stands for, continuing from the digits
    already read. -/
def readDigits (soFar : Nat) : List Char → Option Nat
  | [] => some soFar
  | c :: cs =>
    if c.isDigit then readDigits (10 * soFar + (c.toNat - '0'.toNat)) cs else none

/-- The number of a non-empty digit sequence. -/
def toNat? : List Char → Option Nat
  | [] => none
  | c :: cs => readDigits 0 (c :: cs)

/-- The integer of a digit sequence with an optional sign. -/
def toInt? : List Char → Option Int
  | '-' :: cs => (toNat? cs).map fun n => -(n : Int)
  | '+' :: cs => (toNat? cs).map fun n => (n : Int)
  | cs => (toNat? cs).map fun n => (n : Int)

/-- The word a numeral stands for, if it stands for one. -/
def toWord? (numeral : String) : Option Int :=
  (toInt? numeral.toList).filter fun n => Word.Fits n

end TriangleTam.Numeral
