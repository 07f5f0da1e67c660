import TriangleTam.Word

/-! # The target machine

  The Triangle Abstract Machine: how it represents data, its operation codes,
  its registers and its primitive routines. The machine has a code store, a
  stack that grows up from `SB`, and one frame on the stack for each routine
  that is running, reached through `LB`.
-/

namespace TriangleTam

/-! ## Data representation -/

namespace Machine

/-- The words of a truth value, a character or an integer. -/
def scalarSize : Int := 1

/-- The words of an address. -/
def addressSize : Int := 1

/-- A closure is a static link and a code address. -/
def closureSize : Int := 2 * addressSize

/-- A frame starts with static link, dynamic link and return address. -/
def linkDataSize : Int := 3 * addressSize

def falseRep : Int := 0

def trueRep : Int := 1

/-- The greatest integer a program can name; `-maxint` is the least. -/
def maxint : Int := 32767

/-- Routines may be nested this many levels deep. -/
def maxRoutineLevel : Nat := 7

/-- The most levels a display register reaches beyond the current frame. -/
def maxLevelsOut : Nat := 6

/-- The most words that one instruction can move. -/
def maxOperandSize : Int := 255

/-- The instructions the code store has room for. Primitive routines follow. -/
def codeStoreSize : Nat := 1024

end Machine

/-! ## Operation codes -/

/-- What an instruction does. A trailing `I` means that an address or a code
    address is taken off the stack. -/
inductive OpCode
  | load | loadA | loadI | loadL | store | storeI | call | callI | ret
  | push | pop | jump | jumpI | jumpIf | halt
  deriving DecidableEq, Repr

namespace OpCode

def all : List OpCode :=
  [load, loadA, loadI, loadL, store, storeI, call, callI, ret, push, pop, jump, jumpI,
   jumpIf, halt]

/-- The number of the operation in object code. There is no operation 9. -/
def number : OpCode → Int
  | load => 0
  | loadA => 1
  | loadI => 2
  | loadL => 3
  | store => 4
  | storeI => 5
  | call => 6
  | callI => 7
  | ret => 8
  | push => 10
  | pop => 11
  | jump => 12
  | jumpI => 13
  | jumpIf => 14
  | halt => 15

def mnemonic : OpCode → String
  | load => "LOAD"
  | loadA => "LOADA"
  | loadI => "LOADI"
  | loadL => "LOADL"
  | store => "STORE"
  | storeI => "STOREI"
  | call => "CALL"
  | callI => "CALLI"
  | ret => "RETURN"
  | push => "PUSH"
  | pop => "POP"
  | jump => "JUMP"
  | jumpI => "JUMPI"
  | jumpIf => "JUMPIF"
  | halt => "HALT"

/-- The name of the operation in structured listings. -/
def name : OpCode → String
  | load => "Load"
  | loadA => "LoadA"
  | loadI => "LoadI"
  | loadL => "LoadL"
  | store => "Store"
  | storeI => "StoreI"
  | call => "Call"
  | callI => "CallI"
  | ret => "Return"
  | push => "Push"
  | pop => "Pop"
  | jump => "Jump"
  | jumpI => "JumpI"
  | jumpIf => "JumpIf"
  | halt => "Halt"

end OpCode

/-! ## Registers -/

/-- The registers, which hold addresses in the stores. -/
inductive Register
  /-- Code base. -/
  | cb
  /-- Code top. -/
  | ct
  /-- Primitive routine base. -/
  | pb
  /-- Primitive routine top. -/
  | pt
  /-- Stack base. -/
  | sb
  /-- Stack top. -/
  | st
  /-- Heap base. -/
  | hb
  /-- Heap top. -/
  | ht
  /-- Local base: the frame of the running routine. -/
  | lb
  -- the frames one to six static links out
  | l1 | l2 | l3 | l4 | l5 | l6
  /-- Code pointer. -/
  | cp
  deriving DecidableEq, Repr

namespace Register

def all : List Register :=
  [cb, ct, pb, pt, sb, st, hb, ht, lb, l1, l2, l3, l4, l5, l6, cp]

def number : Register → Int
  | cb => 0
  | ct => 1
  | pb => 2
  | pt => 3
  | sb => 4
  | st => 5
  | hb => 6
  | ht => 7
  | lb => 8
  | l1 => 9
  | l2 => 10
  | l3 => 11
  | l4 => 12
  | l5 => 13
  | l6 => 14
  | cp => 15

def name : Register → String
  | cb => "CB"
  | ct => "CT"
  | pb => "PB"
  | pt => "PT"
  | sb => "SB"
  | st => "ST"
  | hb => "HB"
  | ht => "HT"
  | lb => "LB"
  | l1 => "L1"
  | l2 => "L2"
  | l3 => "L3"
  | l4 => "L4"
  | l5 => "L5"
  | l6 => "L6"
  | cp => "CP"

def ofNumber? (n : Int) : Option Register := all.find? fun r => r.number = n

/-- The register that reaches the frame `levelsOut` static links out. Farther
    than six links there is none, and `L6` stands in. -/
def display (levelsOut : Nat) : Register :=
  match levelsOut with
  | 0 => lb
  | 1 => l1
  | 2 => l2
  | 3 => l3
  | 4 => l4
  | 5 => l5
  | _ => l6

end Register

/-! ## Primitive routines -/

/-- The routines that the machine brings along. -/
inductive Primitive
  | id | not | and | or | succ | pred | neg | add | sub | mult | div | mod
  | lt | le | ge | gt | eq | ne | eol | eof | get | put | geteol | puteol
  | getint | putint | new | dispose
  deriving DecidableEq, Repr

namespace Primitive

def all : List Primitive :=
  [.id, .not, .and, .or, .succ, .pred, .neg, .add, .sub, .mult, .div, .mod,
   .lt, .le, .ge, .gt, .eq, .ne, .eol, .eof, .get, .put, .geteol, .puteol,
   .getint, .putint, .new, .dispose]

/-- Where the routine stands, counted from `PB`. -/
def displacement : Primitive → Int
  | .id => 1
  | .not => 2
  | .and => 3
  | .or => 4
  | .succ => 5
  | .pred => 6
  | .neg => 7
  | .add => 8
  | .sub => 9
  | .mult => 10
  | .div => 11
  | .mod => 12
  | .lt => 13
  | .le => 14
  | .ge => 15
  | .gt => 16
  | .eq => 17
  | .ne => 18
  | .eol => 19
  | .eof => 20
  | .get => 21
  | .put => 22
  | .geteol => 23
  | .puteol => 24
  | .getint => 25
  | .putint => 26
  | .new => 27
  | .dispose => 28

def name : Primitive → String
  | .id => "id"
  | .not => "not"
  | .and => "and"
  | .or => "or"
  | .succ => "succ"
  | .pred => "pred"
  | .neg => "neg"
  | .add => "add"
  | .sub => "sub"
  | .mult => "mult"
  | .div => "div"
  | .mod => "mod"
  | .lt => "lt"
  | .le => "le"
  | .ge => "ge"
  | .gt => "gt"
  | .eq => "eq"
  | .ne => "ne"
  | .eol => "eol"
  | .eof => "eof"
  | .get => "get"
  | .put => "put"
  | .geteol => "geteol"
  | .puteol => "puteol"
  | .getint => "getint"
  | .putint => "putint"
  | .new => "new"
  | .dispose => "dispose"

def ofDisplacement? (d : Int) : Option Primitive := all.find? fun p => p.displacement = d

end Primitive

end TriangleTam
