import TriangleTam.Journal
import TriangleTam.Machine.Instruction

/-! # The emitter

  The code store while code is written. Instructions are only ever appended,
  and of a stored instruction only the displacement can be **patched**, to
  point a forward jump at the next instruction. The store ends where the
  primitive routines begin; what no longer fits is dropped, and that is
  reported once.
-/

namespace TriangleTam

/-- The code so far, and what was reported on the way. -/
structure Emitter where
  code           : Array Instruction := #[]
  journal        : Journal
  /-- An instruction was dropped because the store is full. -/
  full           : Bool := false
  /-- A size or displacement was reported to be no word. -/
  unaddressable  : Bool := false

namespace Emitter

/-- An empty code store. -/
def ofJournal (journal : Journal) : Emitter := { journal := journal }

/-- The address the next instruction gets. -/
def next (e : Emitter) : Int := e.code.size

/-! ## Reporting -/

def report (e : Emitter) (d : Diagnostic) : Emitter :=
  { e with journal := e.journal.report d }

def restrict (e : Emitter) (message : String) : Emitter :=
  e.report (.ofRestriction message)

/-- Report, at most once, that a size or a displacement is no word. -/
def restrictAddress (e : Emitter) : Emitter :=
  if e.unaddressable then e
  else { e.restrict Limit.word.message with unaddressable := true }

/-- Report, at most once, that the code store is full. -/
def restrictCode (e : Emitter) : Emitter :=
  if e.full then e
  else { e.restrict Limit.codeStore.message with full := true }

/-! ## Appending -/

/-- The size operand `n`, cut to what an instruction can move. -/
def clampOperand (e : Emitter) (n : Int) (limit : Limit) : Int × Emitter :=
  if n > Machine.maxOperandSize then (Machine.maxOperandSize, e.restrict limit.message) else (n, e)

/-- Append an instruction. -/
def emit (e : Emitter) (op : OpCode) (n : Int) (r : Register) (d : Int) : Emitter :=
  let (n, e) := e.clampOperand n .operandLength
  if e.code.size < Machine.codeStoreSize then
    { e with code := e.code.push ⟨op, r.number, n, d⟩ }
  else e.restrictCode

/-- Append an instruction that ignores its register. -/
def emitPlain (e : Emitter) (op : OpCode) (n d : Int) : Emitter := e.emit op n .cb d

/-- Append a call of a primitive routine. -/
def emitPrimitive (e : Emitter) (primitive : Primitive) : Emitter :=
  e.emit .call Register.sb.number .pb primitive.displacement

/-! ## Patching -/

/-- Point the stored instruction at `address` to the next instruction. -/
def patch (e : Emitter) (address : Int) : Emitter :=
  if address < 0 then e
  else { e with code := e.code.modify address.toNat fun i => { i with d := e.next } }

end Emitter

end TriangleTam
