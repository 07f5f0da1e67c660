import Mathlib.Logic.Relation
import TriangleTam.Machine.Instruction
import TriangleTam.Proofs.Meaning.Source

/-! # The machine at work

  How the machine executes code, one instruction after the other. Its stack is
  a list of words, the lowest first, so that addresses are positions in the
  list. What the primitives compute and what the outside answers is the same
  interpretation that programs are run with. A word that nothing was stored in
  yet can be moved but not used.

  Programs without routines of their own need no frames but that of the main
  program. So the operations that call, return and jump to an address on the
  stack are left out, and so is the heap.
-/

namespace TriangleTam

/-! ## Stacks -/

namespace Value

/-- What is under the topmost `n` words, and these. -/
def pop? (stack : Value) (n : Int) : Option (Value × Value) :=
  if 0 ≤ n ∧ n ≤ stack.length then
    some (stack.take (stack.length - n.toNat), stack.drop (stack.length - n.toNat))
  else none

/-- What is under the topmost word, and this word, if something was stored in it. -/
def popWord? (stack : Value) : Option (Value × Int) := do
  let (rest, top) ← stack.pop? 1
  return (rest, ← top.word?)

theorem pop?_append (stack value : Value) {n : Int} (hn : (value.length : Int) = n) :
    (stack ++ value).pop? n = some (stack, value) := by
  subst hn
  have hlength : (stack ++ value).length - (value.length : Int).toNat = stack.length := by simp
  unfold pop?
  rw [if_pos (by rw [List.length_append]; omega), hlength, List.take_left, List.drop_left]

@[simp] theorem popWord?_append (stack : Value) (word : Int) :
    (stack ++ [some word]).popWord? = some (stack, word) := by
  have hpop : Value.pop? (stack ++ [some word]) 1 = some (stack, [some word]) :=
    pop?_append stack [some word] rfl
  unfold popWord?
  rw [hpop]
  rfl

/-- A slice of a value is a slice of every stack that the value is a part of. -/
theorem slice?_mid {value part : Value} {offset n : Int}
    (h : value.slice? offset n = some part) (below above : Value) :
    (below ++ (value ++ above)).slice? (below.length + offset) n = some part := by
  unfold slice? at h ⊢
  split at h
  · next hbounds =>
    obtain rfl := Option.some.inj h
    obtain ⟨hoffset, hn, hend⟩ := hbounds
    have hposition : ((below.length : Int) + offset).toNat = below.length + offset.toNat := by omega
    rw [if_pos (by simp only [List.length_append]; omega), hposition, List.drop_append]
    -- all of `below` is dropped, and the slice ends before `above`
    rw [List.drop_eq_nil_of_le (by omega), Nat.add_sub_cancel_left, List.nil_append,
      List.drop_append_of_le_length (by omega),
      List.take_append_of_le_length (by rw [List.length_drop]; omega)]
  · cases h

/-- What is stored in a value is stored in every stack that the value is a part of. -/
theorem splice?_mid {value part value' : Value} {offset : Int}
    (h : value.splice? offset part = some value') (below above : Value) :
    (below ++ (value ++ above)).splice? (below.length + offset) part =
      some (below ++ (value' ++ above)) := by
  unfold splice? at h ⊢
  split at h
  · next hbounds =>
    obtain rfl := Option.some.inj h
    obtain ⟨hoffset, hend⟩ := hbounds
    have hposition : ((below.length : Int) + offset).toNat = below.length + offset.toNat := by omega
    rw [if_pos (by simp only [List.length_append]; omega), hposition, List.take_append,
      Nat.add_assoc, List.drop_append]
    rw [List.take_of_length_le (by omega), List.drop_eq_nil_of_le (by omega),
      Nat.add_sub_cancel_left, Nat.add_sub_cancel_left, List.nil_append,
      List.take_append_of_le_length (by omega), List.drop_append_of_le_length (by omega)]
    simp only [List.append_assoc]
  · cases h

theorem length_of_slice? {value part : Value} {offset n : Int}
    (h : value.slice? offset n = some part) : (part.length : Int) = n := by
  unfold slice? at h
  split at h
  · obtain rfl := Option.some.inj h
    rw [List.length_take, List.length_drop]
    omega
  · cases h

theorem length_of_splice? {value part value' : Value} {offset : Int}
    (h : value.splice? offset part = some value') : value'.length = value.length := by
  unfold splice? at h
  split at h
  · obtain rfl := Option.some.inj h
    simp only [List.length_append, List.length_take, List.length_drop]
    omega
  · cases h

/-- A value that is used as a word is one word. -/
theorem eq_of_word? {value : Value} {word : Int} (h : value.word? = some word) :
    value = [some word] := by
  unfold word? at h
  split at h
  · rw [Option.some.inj h]
  · cases h

end Value

/-! ## Primitives -/

/-- What a primitive does to the stack and to what was exchanged so far. Arguments lie on the
    stack in order, the last on top. An argument that is a variable is its address, and an equality
    has the size of its operands on top of them. -/
def Primitive.execute (I : Interpretation) (p : Primitive) (stack : Value)
    (trace : List Exchange) : Option (Value × List Exchange) :=
  match p with
  | .id => some (stack, trace)
  | .not | .succ | .pred | .neg => do
    let (rest, operand) ← stack.popWord?
    return (rest ++ [some (← I.result p [operand])], trace)
  | .and | .or | .add | .sub | .mult | .div | .mod | .lt | .le | .ge | .gt => do
    let (rest, right) ← stack.popWord?
    let (rest, left) ← rest.popWord?
    return (rest ++ [some (← I.result p [left, right])], trace)
  | .eq | .ne => do
    let (rest, size) ← stack.popWord?
    let (rest, right) ← rest.pop? size
    let (rest, left) ← rest.pop? size
    return (rest ++ [some (Machine.truth (← Interpretation.compare? p left right))], trace)
  | .eol | .eof => do return (stack ++ [some (← I.answer trace p [])], trace)
  | .get | .getint => do
    let (rest, address) ← stack.popWord?
    let answer ← I.answer trace p []
    return (← rest.splice? address [some answer], trace ++ [⟨p, [], answer⟩])
  | .put | .putint => do
    let (rest, word) ← stack.popWord?
    return (rest, trace ++ [⟨p, [word], ← I.answer trace p [word]⟩])
  | .geteol | .puteol => do return (stack, trace ++ [⟨p, [], ← I.answer trace p []⟩])
  | .new | .dispose => none

/-! ## Instructions -/

/-- The machine between two instructions: the address of the next one, what the registers hold,
    the words on the stack, and what was exchanged with the outside. -/
structure Snapshot where
  next  : Nat
  bases : Register → Int
  stack : Value
  trace : List Exchange

namespace Snapshot

/-- The machine before a program, whose code and stack start at address 0. -/
def initial : Snapshot := ⟨0, fun _ => 0, [], []⟩

/-- Go on with the instruction behind this one. -/
def resume (c : Snapshot) (stack : Value) : Snapshot := { c with next := c.next + 1, stack }

end Snapshot

/-- What an instruction does. There is no result where a word is missing or out of reach. -/
def Instruction.execute (I : Interpretation) (i : Instruction) (c : Snapshot) :
    Option Snapshot := do
  let register ← Register.ofNumber? i.r
  let address := c.bases register + i.d
  match i.op with
  | .load => return c.resume (c.stack ++ (← c.stack.slice? address i.n))
  | .loadA => return c.resume (c.stack ++ [some address])
  | .loadI =>
    let (rest, address) ← c.stack.popWord?
    return c.resume (rest ++ (← rest.slice? address i.n))
  | .loadL => return c.resume (c.stack ++ [some i.d])
  | .store =>
    let (rest, value) ← c.stack.pop? i.n
    return c.resume (← rest.splice? address value)
  | .storeI =>
    let (rest, address) ← c.stack.popWord?
    let (rest, value) ← rest.pop? i.n
    return c.resume (← rest.splice? address value)
  | .call =>
    if register = .pb then
      let (stack, trace) ← (← Primitive.ofDisplacement? i.d).execute I c.stack c.trace
      return { c with next := c.next + 1, stack, trace }
    else none
  | .push => return c.resume (c.stack ++ List.replicate (← i.d.toNat?) none)
  | .pop =>
    let (rest, result) ← c.stack.pop? i.n
    let (rest, _) ← rest.pop? i.d
    return c.resume (rest ++ result)
  | .jump => return { c with next := ← address.toNat? }
  | .jumpIf =>
    let (rest, word) ← c.stack.popWord?
    if word = i.n then return { c with next := ← address.toNat?, stack := rest }
    else return c.resume rest
  | .callI | .ret | .jumpI | .halt => none

namespace Snapshot

variable (I : Interpretation) (code : List Instruction)

/-- The machine after the next instruction. -/
def step? (c : Snapshot) : Option Snapshot := do (← code[c.next]?).execute I c

/-- The machine comes from one snapshot to another one in some steps. -/
def Runs : Snapshot → Snapshot → Prop :=
  Relation.ReflTransGen fun c c' => c.step? I code = some c'

/-- The machine has come to a halt. -/
def Halted (c : Snapshot) : Prop := ∃ i, code[c.next]? = some i ∧ i.op = .halt

end Snapshot

namespace Snapshot.Runs

variable {I : Interpretation} {code : List Instruction} {c c₁ c₂ c₃ : Snapshot}

theorem refl (c : Snapshot) : c.Runs I code c := Relation.ReflTransGen.refl

theorem trans (h : c₁.Runs I code c₂) (h' : c₂.Runs I code c₃) : c₁.Runs I code c₃ :=
  Relation.ReflTransGen.trans h h'

/-- One instruction. -/
theorem step {i : Instruction} (hat : code[c.next]? = some i) {c' : Snapshot}
    (h : i.execute I c = some c') : c.Runs I code c' := by
  refine Relation.ReflTransGen.single ?_
  unfold step?
  rw [hat]
  exact h

/-- The machine stops at a halt, in the one snapshot that it comes to. -/
theorem eq_of_halted (h : c.Runs I code c₁) (h' : c.Runs I code c₂) (hhalted : c₁.Halted code)
    (hhalted' : c₂.Halted code) : c₁ = c₂ := by
  have hstuck {c : Snapshot} (hhalted : c.Halted code) {c' : Snapshot} :
      ¬ c.step? I code = some c' := by
    obtain ⟨i, hat, hop⟩ := hhalted
    unfold step?
    rw [hat]
    unfold Instruction.execute
    cases Register.ofNumber? i.r <;> simp [hop]
  -- a step has one result, so both runs take the same steps until one of them is stuck
  induction h using Relation.ReflTransGen.head_induction_on with
  | refl =>
    rcases Relation.ReflTransGen.cases_head h' with heq | ⟨c', hstep, -⟩
    · exact heq
    · exact absurd hstep (hstuck hhalted)
  | head hstep _ ih =>
    rcases Relation.ReflTransGen.cases_head h' with rfl | ⟨c', hstep', hrest⟩
    · exact absurd hstep (hstuck hhalted')
    · obtain rfl := Option.some.inj (hstep.symm.trans hstep')
      exact ih hrest

end Snapshot.Runs

end TriangleTam
