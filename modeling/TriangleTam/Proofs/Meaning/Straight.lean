import TriangleTam.Proofs.Coding.Depths
import TriangleTam.Proofs.Meaning.Running

/-! # Straight code in any frame

  Instructions that move words do the same in every frame, counted from what
  their registers hold there. So code without jumps is run through as a
  function of the snapshot, with no result where a word is out of reach, and
  each instruction has one equation for it.

  A store changes the words of its block and no others.
-/

namespace TriangleTam

/-! ## Blocks of words -/

namespace Value

variable {value value' part : Value} {offset n : Int}

/-- What lies above a value does not matter to its slices. -/
theorem slice?_append (h : value.slice? offset n = some part) (above : Value) :
    (value ++ above).slice? offset n = some part := by
  have hmid := slice?_mid h [] above
  rwa [List.nil_append, List.length_nil, Int.natCast_zero, Int.zero_add] at hmid

/-- A store changes the words of its block and no others. -/
theorem getElem?_of_splice? (h : value.splice? offset part = some value') (k : Nat) :
    value'[k]? = if offset ≤ k ∧ (k : Int) < offset + part.length then part[k - offset.toNat]?
      else value[k]? := by
  unfold splice? at h
  split at h
  · next hbounds =>
    obtain ⟨hoffset, hend⟩ := hbounds
    obtain ⟨start, rfl⟩ := Int.eq_ofNat_of_zero_le hoffset
    obtain rfl := Option.some.inj h
    simp only [Int.toNat_natCast, List.append_assoc]
    -- the word is below the block, in it or above it
    by_cases hbelow : k < start
    · rw [if_neg (by omega), List.getElem?_append_left (by rw [List.length_take]; omega),
        List.getElem?_take_of_lt hbelow]
    · rw [List.getElem?_append_right (by rw [List.length_take]; omega), List.length_take,
        Nat.min_eq_left (by omega)]
      by_cases habove : k < start + part.length
      · rw [if_pos (by omega), List.getElem?_append_left (by omega)]
      · rw [if_neg (by omega), List.getElem?_append_right (by omega), List.getElem?_drop]
        congr 1
        omega
  · cases h

theorem slice?_of_splice? (h : value.splice? offset part = some value') :
    value'.slice? offset part.length = some part := by
  have hlength := length_of_splice? h
  unfold splice? at h
  split at h
  · next hbounds =>
    obtain ⟨hoffset, hend⟩ := hbounds
    unfold slice?
    rw [if_pos (by omega)]
    obtain rfl := Option.some.inj h
    have htake : (value.take offset.toNat).length = offset.toNat := by
      rw [List.length_take]
      omega
    rw [List.append_assoc, List.drop_left' htake, Int.toNat_natCast, List.take_left]
  · cases h

/-- Words that no store changed are the same slice. -/
theorem slice?_congr (hlength : value'.length = value.length)
    (h : ∀ k : Nat, offset ≤ k → (k : Int) < offset + n → value'[k]? = value[k]?) :
    value'.slice? offset n = value.slice? offset n := by
  unfold slice?
  rw [hlength]
  split
  · next hbounds =>
    congr 1
    refine List.ext_getElem? fun j => ?_
    by_cases hj : j < n.toNat
    · rw [List.getElem?_take_of_lt hj, List.getElem?_take_of_lt hj, List.getElem?_drop,
        List.getElem?_drop]
      exact h _ (by omega) (by omega)
    · rw [List.getElem?_take_eq_none (by omega), List.getElem?_take_eq_none (by omega)]
  · rfl

end Value

/-! ## Running through code -/

namespace Snapshot

variable {I : Interpretation} {is is' : List Instruction} {c c' : Snapshot}

/-- The machine some instructions further on, with another stack. -/
def ahead (c : Snapshot) (n : Nat) (stack : Value) : Snapshot :=
  { c with next := c.next + n, stack }

/-- The machine behind the instructions, executed one after the other. -/
def through (I : Interpretation) : List Instruction → Snapshot → Option Snapshot
  | [], c => some c
  | i :: is, c => (i.execute I c).bind (through I is)

theorem through_append : through I (is ++ is') c = (through I is c).bind (through I is') := by
  induction is generalizing c with
  | nil => rfl
  | cons i is ih =>
    rw [List.cons_append, through, through]
    cases i.execute I c with
    | none => rfl
    | some c => exact ih

end Snapshot

/-- Anything but a jump goes on with the instruction behind it. -/
theorem Instruction.next_of_execute {I : Interpretation} {i : Instruction} {c c' : Snapshot}
    (hjump : i.op ≠ .jump) (hjumpIf : i.op ≠ .jumpIf) (h : i.execute I c = some c') :
    c'.next = c.next + 1 := by
  unfold execute at h
  obtain ⟨register, -, h⟩ := Option.bind_eq_some_iff.1 h
  cases hop : i.op with
  | jump => exact absurd hop hjump
  | jumpIf => exact absurd hop hjumpIf
  | callI | ret | jumpI | halt => simp [hop] at h
  | call =>
    simp only [hop] at h
    split at h
    · obtain ⟨p, -, h⟩ := Option.bind_eq_some_iff.1 h
      obtain ⟨⟨stack, trace⟩, -, h⟩ := Option.bind_eq_some_iff.1 h
      rw [← Option.some.inj h]
    · cases h
  | load | push =>
    simp only [hop, Option.bind_eq_bind, Option.bind_eq_some_iff, Option.pure_def,
      Option.some.injEq] at h
    obtain ⟨_, -, rfl⟩ := h
    rfl
  | loadI | store | pop =>
    simp only [hop, Option.bind_eq_bind, Option.bind_eq_some_iff, Option.pure_def,
      Option.some.injEq] at h
    obtain ⟨_, -, _, -, rfl⟩ := h
    rfl
  | storeI =>
    simp only [hop, Option.bind_eq_bind, Option.bind_eq_some_iff, Option.pure_def,
      Option.some.injEq] at h
    obtain ⟨_, -, _, -, _, -, rfl⟩ := h
    rfl
  | loadA | loadL =>
    simp only [hop] at h
    rw [← Option.some.inj h]
    rfl

/-- Where straight code is installed, the machine runs through it. -/
theorem Snapshot.through_runs {I : Interpretation} {code is : List Instruction} {c c' : Snapshot}
    {n : Int} (hstraight : Instruction.Deepen is n) (hcode : Installed code c.next is)
    (h : c.through I is = some c') : c.Runs I code c' := by
  induction hstraight generalizing c with
  | nil =>
    obtain rfl := Option.some.inj h
    exact .refl c
  | @cons i is n hi _ ih =>
    obtain ⟨c₁, hexecute, hrest⟩ := Option.bind_eq_some_iff.1 h
    have hnext : c₁.next = c.next + 1 := by
      refine Instruction.next_of_execute (fun hop => ?_) (fun hop => ?_) hexecute <;>
      · rw [Instruction.IsStraight, hop] at hi
        exact hi
    refine (Runs.step hcode.head hexecute).trans (ih ?_ hrest)
    rw [hnext]
    exact hcode.tail

/-! ## Instructions -/

namespace Snapshot

variable {I : Interpretation} (c : Snapshot) (k : Nat) (stack : Value) (r : Register)
  (n d word : Int)

/-- Where the machine stands and what is on the stack is all that code without jumps changes. -/
theorem ahead_self : c.ahead 0 c.stack = c := rfl

theorem execute_load : (⟨.load, r.number, n, d⟩ : Instruction).execute I (c.ahead k stack) =
    (stack.slice? (c.bases r + d) n).map fun words => c.ahead (k + 1) (stack ++ words) := by
  simp only [Instruction.execute, Register.ofNumber?_number, ahead, resume, Option.bind_eq_bind,
    Option.bind_some]
  cases stack.slice? (c.bases r + d) n <;> rfl

theorem execute_loadA : (⟨.loadA, r.number, n, d⟩ : Instruction).execute I (c.ahead k stack) =
    some (c.ahead (k + 1) (stack ++ [some (c.bases r + d)])) := by
  simp only [Instruction.execute, Register.ofNumber?_number, ahead, resume, Option.bind_eq_bind,
    Option.bind_some]
  rfl

theorem execute_loadL : (Instruction.plain .loadL n d).execute I (c.ahead k stack) =
    some (c.ahead (k + 1) (stack ++ [some d])) := rfl

theorem execute_loadI : (Instruction.plain .loadI n 0).execute I
    (c.ahead k (stack ++ [some word])) =
      (stack.slice? word n).map fun words => c.ahead (k + 1) (stack ++ words) := by
  simp only [Instruction.execute, Instruction.plain, Register.ofNumber?_number, ahead, resume,
    Value.popWord?_append, Option.bind_eq_bind, Option.bind_some]
  cases stack.slice? word n <;> rfl

theorem execute_store : (⟨.store, r.number, n, d⟩ : Instruction).execute I (c.ahead k stack) =
    (stack.pop? n).bind fun popped =>
      (popped.1.splice? (c.bases r + d) popped.2).map (c.ahead (k + 1)) := by
  simp only [Instruction.execute, Register.ofNumber?_number, ahead, resume, Option.bind_eq_bind,
    Option.bind_some]
  cases stack.pop? n with
  | none => rfl
  | some popped =>
    rw [Option.bind_some, Option.bind_some]
    cases popped.1.splice? (c.bases r + d) popped.2 <;> rfl

theorem execute_storeI : (Instruction.plain .storeI n 0).execute I
    (c.ahead k (stack ++ [some word])) =
      (stack.pop? n).bind fun popped =>
        (popped.1.splice? word popped.2).map (c.ahead (k + 1)) := by
  simp only [Instruction.execute, Instruction.plain, Register.ofNumber?_number, ahead, resume,
    Value.popWord?_append, Option.bind_eq_bind, Option.bind_some]
  cases stack.pop? n with
  | none => rfl
  | some popped =>
    rw [Option.bind_some, Option.bind_some]
    cases popped.1.splice? word popped.2 <;> rfl

theorem execute_add {a b : Int} (hadd : I.result .add [a, b] = some (a + b)) :
    (Instruction.primitive .add).execute I (c.ahead k (stack ++ [some a] ++ [some b])) =
      some (c.ahead (k + 1) (stack ++ [some (a + b)])) := by
  simp only [Instruction.execute, Instruction.primitive, Register.ofNumber?_number, ahead,
    Primitive.ofDisplacement?_displacement, Primitive.execute, Value.popWord?_append,
    Option.bind_eq_bind, Option.bind_some, hadd, if_true]
  rfl

/-- An address that is pushed and used at once is a displacement. -/
theorem through_loadA_loadI :
    (through I [⟨.loadA, r.number, 0, d⟩, .plain .loadI n 0] c).map Snapshot.stack =
      (through I [⟨.load, r.number, n, d⟩] c).map Snapshot.stack := by
  rw [← c.ahead_self, through, execute_loadA, Option.bind_some, through, execute_loadI, through,
    execute_load]
  cases c.stack.slice? (c.bases r + d) n <;> rfl

theorem through_loadA_storeI :
    (through I [⟨.loadA, r.number, 0, d⟩, .plain .storeI n 0] c).map Snapshot.stack =
      (through I [⟨.store, r.number, n, d⟩] c).map Snapshot.stack := by
  rw [← c.ahead_self, through, execute_loadA, Option.bind_some, through, execute_storeI, through,
    execute_store]
  cases c.stack.pop? n with
  | none => rfl
  | some popped =>
    rw [Option.bind_some, Option.bind_some]
    cases popped.1.splice? (c.bases r + d) popped.2 <;> rfl

end Snapshot

end TriangleTam
