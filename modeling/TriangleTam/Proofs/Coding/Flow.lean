import Mathlib.Data.Set.Insert
import TriangleTam.Proofs.Coding.Control
import TriangleTam.Proofs.Coding.Emission

/-! # Structured code

  A **flow** is code that is put together of straight lines, conditionals,
  loops and routines. Its jumps follow from its structure once it is known
  where the code starts. The code of a routine is a **block**: it goes from the
  entry point to the return, and a jump in front of it leads past it.

  The code of a flow is closed: its jumps stay within it, enter no block and
  leave none.
-/

namespace TriangleTam

/-- An operation that goes on with the next instruction, or comes back to it. -/
def OpCode.Straight (op : OpCode) : Prop :=
  op ≠ .jump ∧ op ≠ .jumpIf ∧ op ≠ .jumpI ∧ op ≠ .ret ∧ op ≠ .halt

instance (op : OpCode) : Decidable op.Straight := inferInstanceAs (Decidable (_ ∧ _))

/-- A jump to an address that the instruction has. -/
def OpCode.IsJump (op : OpCode) : Prop := op = .jump ∨ op = .jumpIf

instance (op : OpCode) : Decidable op.IsJump := inferInstanceAs (Decidable (_ ∨ _))

/-! ## Flows -/

/-- Code by its control structure. -/
inductive Flow
  | straight (lines : List Instruction)
  | seq (first second : Flow)
  | branch (condition thenBranch elseBranch : Flow)
  | whileDo (condition body : Flow)
  | repeatUntil (body condition : Flow)
  | loopWhile (body condition tail : Flow)
  | routine (name : Name) (body : Flow) (results arguments : Int)

/-- The code of a routine, from its entry point to its return. -/
structure Block where
  name  : Name
  entry : Nat
  exit  : Nat

/-- The address is in the block. -/
def Block.Contains (block : Block) (address : Nat) : Prop :=
  block.entry ≤ address ∧ address ≤ block.exit

namespace Flow

/-- The control structure of the flow. -/
def control : Flow → Control
  | straight _ => .nil
  | seq first second => first.control ++ second.control
  | branch condition thenBranch elseBranch =>
    .branch condition.control thenBranch.control elseBranch.control .nil
  | whileDo condition body => .whileDo condition.control body.control .nil
  | repeatUntil body condition => .repeatUntil body.control condition.control .nil
  | loopWhile body condition tail => .loopWhile body.control condition.control tail.control .nil
  | routine name body _ _ => .routine name body.control .nil

/-- The number of instructions. -/
def size : Flow → Nat
  | straight lines => lines.length
  | seq first second => first.size + second.size
  | branch condition thenBranch elseBranch =>
    condition.size + 1 + thenBranch.size + 1 + elseBranch.size
  | whileDo condition body => 1 + body.size + condition.size + 1
  | repeatUntil body condition => body.size + condition.size + 1
  | loopWhile body condition tail => body.size + condition.size + 1 + tail.size + 1
  | routine _ body _ _ => 1 + body.size + 1

/-- The instructions of the flow, when it starts at an address. -/
def code (start : Nat) : Flow → List Instruction
  | straight lines => lines
  | seq first second => first.code start ++ second.code (start + first.size)
  | branch condition thenBranch elseBranch =>
    let middle := start + condition.size + 1
    let last := middle + thenBranch.size + 1
    condition.code start ++ .plain .jumpIf Machine.falseRep last :: thenBranch.code middle ++
      .plain .jump 0 (last + elseBranch.size : Nat) :: elseBranch.code last
  | whileDo condition body =>
    let test := start + 1 + body.size
    .plain .jump 0 test :: body.code (start + 1) ++ condition.code test ++
      [.plain .jumpIf Machine.trueRep (start + 1 : Nat)]
  | repeatUntil body condition =>
    body.code start ++ condition.code (start + body.size) ++
      [.plain .jumpIf Machine.falseRep start]
  | loopWhile body condition tail =>
    let middle := start + body.size + condition.size + 1
    body.code start ++ condition.code (start + body.size) ++
      .plain .jumpIf Machine.falseRep (middle + tail.size + 1 : Nat) :: tail.code middle ++
        [.plain .jump 0 start]
  | routine _ body results arguments =>
    .plain .jump 0 (start + 1 + body.size + 1 : Nat) :: body.code (start + 1) ++
      [.plain .ret results arguments]

/-- The blocks of the routines in the flow, in the order of their entry points. -/
def blocks (start : Nat) : Flow → List Block
  | straight _ => []
  | seq first second => first.blocks start ++ second.blocks (start + first.size)
  | branch condition thenBranch elseBranch =>
    let middle := start + condition.size + 1
    condition.blocks start ++ thenBranch.blocks middle ++
      elseBranch.blocks (middle + thenBranch.size + 1)
  | whileDo condition body =>
    body.blocks (start + 1) ++ condition.blocks (start + 1 + body.size)
  | repeatUntil body condition =>
    body.blocks start ++ condition.blocks (start + body.size)
  | loopWhile body condition tail =>
    body.blocks start ++ condition.blocks (start + body.size) ++
      tail.blocks (start + body.size + condition.size + 1)
  | routine name body _ _ =>
    ⟨name, start + 1, start + 1 + body.size⟩ :: body.blocks (start + 1)

/-- The straight lines of the flow. -/
def lines : Flow → List Instruction
  | straight lines => lines
  | seq first second => first.lines ++ second.lines
  | branch condition thenBranch elseBranch =>
    condition.lines ++ thenBranch.lines ++ elseBranch.lines
  | whileDo condition body => body.lines ++ condition.lines
  | repeatUntil body condition => body.lines ++ condition.lines
  | loopWhile body condition tail => body.lines ++ condition.lines ++ tail.lines
  | routine _ body _ _ => body.lines

@[simp] theorem length_code (flow : Flow) (start : Nat) :
    (flow.code start).length = flow.size := by
  induction flow generalizing start with
  | straight lines => rfl
  | seq first second ih₁ ih₂ => simp [code, size, ih₁, ih₂]
  | branch c t e ih₁ ih₂ ih₃ => simp [code, size, ih₁, ih₂, ih₃]; omega
  | whileDo c b ih₁ ih₂ | repeatUntil b c ih₁ ih₂ => simp [code, size, ih₁, ih₂]; omega
  | loopWhile b c t ih₁ ih₂ ih₃ => simp [code, size, ih₁, ih₂, ih₃]; omega
  | routine name body results arguments ih => simp [code, size, ih]; omega

/-- The blocks are those of the routines of the control structure. -/
theorem map_name_blocks (flow : Flow) (start : Nat) :
    (flow.blocks start).map Block.name = flow.control.routines := by
  induction flow generalizing start with
  | straight lines => rfl
  | seq first second ih₁ ih₂ =>
    rw [control, Control.routines_append, blocks, List.map_append, ih₁, ih₂]
  | branch c t e ih₁ ih₂ ih₃ | loopWhile b c t ih₁ ih₂ ih₃ =>
    simp only [blocks, control, Control.routines, List.map_append, List.append_nil, ih₁, ih₂, ih₃]
  | whileDo c b ih₁ ih₂ | repeatUntil b c ih₁ ih₂ =>
    simp only [blocks, control, Control.routines, List.map_append, List.append_nil, ih₁, ih₂]
  | routine name body results arguments ih =>
    simp only [blocks, control, Control.routines, List.map_cons, List.append_nil, ih]

/-- What is not on a straight line is a jump or a return. -/
theorem mem_code {flow : Flow} {start : Nat} {i : Instruction} (h : i ∈ flow.code start) :
    i ∈ flow.lines ∨ i.op.IsJump ∨ i.op = .ret := by
  induction flow generalizing start with
  | straight lines => exact .inl h
  | seq first second ih₁ ih₂ =>
    rcases List.mem_append.1 h with h | h
    · exact (ih₁ h).imp_left (List.mem_append_left _)
    · exact (ih₂ h).imp_left (List.mem_append_right _)
  | branch c t e ih₁ ih₂ ih₃ =>
    -- the condition, the jump to the second branch, the first, the jump past it, the second
    simp only [code, List.append_assoc, List.cons_append, List.mem_append, List.mem_cons] at h
    simp only [lines, List.mem_append]
    rcases h with h | rfl | h | rfl | h
    · exact (ih₁ h).imp_left fun h => .inl (.inl h)
    · exact .inr (.inl (.inr rfl))
    · exact (ih₂ h).imp_left fun h => .inl (.inr h)
    · exact .inr (.inl (.inl rfl))
    · exact (ih₃ h).imp_left .inr
  | whileDo c b ih₁ ih₂ =>
    -- the jump to the condition, the body, the condition, the jump back
    simp only [code, List.append_assoc, List.cons_append, List.mem_append, List.mem_cons,
      List.not_mem_nil, or_false] at h
    simp only [lines, List.mem_append]
    rcases h with rfl | h | h | rfl
    · exact .inr (.inl (.inl rfl))
    · exact (ih₂ h).imp_left .inl
    · exact (ih₁ h).imp_left .inr
    · exact .inr (.inl (.inr rfl))
  | repeatUntil b c ih₁ ih₂ =>
    -- the body, the condition, the jump back
    simp only [code, List.append_assoc, List.mem_append, List.mem_singleton] at h
    simp only [lines, List.mem_append]
    rcases h with h | h | rfl
    · exact (ih₁ h).imp_left .inl
    · exact (ih₂ h).imp_left .inr
    · exact .inr (.inl (.inr rfl))
  | loopWhile b c t ih₁ ih₂ ih₃ =>
    -- the body, the condition, the jump out, the tail, the jump back
    simp only [code, List.append_assoc, List.cons_append, List.mem_append, List.mem_cons,
      List.not_mem_nil, or_false] at h
    simp only [lines, List.mem_append]
    rcases h with h | h | rfl | h | rfl
    · exact (ih₁ h).imp_left fun h => .inl (.inl h)
    · exact (ih₂ h).imp_left fun h => .inl (.inr h)
    · exact .inr (.inl (.inr rfl))
    · exact (ih₃ h).imp_left .inr
    · exact .inr (.inl (.inl rfl))
  | routine name body results arguments ih =>
    simp only [code, List.cons_append, List.mem_append, List.mem_cons, List.not_mem_nil,
      or_false] at h
    rcases h with rfl | h | rfl
    · exact .inr (.inl (.inl rfl))
    · exact ih h
    · exact .inr (.inr rfl)

end Flow

/-! ## Closed code -/

/-- The first block starts before the second one. They are apart, with the jump past the second
    block between them, or the second block lies in the first one. -/
def Block.Before (block block' : Block) : Prop :=
  block.exit + 1 < block'.entry ∨ block.entry < block'.entry ∧ block'.exit < block.exit

/-- Code that starts at `first` jumps within itself and to `targets` alone. It has blocks inside,
    which no jump enters or leaves and in which there are no targets. -/
structure Closed (targets : Set Nat) (first : Nat) (code : List Instruction)
    (blocks : List Block) : Prop where
  within  : ∀ block ∈ blocks,
    first < block.entry ∧ block.entry ≤ block.exit ∧ block.exit < first + code.length
  jumps   : ∀ i address, (i, address) ∈ code.zipIdx first → i.op.IsJump →
    i.r = Register.cb.number ∧ ∃ target : Nat, i.d = target ∧
      (first ≤ target ∧ target ≤ first + code.length ∨ target ∈ targets) ∧
      ∀ block ∈ blocks, block.Contains address ↔ block.Contains target
  /-- A return ends a block. -/
  returns : ∀ i address, (i, address) ∈ code.zipIdx first → i.op = .ret →
    ∃ block ∈ blocks, block.exit = address
  /-- A block ends with a return. -/
  ended   : ∀ block ∈ blocks, ∃ n d, (.plain .ret n d, block.exit) ∈ code.zipIdx first
  /-- A jump leads past a block. -/
  skipped : ∀ block ∈ blocks,
    (.plain .jump 0 (block.exit + 1 : Nat), block.entry - 1) ∈ code.zipIdx first
  nested  : blocks.Pairwise Block.Before
  clear   : ∀ target ∈ targets, ∀ block ∈ blocks, ¬ block.Contains target

namespace Closed

variable {targets : Set Nat} {first : Nat} {code code' : List Instruction}
  {blocks blocks' : List Block}

theorem straight (h : ∀ i ∈ code, i.op.Straight) : Closed targets first code [] := by
  have hop {i : Instruction} {address : Nat} (hmem : (i, address) ∈ code.zipIdx first) :
      i.op.Straight := h i (List.fst_mem_of_mem_zipIdx hmem)
  refine ⟨nofun, fun i address hmem hjump => ?_, fun i address hmem hret => ?_, nofun, nofun,
    .nil, nofun⟩
  · rcases hjump with hjump | hjump
    · exact absurd hjump (hop hmem).1
    · exact absurd hjump (hop hmem).2.1
  · exact absurd hret (hop hmem).2.2.2.1

/-- One jump. -/
theorem jump (targets : Set Nat) {op : OpCode} (hop : op.IsJump) (n : Int) {target : Nat}
    (htarget : target ∈ targets) :
    Closed targets first [.plain op n target] [] := by
  refine ⟨nofun, fun i address hmem _ => ?_, fun i address hmem hret => ?_, nofun, nofun, .nil,
    nofun⟩
  · obtain ⟨rfl, rfl⟩ := Prod.mk.inj (List.mem_singleton.1 hmem)
    exact ⟨rfl, target, rfl, .inr htarget, nofun⟩
  · obtain ⟨rfl, rfl⟩ := Prod.mk.inj (List.mem_singleton.1 hmem)
    obtain rfl : op = .ret := hret
    rcases hop with hop | hop <;> cases hop

/-- Targets that are not inside of the code may be added. -/
theorem aim (h : Closed ∅ first code blocks) (targets : Set Nat)
    (hout : ∀ target ∈ targets, target ≤ first ∨ first + code.length ≤ target) :
    Closed targets first code blocks :=
  { h with
    jumps := fun i address hmem hjump => by
      obtain ⟨hr, target, htarget, hrange, hblocks⟩ := h.jumps i address hmem hjump
      exact ⟨hr, target, htarget, .inl (hrange.resolve_right id), hblocks⟩
    clear := fun target hmem block hblock hcontains => by
      have hwithin := h.within block hblock
      have houtside := hout target hmem
      unfold Block.Contains at hcontains
      omega }

/-- Code whose targets are within it, or right behind it, is closed. -/
theorem close (h : Closed targets first code blocks)
    (hall : ∀ target ∈ targets, first ≤ target ∧ target ≤ first + code.length) :
    Closed ∅ first code blocks :=
  { h with
    jumps := fun i address hmem hjump => by
      obtain ⟨hr, target, htarget, hrange, hblocks⟩ := h.jumps i address hmem hjump
      exact ⟨hr, target, htarget, .inl (hrange.elim id (hall target)), hblocks⟩
    clear := nofun }

/-- Pieces of code, one behind the other. -/
theorem append (h : Closed targets first code blocks) {middle : Nat}
    (h' : Closed targets middle code' blocks') (hmiddle : middle = first + code.length) :
    Closed targets first (code ++ code') (blocks ++ blocks') := by
  subst hmiddle
  have hlength : (code ++ code').length = code.length + code'.length := List.length_append
  have hzip : (code ++ code').zipIdx first =
      code.zipIdx first ++ code'.zipIdx (first + code.length) := List.zipIdx_append
  have haddress {code : List Instruction} {first : Nat} {i : Instruction} {address : Nat}
      (hmem : (i, address) ∈ code.zipIdx first) :
      first ≤ address ∧ address < first + code.length :=
    ⟨List.le_snd_of_mem_zipIdx hmem, List.snd_lt_add_of_mem_zipIdx hmem⟩
  -- the goals are the fields of `Closed`, in their order
  refine ⟨?_, ?_, ?_, ?_, ?_, ?_, ?_⟩
  · intro block hblock
    rcases List.mem_append.1 hblock with hblock | hblock
    · have := h.within block hblock
      omega
    · have := h'.within block hblock
      omega
  · intro i address hmem hjump
    rw [hzip] at hmem
    rcases List.mem_append.1 hmem with hmem | hmem
    · obtain ⟨hr, target, htarget, hrange, hblocks⟩ := h.jumps i address hmem hjump
      refine ⟨hr, target, htarget, hrange.imp_left fun hle => by omega, fun block hblock => ?_⟩
      rcases List.mem_append.1 hblock with hblock | hblock
      · exact hblocks block hblock
      · -- no block of the second piece contains the jump, nor the target, which is allowed
        have hat := haddress hmem
        have hwithin := h'.within block hblock
        refine iff_of_false (fun hcontains => ?_) fun hcontains => ?_
        · unfold Block.Contains at hcontains
          omega
        · rcases hrange with hle | htarget
          · unfold Block.Contains at hcontains
            omega
          · exact h'.clear target htarget block hblock hcontains
    · obtain ⟨hr, target, htarget, hrange, hblocks⟩ := h'.jumps i address hmem hjump
      refine ⟨hr, target, htarget, hrange.imp_left fun hle => by omega, fun block hblock => ?_⟩
      rcases List.mem_append.1 hblock with hblock | hblock
      · -- nor does one of the first piece, for a jump of the second
        have hat := haddress hmem
        have hwithin := h.within block hblock
        refine iff_of_false (fun hcontains => ?_) fun hcontains => ?_
        · unfold Block.Contains at hcontains
          omega
        · rcases hrange with hle | htarget
          · unfold Block.Contains at hcontains
            omega
          · exact h.clear target htarget block hblock hcontains
      · exact hblocks block hblock
  · intro i address hmem hret
    rw [hzip] at hmem
    rcases List.mem_append.1 hmem with hmem | hmem
    · obtain ⟨block, hblock, hexit⟩ := h.returns i address hmem hret
      exact ⟨block, List.mem_append_left _ hblock, hexit⟩
    · obtain ⟨block, hblock, hexit⟩ := h'.returns i address hmem hret
      exact ⟨block, List.mem_append_right _ hblock, hexit⟩
  · intro block hblock
    rw [hzip]
    rcases List.mem_append.1 hblock with hblock | hblock
    · obtain ⟨n, d, hmem⟩ := h.ended block hblock
      exact ⟨n, d, List.mem_append_left _ hmem⟩
    · obtain ⟨n, d, hmem⟩ := h'.ended block hblock
      exact ⟨n, d, List.mem_append_right _ hmem⟩
  · intro block hblock
    rw [hzip]
    rcases List.mem_append.1 hblock with hblock | hblock
    · exact List.mem_append_left _ (h.skipped block hblock)
    · exact List.mem_append_right _ (h'.skipped block hblock)
  · -- blocks of different pieces lie one behind the other
    refine List.pairwise_append.2 ⟨h.nested, h'.nested, fun block hblock block' hblock' => ?_⟩
    have hwithin := h.within block hblock
    have hwithin' := h'.within block' hblock'
    exact .inl (by omega)
  · intro target htarget
    exact List.forall_mem_append.2 ⟨h.clear target htarget, h'.clear target htarget⟩

/-- A routine with its body. -/
theorem routine (h : Closed ∅ (first + 1) code blocks) (name : Name) (results arguments : Int) :
    Closed ∅ first
      (.plain .jump 0 (first + 1 + code.length + 1 : Nat) :: code ++
        [.plain .ret results arguments])
      (⟨name, first + 1, first + 1 + code.length⟩ :: blocks) := by
  have hlength : (Instruction.plain .jump 0 (first + 1 + code.length + 1 : Nat) :: code ++
      [Instruction.plain .ret results arguments]).length = code.length + 2 := by simp
  have hzip : (Instruction.plain .jump 0 (first + 1 + code.length + 1 : Nat) :: code ++
      [Instruction.plain .ret results arguments]).zipIdx first =
      (Instruction.plain .jump 0 (first + 1 + code.length + 1 : Nat), first) ::
        (code.zipIdx (first + 1) ++
          [(Instruction.plain .ret results arguments, first + 1 + code.length)]) := by
    rw [List.cons_append, List.zipIdx_cons, List.zipIdx_append]
    rfl
  -- nothing outside is jumped to, so no target is left to be clear
  refine ⟨?_, ?_, ?_, ?_, ?_, ?_, nofun⟩
  · intro block hblock
    rw [hlength]
    rcases List.mem_cons.1 hblock with rfl | hblock
    · dsimp only
      omega
    · have := h.within block hblock
      omega
  · intro i address hmem hjump
    rw [hzip] at hmem
    rcases List.mem_cons.1 hmem with heq | hmem
    · -- the jump past the block
      obtain ⟨rfl, rfl⟩ := Prod.mk.inj heq
      refine ⟨rfl, _, rfl, .inl (by rw [hlength]; omega), fun block hblock => ?_⟩
      rcases List.mem_cons.1 hblock with rfl | hblock
      · unfold Block.Contains
        dsimp only
        omega
      · have := h.within block hblock
        unfold Block.Contains
        omega
    · rcases List.mem_append.1 hmem with hmem | hmem
      · -- the jumps of the body, which end at the return at the latest
        obtain ⟨hr, target, htarget, hrange, hblocks⟩ := h.jumps i address hmem hjump
        have hrange := hrange.resolve_right id
        refine ⟨hr, target, htarget, .inl (by rw [hlength]; omega), fun block hblock => ?_⟩
        rcases List.mem_cons.1 hblock with rfl | hblock
        · have hlow := List.le_snd_of_mem_zipIdx hmem
          have hhigh := List.snd_lt_add_of_mem_zipIdx hmem
          unfold Block.Contains
          dsimp only at hlow hhigh ⊢
          omega
        · exact hblocks block hblock
      · -- a return is no jump
        obtain ⟨rfl, rfl⟩ := Prod.mk.inj (List.mem_singleton.1 hmem)
        rcases hjump with hjump | hjump <;> cases hjump
  · intro i address hmem hret
    rw [hzip] at hmem
    rcases List.mem_cons.1 hmem with heq | hmem
    · obtain ⟨rfl, rfl⟩ := Prod.mk.inj heq
      cases hret
    · rcases List.mem_append.1 hmem with hmem | hmem
      · obtain ⟨block, hblock, hexit⟩ := h.returns i address hmem hret
        exact ⟨block, List.mem_cons_of_mem _ hblock, hexit⟩
      · obtain ⟨rfl, rfl⟩ := Prod.mk.inj (List.mem_singleton.1 hmem)
        -- the return is the exit of the new block
        exact ⟨_, List.mem_cons_self, rfl⟩
  · intro block hblock
    rw [hzip]
    rcases List.mem_cons.1 hblock with rfl | hblock
    · exact ⟨results, arguments, List.mem_cons_of_mem _ (List.mem_append_right _
        List.mem_cons_self)⟩
    · obtain ⟨n, d, hmem⟩ := h.ended block hblock
      exact ⟨n, d, List.mem_cons_of_mem _ (List.mem_append_left _ hmem)⟩
  · intro block hblock
    rw [hzip]
    rcases List.mem_cons.1 hblock with rfl | hblock
    · exact List.mem_cons_self
    · exact List.mem_cons_of_mem _ (List.mem_append_left _ (h.skipped block hblock))
  · refine List.pairwise_cons.2 ⟨fun block hblock => ?_, h.nested⟩
    have hwithin := h.within block hblock
    -- the blocks of the body lie in the new one
    exact .inr ⟨hwithin.1, hwithin.2.2⟩

end Closed

/-- The code of a flow is closed. -/
theorem Flow.closed {flow : Flow} (h : ∀ i ∈ flow.lines, i.op.Straight) (start : Nat) :
    Closed ∅ start (flow.code start) (flow.blocks start) := by
  induction flow generalizing start with
  | straight lines => exact .straight h
  | seq first second ih₁ ih₂ =>
    obtain ⟨h₁, h₂⟩ := List.forall_mem_append.1 h
    exact (ih₁ h₁ start).append (ih₂ h₂ _) (by rw [length_code])
  | branch c t e ih₁ ih₂ ih₃ =>
    obtain ⟨h₁₂, h₃⟩ := List.forall_mem_append.1 h
    obtain ⟨h₁, h₂⟩ := List.forall_mem_append.1 h₁₂
    let middle := start + c.size + 1
    let last := middle + t.size + 1
    -- both jumps leave the piece they stand in, to the second branch or behind it
    let targets : Set Nat := {last, last + e.size}
    have hcondition := (ih₁ h₁ start).aim targets (by
      rintro _ (rfl | rfl) <;> rw [length_code] <;> omega)
    have hthen := (ih₂ h₂ middle).aim targets (by
      rintro _ (rfl | rfl) <;> rw [length_code] <;> omega)
    have helse := (ih₃ h₃ last).aim targets (by
      rintro _ (rfl | rfl) <;> rw [length_code] <;> omega)
    have htoElse : Closed targets (start + c.size) [.plain .jumpIf Machine.falseRep last] [] :=
      .jump targets (.inr rfl) Machine.falseRep (.inl rfl)
    have htoEnd : Closed targets (middle + t.size) [.plain .jump 0 (last + e.size : Nat)] [] :=
      .jump targets (.inl rfl) 0 (.inr rfl)
    have hall := (hcondition.append (htoElse.append hthen rfl) (by rw [length_code])).append
      (htoEnd.append helse rfl) (by
        simp only [List.length_append, List.length_cons, List.length_nil, length_code]
        omega)
    -- the targets lie in the whole
    refine hall.close ?_
    rintro _ (rfl | rfl) <;>
      simp only [List.length_append, List.length_cons, List.length_nil, length_code] <;> omega
  | whileDo c b ih₁ ih₂ =>
    obtain ⟨h₂, h₁⟩ := List.forall_mem_append.1 h
    let test := start + 1 + b.size
    -- one jump goes to the condition, the other back to the body
    let targets : Set Nat := {test, start + 1}
    have hcondition := (ih₁ h₁ test).aim targets (by
      rintro _ (rfl | rfl) <;> rw [length_code] <;> omega)
    have hbody := (ih₂ h₂ (start + 1)).aim targets (by
      rintro _ (rfl | rfl) <;> rw [length_code] <;> omega)
    have htoTest : Closed targets start [.plain .jump 0 test] [] :=
      .jump targets (.inl rfl) 0 (.inl rfl)
    have htoBody : Closed targets (test + c.size) [.plain .jumpIf Machine.trueRep
        (start + 1 : Nat)] [] := .jump targets (.inr rfl) Machine.trueRep (.inr rfl)
    have hall := ((htoTest.append hbody rfl).append hcondition (by
      simp only [List.length_append, List.length_cons, List.length_nil, length_code]
      omega)).append htoBody (by
      simp only [List.length_append, List.length_cons, List.length_nil, length_code]
      omega)
    rw [List.append_nil] at hall
    refine hall.close ?_
    rintro _ (rfl | rfl) <;>
      simp only [List.length_append, List.length_cons, List.length_nil, length_code] <;> omega
  | repeatUntil b c ih₁ ih₂ =>
    obtain ⟨h₁, h₂⟩ := List.forall_mem_append.1 h
    -- the only jump goes back to the start
    let targets : Set Nat := {start}
    have hbody := (ih₁ h₁ start).aim targets (by
      intro target htarget
      exact .inl (Nat.le_of_eq htarget))
    have hcondition := (ih₂ h₂ (start + b.size)).aim targets (by
      intro target htarget
      have heq : target = start := htarget
      omega)
    have hback : Closed targets (start + b.size + c.size)
        [.plain .jumpIf Machine.falseRep start] [] :=
      .jump targets (.inr rfl) Machine.falseRep (Set.mem_singleton start)
    have hall := (hbody.append hcondition (by rw [length_code])).append hback (by
      simp only [List.length_append, length_code]
      omega)
    rw [List.append_nil] at hall
    refine hall.close ?_
    intro target htarget
    have heq : target = start := htarget
    omega
  | loopWhile b c t ih₁ ih₂ ih₃ =>
    obtain ⟨h₁₂, h₃⟩ := List.forall_mem_append.1 h
    obtain ⟨h₁, h₂⟩ := List.forall_mem_append.1 h₁₂
    let middle := start + b.size + c.size + 1
    -- one jump goes behind the loop, the other back to its start
    let targets : Set Nat := {start, middle + t.size + 1}
    have hbody := (ih₁ h₁ start).aim targets (by
      rintro _ (rfl | rfl) <;> rw [length_code] <;> omega)
    have hcondition := (ih₂ h₂ (start + b.size)).aim targets (by
      rintro _ (rfl | rfl) <;> rw [length_code] <;> omega)
    have htail := (ih₃ h₃ middle).aim targets (by
      rintro _ (rfl | rfl) <;> rw [length_code] <;> omega)
    have htoEnd : Closed targets (start + b.size + c.size)
        [.plain .jumpIf Machine.falseRep (middle + t.size + 1 : Nat)] [] :=
      .jump targets (.inr rfl) Machine.falseRep (.inr rfl)
    have hback : Closed targets (middle + t.size) [.plain .jump 0 start] [] :=
      .jump targets (.inl rfl) 0 (.inl rfl)
    have hall := ((hbody.append hcondition (by rw [length_code])).append
      (htoEnd.append htail rfl) (by
        simp only [List.length_append, length_code]
        omega)).append hback (by
      simp only [List.length_append, List.length_cons, List.length_nil, length_code]
      omega)
    rw [List.append_nil] at hall
    refine hall.close ?_
    rintro _ (rfl | rfl) <;>
      simp only [List.length_append, List.length_cons, List.length_nil, length_code] <;> omega
  | routine name body results arguments ih =>
    have hroutine := (ih h (start + 1)).routine name results arguments
    rw [length_code] at hroutine
    exact hroutine

end TriangleTam
