import TriangleTam.Proofs.Coding.Emission

/-! # Code that fits

  Where the code store has room, operands are short enough and data is within
  reach, the emitter does nothing but append: no report is made, and the code
  that an entity asks for stands behind the code of before.
-/

namespace TriangleTam

/-- Code in the frame reaches data of the level, by the stack base or by a register of the
    display. -/
def Frame.Reaches (frame : Frame) (level : Nat) : Prop :=
  level = 0 ∨ level ≤ frame.level ∧ frame.level - level ≤ Machine.maxLevelsOut

instance (frame : Frame) (level : Nat) : Decidable (frame.Reaches level) :=
  inferInstanceAs (Decidable (level = 0 ∨ _ ∧ _))

namespace Emitter

/-- The emitter with instructions behind its code. -/
def write (e : Emitter) (code : List Instruction) : Emitter :=
  { e with code := e.code ++ code.toArray }

@[simp] theorem write_nil (e : Emitter) : e.write [] = e := by
  simp [write]

@[simp] theorem write_write (e : Emitter) (code code' : List Instruction) :
    (e.write code).write code' = e.write (code ++ code') := by
  simp [write]

theorem size_write (e : Emitter) (code : List Instruction) :
    (e.write code).code.size = e.code.size + code.length := by
  simp [write]

/-- If there is room for the code, all that happened to the first emitter is that the code was
    written. -/
def Writes (e e' : Emitter) (code : List Instruction) : Prop :=
  e.code.size + code.length ≤ Machine.codeStoreSize → e' = e.write code

namespace Writes

variable {e e₁ e₂ : Emitter} {code code' : List Instruction}

theorem refl (e : Emitter) : e.Writes e [] := fun _ => e.write_nil.symm

theorem trans (h : e.Writes e₁ code) (h' : e₁.Writes e₂ code') : e.Writes e₂ (code ++ code') := by
  intro hroom
  rw [List.length_append] at hroom
  have hfirst := h (by omega)
  subst hfirst
  rw [h' (by rw [size_write]; omega), write_write]

end Writes

theorem emit_writes (e : Emitter) (op : OpCode) {n : Int} (hn : n ≤ Machine.maxOperandSize)
    (r : Register) (d : Int) : e.Writes (e.emit op n r d) [⟨op, r.number, n, d⟩] := by
  intro hroom
  have hclamp : e.clampOperand n .operandLength = (n, e) := if_neg (Int.not_lt.2 hn)
  unfold emit
  rw [hclamp]
  dsimp only
  rw [if_pos (Nat.lt_of_succ_le hroom)]
  simp [write]

theorem emitPlain_writes (e : Emitter) (op : OpCode) {n : Int} (hn : n ≤ Machine.maxOperandSize)
    (d : Int) : e.Writes (e.emitPlain op n d) [.plain op n d] := e.emit_writes op hn .cb d

theorem emitPrimitive_writes (e : Emitter) (p : Primitive) :
    e.Writes (e.emitPrimitive p) [.primitive p] := e.emit_writes .call (by decide) .pb _

/-! ## Addressing -/

variable {frame : Frame} {address : Address} {access : Access}

/-- Data within reach has its register. -/
theorem displayRegister_of_reaches (e : Emitter) {level : Nat} (h : frame.Reaches level) :
    e.displayRegister frame level = (frame.register level, e) := by
  unfold displayRegister Frame.register
  by_cases hlevel : level = 0
  · rw [if_pos hlevel, if_pos hlevel]
  · have hnear : ¬ frame.level - level > Machine.maxLevelsOut :=
      Nat.not_lt.2 (h.resolve_left hlevel).2
    rw [if_neg hlevel, if_neg hlevel]
    dsimp only
    rw [if_neg hnear]

theorem displace_of_fits (e : Emitter) (h : Word.Fits (address.displacement + access.offset)) :
    e.displace address access = (address.displacement + access.offset, e) := by
  unfold displace
  dsimp only
  rw [if_pos h, Word.clamp_of_fits h]

theorem addIndex_writes (e : Emitter) (access : Access) :
    e.Writes (e.addIndex access) access.indexCode := by
  unfold addIndex Access.indexCode
  split
  · exact e.emitPrimitive_writes .add
  · exact .refl e

theorem pushAddress_writes (e : Emitter) (hreach : frame.Reaches address.level)
    (hfits : Word.Fits (address.displacement + access.offset)) :
    e.Writes (e.pushAddress frame address access) (address.pushCode frame access) := by
  unfold pushAddress
  rw [e.displayRegister_of_reaches hreach]
  dsimp only
  rw [e.displace_of_fits hfits]
  exact (e.emit_writes .loadA (by decide) _ _).trans (addIndex_writes _ access)

theorem pushStoredAddress_writes (e : Emitter) (hreach : frame.Reaches address.level) :
    e.Writes (e.pushStoredAddress frame address access) (address.pushStoredCode frame access) := by
  unfold pushStoredAddress Address.pushStoredCode
  rw [e.displayRegister_of_reaches hreach]
  dsimp only
  have hindex := (e.emit_writes .load (n := Machine.addressSize) (by decide)
    (frame.register address.level) address.displacement).trans (addIndex_writes _ access)
  split
  · simpa using hindex
  · have hoffset := (hindex.trans (emitPlain_writes _ .loadL (n := 0) (by decide)
      access.offset)).trans (emitPrimitive_writes _ .add)
    simpa using hoffset

/-- An instruction that works on a place by its displacement. -/
theorem placed_writes (e : Emitter) (op : OpCode) {size : Int}
    (hsize : size ≤ Machine.maxOperandSize) (hreach : frame.Reaches address.level)
    (hfits : Word.Fits (address.displacement + access.offset)) :
    e.Writes
      (((e.displayRegister frame address.level).2.displace address access).2.emit op size
        (e.displayRegister frame address.level).1
        ((e.displayRegister frame address.level).2.displace address access).1)
      [⟨op, (frame.register address.level).number, size,
        address.displacement + access.offset⟩] := by
  rw [e.displayRegister_of_reaches hreach]
  dsimp only
  rw [e.displace_of_fits hfits]
  exact e.emit_writes op hsize _ _

end Emitter

/-! ## Entities -/

namespace Entity

/-- The place is within the storage that the entity stands for, and code in the frame reaches it:
    its displacement, where it is known, is a word. -/
def ReachedFrom (frame : Frame) (access : Access) : Entity → Prop
  | unknownValue _ address | knownAddress _ address =>
    frame.Reaches address.level ∧ Word.Fits (address.displacement + access.offset)
  | unknownAddress _ address => frame.Reaches address.level
  | _ => False

variable {entity : Entity} {frame : Frame} {access : Access} {size : Int}

theorem fetch_writes (h : entity.ReachedFrom frame access) (hsize : size ≤ Machine.maxOperandSize)
    (e : Emitter) : ∃ e', entity.fetch frame size access e = .ok e' ∧
      e.Writes e' (entity.fetchCode frame size access) := by
  cases entity with
  | unknownValue _ address | knownAddress _ address =>
    obtain ⟨hreach, hfits⟩ := h
    unfold fetch fetchCode
    dsimp only
    split
    · exact ⟨_, rfl, (e.pushAddress_writes hreach hfits).trans
        (Emitter.emitPlain_writes _ _ hsize _)⟩
    · exact ⟨_, rfl, e.placed_writes .load hsize hreach hfits⟩
  | unknownAddress _ address =>
    exact ⟨_, rfl, (e.pushStoredAddress_writes h).trans (Emitter.emitPlain_writes _ _ hsize _)⟩
  | _ => exact h.elim

theorem store_writes (h : entity.ReachedFrom frame access) (hvariable : entity.IsVariable)
    (hsize : size ≤ Machine.maxOperandSize) (e : Emitter) :
    ∃ e', entity.store frame size access e = .ok e' ∧
      e.Writes e' (entity.storeCode frame size access) := by
  cases entity with
  | knownAddress _ address =>
    obtain ⟨hreach, hfits⟩ := h
    unfold store storeCode
    dsimp only
    split
    · exact ⟨_, rfl, (e.pushAddress_writes hreach hfits).trans
        (Emitter.emitPlain_writes _ _ hsize _)⟩
    · exact ⟨_, rfl, e.placed_writes .store hsize hreach hfits⟩
  | unknownAddress _ address =>
    exact ⟨_, rfl, (e.pushStoredAddress_writes h).trans (Emitter.emitPlain_writes _ _ hsize _)⟩
  | _ => exact hvariable.elim

theorem fetchAddress_writes (h : entity.ReachedFrom frame access) (hvariable : entity.IsVariable)
    (e : Emitter) : ∃ e', entity.fetchAddress frame access e = .ok e' ∧
      e.Writes e' (entity.addressCode frame access) := by
  cases entity with
  | knownAddress _ address =>
    obtain ⟨hreach, hfits⟩ := h
    exact ⟨_, rfl, e.pushAddress_writes hreach hfits⟩
  | unknownAddress _ address => exact ⟨_, rfl, e.pushStoredAddress_writes h⟩
  | _ => exact hvariable.elim

end Entity

end TriangleTam
