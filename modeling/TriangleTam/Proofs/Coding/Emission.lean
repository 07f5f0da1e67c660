import TriangleTam.Code.Entity
import TriangleTam.Proofs.Reports

/-! # Emission

  What the emitter does for an entity, as a list of instructions.

  An emitter is **quiet** while nothing was reported. An act of the emitter
  **appends** a list of instructions when it reports restrictions alone and
  its code, should it end quiet, is that of before with the list behind it.
  The limits of the code store and of operands are restrictions, so that they
  play no part in what a quiet emitter did.
-/

namespace TriangleTam

/-! ## Sequences -/

namespace Instruction

/-- A call of a primitive routine. -/
def primitive (p : Primitive) : Instruction :=
  ⟨.call, Register.pb.number, Register.sb.number, p.displacement⟩

/-- An instruction that ignores its register. -/
def plain (op : OpCode) (n d : Int) : Instruction := ⟨op, Register.cb.number, n, d⟩

end Instruction

/-- The register through which code in the frame reaches data of a level. -/
def Frame.register (frame : Frame) (level : Nat) : Register :=
  if level = 0 then .sb else .display (frame.level - level)

/-- Add the waiting index, if there is one. -/
def Access.indexCode (access : Access) : List Instruction :=
  if access.indexed then [.primitive .add] else []

namespace Address

/-- Push the address of a place inside the data at the address. -/
def pushCode (address : Address) (frame : Frame) (access : Access) : List Instruction :=
  ⟨.loadA, (frame.register address.level).number, 0, address.displacement + access.offset⟩ ::
    access.indexCode

/-- Push the address of a place inside the data whose address is stored. -/
def pushStoredCode (address : Address) (frame : Frame) (access : Access) : List Instruction :=
  ⟨.load, (frame.register address.level).number, Machine.addressSize, address.displacement⟩ ::
    (access.indexCode ++
      if access.offset = 0 then [] else [.plain .loadL 0 access.offset, .primitive .add])

/-- Push the closure that is stored at the address. -/
def pushClosureCode (address : Address) (frame : Frame) : Instruction :=
  ⟨.load, (frame.register address.level).number, Machine.closureSize, address.displacement⟩

end Address

namespace Entity

/-- The code that pushes `size` words of an entity. -/
def fetchCode (entity : Entity) (frame : Frame) (size : Int) (access : Access) :
    List Instruction :=
  match entity with
  | knownValue _ value => [.plain .loadL 0 value]
  | unknownValue _ address | knownAddress _ address =>
    if access.indexed then address.pushCode frame access ++ [.plain .loadI size 0]
    else [⟨.load, (frame.register address.level).number, size,
      address.displacement + access.offset⟩]
  | unknownAddress _ address => address.pushStoredCode frame access ++ [.plain .loadI size 0]
  | _ => []

/-- The code that pops `size` words into an entity. -/
def storeCode (entity : Entity) (frame : Frame) (size : Int) (access : Access) :
    List Instruction :=
  match entity with
  | knownAddress _ address =>
    if access.indexed then address.pushCode frame access ++ [.plain .storeI size 0]
    else [⟨.store, (frame.register address.level).number, size,
      address.displacement + access.offset⟩]
  | unknownAddress _ address => address.pushStoredCode frame access ++ [.plain .storeI size 0]
  | _ => []

/-- The code that pushes the address of a place in an entity. -/
def addressCode (entity : Entity) (frame : Frame) (access : Access) : List Instruction :=
  match entity with
  | knownAddress _ address => address.pushCode frame access
  | unknownAddress _ address => address.pushStoredCode frame access
  | _ => []

/-- The code that calls a routine with arguments of `size` words. -/
def callCode (entity : Entity) (frame : Frame) (size : Int) : List Instruction :=
  match entity with
  | knownRoutine _ address =>
    [⟨.call, Register.cb.number, (frame.register address.level).number, address.displacement⟩]
  | unknownRoutine _ address => [address.pushClosureCode frame, .plain .callI 0 0]
  | primitiveRoutine p => if p = .id then [] else [.primitive p]
  | equalityRoutine p => [.plain .loadL 0 (size.tdiv 2), .primitive p]
  | barRoutine => [.plain .loadL 0 100, .primitive .mult]
  | _ => []

/-- The code that pushes the closure of a routine. -/
def closureCode (entity : Entity) (frame : Frame) : List Instruction :=
  match entity with
  | knownRoutine _ address =>
    [⟨.loadA, (frame.register address.level).number, 0, 0⟩,
      ⟨.loadA, Register.cb.number, 0, address.displacement⟩]
  | unknownRoutine _ address => [address.pushClosureCode frame]
  | primitiveRoutine p | equalityRoutine p =>
    [⟨.loadA, Register.sb.number, 0, 0⟩, ⟨.loadA, Register.pb.number, 0, p.displacement⟩]
  | barRoutine =>
    [⟨.loadA, Register.sb.number, 0, 0⟩,
      ⟨.loadA, Register.pb.number, 0, Primitive.mult.displacement⟩]
  | _ => []

/-! ## What entities can do -/

/-- The entity stands for a value. -/
def IsValue : Entity → Prop
  | knownValue .. | unknownValue .. | knownAddress .. | unknownAddress .. => True
  | _ => False

/-- The entity stands for a variable. -/
def IsVariable : Entity → Prop
  | knownAddress .. | unknownAddress .. => True
  | _ => False

/-- The entity stands for a routine. -/
def IsRoutine : Entity → Prop
  | knownRoutine .. | unknownRoutine .. | primitiveRoutine _ | equalityRoutine _
  | barRoutine => True
  | _ => False

end Entity

/-! ## Quiet emitters -/

/-- Nothing was reported, and no report is held back. -/
structure Emitter.Quiet (e : Emitter) : Prop where
  clean       : e.journal.diagnostics = #[]
  notFull     : e.full = false
  addressable : e.unaddressable = false

/-- Reports are held back after a report alone. -/
def Emitter.Honest (e : Emitter) : Prop :=
  e.journal.diagnostics = #[] → e.Quiet

/-- Where the store is full, that was reported. -/
def Emitter.Told (e : Emitter) : Prop :=
  e.full = true → .ofRestriction Limit.codeStore.message ∈ e.journal.diagnostics

/-- The second emitter may come of the first. -/
structure Emitter.Before (e e' : Emitter) : Prop where
  gains     : e.journal.Gains .restriction e'.journal
  quiet     : e'.Quiet → e.Quiet
  honest    : e.Honest → e'.Honest
  /-- Code never outgrows its store. -/
  room      : e.code.size ≤ Machine.codeStoreSize → e'.code.size ≤ Machine.codeStoreSize
  told      : e.Told → e'.Told

namespace Emitter.Before

theorem refl (e : Emitter) : e.Before e := ⟨.refl _, id, id, id, id⟩

theorem trans {e₁ e₂ e₃ : Emitter} (h : e₁.Before e₂) (h' : e₂.Before e₃) : e₁.Before e₃ :=
  ⟨h.gains.trans h'.gains, h.quiet ∘ h'.quiet, h'.honest ∘ h.honest, h'.room ∘ h.room,
    h'.told ∘ h.told⟩

/-- Logging is no report. -/
theorem log (e : Emitter) {journal : Journal}
    (h : journal.diagnostics = e.journal.diagnostics) : e.Before { e with journal } := by
  refine ⟨.of_diagnostics h, fun hquiet => ?_, fun honest hclean => ?_, id, fun told hfull => ?_⟩
  · exact ⟨h.symm.trans hquiet.1, hquiet.2, hquiet.3⟩
  · have hquiet := honest (h.symm.trans hclean)
    exact ⟨hclean, hquiet.2, hquiet.3⟩
  · exact h.symm ▸ told hfull

end Emitter.Before

namespace Emitter

/-- After a report no emitter is quiet, and the journal is not clean. -/
theorem restrict_noisy (e : Emitter) (message : String) :
    ¬ (e.restrict message).journal.diagnostics = #[] := by
  simp [restrict, report, Journal.report]

/-- Restricting an address leaves the code alone. -/
theorem code_restrictAddress (e : Emitter) : e.restrictAddress.code = e.code := by
  unfold restrictAddress
  split <;> rfl

/-- An address out of range ends the quiet, also where it was reported before. -/
theorem restrictAddress_not_quiet (e : Emitter) : ¬ e.restrictAddress.Quiet := by
  unfold restrictAddress
  split
  · next hflag =>
    intro hquiet
    rw [hquiet.addressable] at hflag
    cases hflag
  · exact fun hquiet => e.restrict_noisy _ hquiet.clean

/-- A full code store ends the quiet, also where it was reported before. -/
theorem restrictCode_not_quiet (e : Emitter) : ¬ e.restrictCode.Quiet := by
  unfold restrictCode
  split
  · next hflag =>
    intro hquiet
    rw [hquiet.notFull] at hflag
    cases hflag
  · exact fun hquiet => e.restrict_noisy _ hquiet.clean

end Emitter

/-- From `e` to `e'` the instructions were appended. -/
structure Emitter.Appends (e e' : Emitter) (code : List Instruction) : Prop where
  before : e.Before e'
  code   : e'.Quiet → e'.code.toList = e.code.toList ++ code

namespace Emitter

namespace Appends

theorem refl (e : Emitter) : e.Appends e [] := ⟨.refl e, by simp⟩

theorem trans {e₁ e₂ e₃ : Emitter} {code code' : List Instruction} (h : e₁.Appends e₂ code)
    (h' : e₂.Appends e₃ code') : e₁.Appends e₃ (code ++ code') := by
  refine ⟨h.before.trans h'.before, fun hquiet => ?_⟩
  rw [h'.code hquiet, h.code (h'.before.quiet hquiet), List.append_assoc]

/-- A report ends the quiet. -/
theorem restrict (e : Emitter) (message : String) (code : List Instruction) :
    e.Appends (e.restrict message) code := by
  have hnoisy := e.restrict_noisy message
  refine ⟨⟨.report _ rfl, ?_, ?_, id, fun told hfull => ?_⟩, ?_⟩
  · exact fun hquiet => absurd hquiet.clean hnoisy
  · exact fun _ hclean => absurd hclean hnoisy
  · exact Array.mem_push_of_mem _ (told hfull)
  · exact fun hquiet => absurd hquiet.clean hnoisy

end Appends

theorem restrictAddress_appends (e : Emitter) (code : List Instruction) :
    e.Appends e.restrictAddress code := by
  refine ⟨?_, fun hquiet => absurd hquiet e.restrictAddress_not_quiet⟩
  unfold restrictAddress
  split
  · exact .refl e
  · have hnoisy := e.restrict_noisy Limit.word.message
    refine ⟨.report _ rfl, ?_, ?_, id, fun told hfull => ?_⟩
    · exact fun hquiet => absurd hquiet.clean hnoisy
    · exact fun _ hclean => absurd hclean hnoisy
    · exact Array.mem_push_of_mem _ (told hfull)

theorem restrictCode_appends (e : Emitter) (code : List Instruction) :
    e.Appends e.restrictCode code := by
  refine ⟨?_, fun hquiet => absurd hquiet e.restrictCode_not_quiet⟩
  unfold restrictCode
  split
  · exact .refl e
  · have hnoisy := e.restrict_noisy Limit.codeStore.message
    refine ⟨.report _ rfl, ?_, ?_, id, fun _ _ => ?_⟩
    · exact fun hquiet => absurd hquiet.clean hnoisy
    · exact fun _ hclean => absurd hclean hnoisy
    · exact Array.mem_push_self

/-- A quiet emitter cut no operand. -/
theorem clampOperand_appends (e : Emitter) (n : Int) (limit : Limit) :
    e.Appends (e.clampOperand n limit).2 [] ∧
      ((e.clampOperand n limit).2.Quiet → (e.clampOperand n limit).1 = n) := by
  unfold clampOperand
  split
  · exact ⟨.restrict _ _ _, fun hquiet => absurd hquiet.clean (e.restrict_noisy _)⟩
  · exact ⟨.refl e, fun _ => rfl⟩

/-- An instruction is appended where there is room for it. -/
theorem push_appends (e : Emitter) (i : Instruction) :
    e.Appends (if e.code.size < Machine.codeStoreSize then { e with code := e.code.push i }
      else e.restrictCode) [i] := by
  split
  · next hroom =>
    refine ⟨⟨.refl _, fun hquiet => ⟨hquiet.1, hquiet.2, hquiet.3⟩, fun honest hclean => ?_,
      fun _ => ?_, id⟩, fun _ => by simp⟩
    · have hquiet := honest hclean
      exact ⟨hquiet.1, hquiet.2, hquiet.3⟩
    · rw [Array.size_push]
      exact hroom
  · exact restrictCode_appends e _

theorem emit_appends (e : Emitter) (op : OpCode) (n : Int) (r : Register) (d : Int) :
    e.Appends (e.emit op n r d) [⟨op, r.number, n, d⟩] := by
  obtain ⟨happends, hn⟩ := e.clampOperand_appends n .operandLength
  have hpush := push_appends (e.clampOperand n .operandLength).2
    ⟨op, r.number, (e.clampOperand n .operandLength).1, d⟩
  refine ⟨happends.before.trans hpush.before, fun hquiet => ?_⟩
  have hquiet' := hpush.before.quiet hquiet
  refine (hpush.code hquiet).trans ?_
  rw [happends.code hquiet', hn hquiet', List.append_nil]

theorem emitPlain_appends (e : Emitter) (op : OpCode) (n d : Int) :
    e.Appends (e.emitPlain op n d) [.plain op n d] := emit_appends e op n .cb d

theorem emitPrimitive_appends (e : Emitter) (p : Primitive) :
    e.Appends (e.emitPrimitive p) [.primitive p] := emit_appends e .call _ .pb _

/-! ## Patching -/

/-- The instruction at the address gets the address of the next one. -/
theorem patch_toList {e : Emitter} {before after : List Instruction} {i : Instruction}
    (h : e.code.toList = before ++ i :: after) {address : Nat} (hlength : address = before.length) :
    (e.patch address).code.toList = before ++ { i with d := e.next } :: after := by
  unfold patch
  rw [if_neg (by omega), Int.toNat_natCast]
  simp only [Array.toList_modify, h, hlength]
  rw [List.modify_eq_take_cons_drop (by simp)]
  simp

/-! ## Addressing -/

theorem displayRegister_appends (e : Emitter) (frame : Frame) (level : Nat) :
    (e.displayRegister frame level).1 = frame.register level ∧
      e.Appends (e.displayRegister frame level).2 [] := by
  unfold displayRegister Frame.register
  by_cases hlevel : level = 0
  · rw [if_pos hlevel, if_pos hlevel]
    exact ⟨rfl, .refl e⟩
  · rw [if_neg hlevel, if_neg hlevel]
    refine ⟨rfl, ?_⟩
    dsimp only
    split
    · exact .restrict _ _ _
    · exact .refl e

theorem displace_appends (e : Emitter) (address : Address) (access : Access) :
    e.Appends (e.displace address access).2 [] ∧
      ((e.displace address access).2.Quiet →
        (e.displace address access).1 = address.displacement + access.offset) := by
  unfold displace
  dsimp only
  by_cases hfits : Word.Fits (address.displacement + access.offset)
  · rw [if_pos hfits]
    exact ⟨.refl e, fun _ => Word.clamp_of_fits hfits⟩
  · rw [if_neg hfits]
    exact ⟨restrictAddress_appends e _, fun hquiet => absurd hquiet e.restrictAddress_not_quiet⟩

theorem addIndex_appends (e : Emitter) (access : Access) :
    e.Appends (e.addIndex access) access.indexCode := by
  unfold addIndex Access.indexCode
  split
  · exact emitPrimitive_appends e .add
  · exact .refl e

/-- An instruction at a place, whose displacement the emitter works out first. -/
theorem placed_appends (e : Emitter) (op : OpCode) (size : Int) (frame : Frame)
    (address : Address) (access : Access) :
    e.Appends
      (((e.displayRegister frame address.level).2.displace address access).2.emit op size
        (e.displayRegister frame address.level).1
        ((e.displayRegister frame address.level).2.displace address access).1)
      [⟨op, (frame.register address.level).number, size,
        address.displacement + access.offset⟩] := by
  obtain ⟨hregister, happends⟩ := e.displayRegister_appends frame address.level
  generalize e.displayRegister frame address.level = found at *
  obtain ⟨register, e₁⟩ := found
  dsimp only at *
  obtain ⟨happends', hdisplacement⟩ := e₁.displace_appends address access
  generalize e₁.displace address access = displaced at *
  obtain ⟨displacement, e₂⟩ := displaced
  dsimp only at *
  have hemit := emit_appends e₂ op size register displacement
  have hall := (happends.trans happends').trans hemit
  refine ⟨hall.before, fun hquiet => ?_⟩
  rw [hall.code hquiet, hregister, hdisplacement (hemit.before.quiet hquiet)]
  rfl

theorem pushAddress_appends (e : Emitter) (frame : Frame) (address : Address)
    (access : Access) :
    e.Appends (e.pushAddress frame address access) (address.pushCode frame access) :=
  (e.placed_appends .loadA 0 frame address access).trans (addIndex_appends _ access)

theorem pushStoredAddress_appends (e : Emitter) (frame : Frame) (address : Address)
    (access : Access) :
    e.Appends (e.pushStoredAddress frame address access)
      (address.pushStoredCode frame access) := by
  obtain ⟨hregister, happends⟩ := e.displayRegister_appends frame address.level
  unfold pushStoredAddress Address.pushStoredCode
  generalize e.displayRegister frame address.level = found at *
  obtain ⟨register, e₁⟩ := found
  dsimp only at *
  subst hregister
  have hload := happends.trans (emit_appends e₁ .load Machine.addressSize
    (frame.register address.level) address.displacement)
  have hindex := hload.trans (addIndex_appends _ access)
  split
  · simpa using hindex
  · have hoffset := (hindex.trans (emitPlain_appends _ .loadL 0 access.offset)).trans
      (emitPrimitive_appends _ .add)
    simpa using hoffset

theorem pushStoredClosure_appends (e : Emitter) (frame : Frame) (address : Address) :
    e.Appends (e.pushStoredClosure frame address) [address.pushClosureCode frame] := by
  obtain ⟨hregister, happends⟩ := e.displayRegister_appends frame address.level
  unfold pushStoredClosure Address.pushClosureCode
  generalize e.displayRegister frame address.level = found at *
  obtain ⟨register, e₁⟩ := found
  dsimp only at *
  subst hregister
  exact happends.trans (emit_appends e₁ .load Machine.closureSize _ address.displacement)

end Emitter

/-! ## Entities -/

namespace Entity

theorem fetch_appends {entity : Entity} (h : entity.IsValue) (frame : Frame) (size : Int)
    (access : Access) (e : Emitter) :
    ∃ e', entity.fetch frame size access e = .ok e' ∧
      e.Appends e' (entity.fetchCode frame size access) := by
  cases entity with
  | knownValue => exact ⟨_, rfl, e.emitPlain_appends _ _ _⟩
  | unknownValue _ address | knownAddress _ address =>
    unfold fetch fetchCode
    dsimp only
    split
    · exact ⟨_, rfl, (e.pushAddress_appends frame address access).trans
        (Emitter.emitPlain_appends _ _ _ _)⟩
    · exact ⟨_, rfl, e.placed_appends .load size frame address access⟩
  | unknownAddress _ address =>
    exact ⟨_, rfl, (e.pushStoredAddress_appends frame address access).trans
      (Emitter.emitPlain_appends _ _ _ _)⟩
  | _ => exact h.elim

theorem store_appends {entity : Entity} (h : entity.IsVariable) (frame : Frame) (size : Int)
    (access : Access) (e : Emitter) :
    ∃ e', entity.store frame size access e = .ok e' ∧
      e.Appends e' (entity.storeCode frame size access) := by
  cases entity with
  | knownAddress _ address =>
    unfold store storeCode
    dsimp only
    split
    · exact ⟨_, rfl, (e.pushAddress_appends frame address access).trans
        (Emitter.emitPlain_appends _ _ _ _)⟩
    · exact ⟨_, rfl, e.placed_appends .store size frame address access⟩
  | unknownAddress _ address =>
    exact ⟨_, rfl, (e.pushStoredAddress_appends frame address access).trans
      (Emitter.emitPlain_appends _ _ _ _)⟩
  | _ => exact h.elim

theorem fetchAddress_appends {entity : Entity} (h : entity.IsVariable) (frame : Frame)
    (access : Access) (e : Emitter) :
    ∃ e', entity.fetchAddress frame access e = .ok e' ∧
      e.Appends e' (entity.addressCode frame access) := by
  cases entity with
  | knownAddress _ address => exact ⟨_, rfl, e.pushAddress_appends frame address access⟩
  | unknownAddress _ address => exact ⟨_, rfl, e.pushStoredAddress_appends frame address access⟩
  | _ => exact h.elim

theorem call_appends {entity : Entity} (h : entity.IsRoutine) (frame : Frame) (e : Emitter) :
    ∃ e', entity.call frame e = .ok e' ∧
      e.Appends e' (entity.callCode frame frame.size) := by
  cases entity with
  | knownRoutine _ address =>
    obtain ⟨hregister, happends⟩ := e.displayRegister_appends frame address.level
    unfold callCode
    dsimp only
    rw [← hregister]
    exact ⟨_, rfl, happends.trans (Emitter.emit_appends _ .call _ .cb address.displacement)⟩
  | unknownRoutine _ address =>
    exact ⟨_, rfl, (e.pushStoredClosure_appends frame address).trans
      (Emitter.emitPlain_appends _ _ _ _)⟩
  | primitiveRoutine p =>
    unfold call callCode
    dsimp only
    refine ⟨_, rfl, ?_⟩
    split
    · exact .refl e
    · exact e.emitPrimitive_appends p
  | equalityRoutine p =>
    exact ⟨_, rfl, (e.emitPlain_appends .loadL 0 _).trans (Emitter.emitPrimitive_appends _ p)⟩
  | barRoutine =>
    exact ⟨_, rfl, (e.emitPlain_appends .loadL 0 _).trans (Emitter.emitPrimitive_appends _ _)⟩
  | _ => exact h.elim

theorem fetchClosure_appends {entity : Entity} (h : entity.IsRoutine) (frame : Frame)
    (e : Emitter) :
    ∃ e', entity.fetchClosure frame e = .ok e' ∧ e.Appends e' (entity.closureCode frame) := by
  cases entity with
  | knownRoutine _ address =>
    obtain ⟨hregister, happends⟩ := e.displayRegister_appends frame address.level
    unfold closureCode
    dsimp only
    rw [← hregister]
    exact ⟨_, rfl, (happends.trans (Emitter.emit_appends _ .loadA 0 _ 0)).trans
      (Emitter.emit_appends _ .loadA 0 .cb address.displacement)⟩
  | unknownRoutine _ address => exact ⟨_, rfl, e.pushStoredClosure_appends frame address⟩
  | primitiveRoutine p | equalityRoutine p | barRoutine =>
    exact ⟨_, rfl, (e.emit_appends .loadA 0 .sb 0).trans (Emitter.emit_appends _ .loadA 0 .pb _)⟩
  | _ => exact h.elim

end Entity

end TriangleTam
