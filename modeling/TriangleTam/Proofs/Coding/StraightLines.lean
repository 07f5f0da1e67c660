import TriangleTam.Proofs.Coding.Requests

/-! # Straight lines

  What entities ask the emitter for is straight-line code. It refers to code
  only where a declared routine is called or passed, and then to its entry
  point. All this is so whatever is reported, until the code store is full.
-/

namespace TriangleTam

/-! ## Straight lines -/

namespace Instruction

/-- The instruction has the address of an instruction, to go there or to push it. -/
def RefersToCode (i : Instruction) : Prop :=
  (i.op = .call ∨ i.op = .loadA) ∧ i.r = Register.cb.number

/-- The instruction is on a straight line, and if it refers to code, then to an entry point. -/
def Steady (entry : Int → Prop) (i : Instruction) : Prop :=
  i.op.Straight ∧ (i.RefersToCode → entry i.d)

variable {entry : Int → Prop}

theorem steady_of_op {i : Instruction} (hop : i.op.Straight) (hcall : i.op ≠ .call)
    (hloadA : i.op ≠ .loadA) : i.Steady entry :=
  ⟨hop, fun hrefers => (hrefers.1.elim hcall hloadA).elim⟩

theorem steady_of_register {i : Instruction} (hop : i.op.Straight)
    (hr : i.r ≠ Register.cb.number) : i.Steady entry :=
  ⟨hop, fun hrefers => absurd hrefers.2 hr⟩

end Instruction

/-- Where the second emitter is not full, it has the code of the first one and more, with
    instructions of a kind. -/
def Emitter.Adds (P : Instruction → Prop) (e e' : Emitter) : Prop :=
  e'.full = false → e.full = false ∧
    ∃ lines, e'.code.toList = e.code.toList ++ lines ∧ ∀ i ∈ lines, P i

namespace Emitter

variable {e e' e'' : Emitter} {P : Instruction → Prop}

theorem restrictCode_full (e : Emitter) : e.restrictCode.full = true := by
  unfold restrictCode
  split
  · assumption
  · rfl

theorem clampOperand_eq (e : Emitter) (n : Int) (limit : Limit) :
    (e.clampOperand n limit).2.code = e.code ∧ (e.clampOperand n limit).2.full = e.full := by
  unfold clampOperand
  split
  · exact ⟨rfl, rfl⟩
  · exact ⟨rfl, rfl⟩

theorem clampOperand_of_le {n : Int} (h : n ≤ Machine.maxOperandSize) (limit : Limit) :
    (e.clampOperand n limit).1 = n := by
  unfold clampOperand
  rw [if_neg (not_lt.2 h)]

/-- An instruction is appended, unless the store is full then. -/
theorem emit_toList {op : OpCode} {n d : Int} {r : Register}
    (h : (e.emit op n r d).full = false) : e.full = false ∧
    (e.emit op n r d).code.toList =
      e.code.toList ++ [⟨op, r.number, (e.clampOperand n .operandLength).1, d⟩] := by
  obtain ⟨hcode, hfull⟩ := e.clampOperand_eq n .operandLength
  unfold emit at h ⊢
  dsimp only at h ⊢
  split at h
  · rename_i hroom
    rw [if_pos hroom]
    refine ⟨hfull.symm.trans h, ?_⟩
    rw [Array.toList_push, hcode]
  · rw [restrictCode_full] at h
    cases h

namespace Adds

theorem of_eq (hcode : e'.code = e.code) (hfull : e'.full = e.full) : e.Adds P e' :=
  fun h => ⟨hfull.symm.trans h, [], by rw [hcode, List.append_nil], List.forall_mem_nil _⟩

theorem trans (h : e.Adds P e') (h' : e'.Adds P e'') : e.Adds P e'' := by
  intro hfull
  obtain ⟨hfull', lines', hcode', hall'⟩ := h' hfull
  obtain ⟨hfull, lines, hcode, hall⟩ := h hfull'
  refine ⟨hfull, lines ++ lines', ?_, List.forall_mem_append.2 ⟨hall, hall'⟩⟩
  rw [hcode', hcode, List.append_assoc]

theorem emit {op : OpCode} {r : Register} {d : Int} (h : ∀ n, P ⟨op, r.number, n, d⟩) (n : Int) :
    e.Adds P (e.emit op n r d) := by
  intro hfull
  obtain ⟨hfull', hcode⟩ := emit_toList hfull
  exact ⟨hfull', _, hcode, fun i hmem => List.mem_singleton.1 hmem ▸ h _⟩

theorem restrictAddress : e.Adds P e.restrictAddress := by
  unfold Emitter.restrictAddress
  split
  · exact of_eq rfl rfl
  · exact of_eq rfl rfl

theorem displayRegister {frame : Frame} {level : Nat} :
    e.Adds P (e.displayRegister frame level).2 := by
  unfold Emitter.displayRegister
  split
  · exact of_eq rfl rfl
  · dsimp only
    split
    · exact of_eq rfl rfl
    · exact of_eq rfl rfl

theorem displace {address : Address} {access : Access} :
    e.Adds P (e.displace address access).2 := by
  unfold Emitter.displace
  dsimp only
  split
  · exact of_eq rfl rfl
  · exact restrictAddress

theorem clampOperand {n : Int} {limit : Limit} : e.Adds P (e.clampOperand n limit).2 :=
  of_eq (e.clampOperand_eq n limit).1 (e.clampOperand_eq n limit).2

end Adds

section

variable {entry : Int → Prop}

theorem emitPlain_adds {op : OpCode} (hop : op.Straight) (hcall : op ≠ .call)
    (hloadA : op ≠ .loadA) (n d : Int) : e.Adds (Instruction.Steady entry) (e.emitPlain op n d) :=
  .emit (fun _ => Instruction.steady_of_op hop hcall hloadA) n

theorem emitPrimitive_adds {p : Primitive} :
    e.Adds (Instruction.Steady entry) (e.emitPrimitive p) := by
  have hop : OpCode.call.Straight := by decide
  have hr : Register.pb.number ≠ Register.cb.number := by decide
  exact .emit (fun _ => Instruction.steady_of_register hop hr) _

end

end Emitter

/-! ## Requests -/

/-- The instruction that is asked for is on a straight line, and if it refers to code, then to an
    entry point. -/
def Request.Steady (entry : Int → Prop) : Request → Prop
  | .register .. => True
  | .emit op _ r d => ∀ n, (⟨op, r.number, n, d⟩ : Instruction).Steady entry
  | .place op _ r _ _ => ∀ n d, (⟨op, r.number, n, d⟩ : Instruction).Steady entry

namespace Emitter.Adds

variable {e : Emitter} {entry : Int → Prop}

theorem serve {request : Request} (h : request.Steady entry) :
    e.Adds (Instruction.Steady entry) (e.serve request) := by
  cases request with
  | register frame level => exact displayRegister
  | emit op n r d => exact emit h n
  | place op n r address access => exact displace.trans (emit (fun n => h n _) n)

theorem serveAll {requests : List Request} (h : ∀ request ∈ requests, request.Steady entry) :
    e.Adds (Instruction.Steady entry) (e.serveAll requests) := by
  induction requests generalizing e with
  | nil => exact of_eq rfl rfl
  | cons request requests ih =>
    obtain ⟨hfirst, hrest⟩ := List.forall_mem_cons.1 h
    exact (serve hfirst).trans (ih hrest)

end Emitter.Adds

theorem Register.number_ne {r : Register} (h : r ≠ .cb) : r.number ≠ Register.cb.number := by
  cases r <;> first | exact absurd rfl h | decide

namespace Entity

variable {entity : Entity} {frame : Frame} {entry : Int → Prop}

theorem admits_steady : entity.Admits frame (Request.Steady entry) where
  register _ _ := trivial
  line _ _ _ _ hop hline _ := by
    rcases hline with ⟨hcall, hloadA⟩ | hr
    · exact Instruction.steady_of_op hop hcall hloadA
    · exact Instruction.steady_of_register hop (Register.number_ne hr)
  place _ _ _ _ _ hop hr _ _ :=
    Instruction.steady_of_register hop (Register.number_ne hr)

/-- What an entity asks for refers to code only where the entity has an entry point. -/
theorem admitsEntry_steady
    (h : ∀ n address, entity = .knownRoutine n address → entry address.displacement) :
    entity.AdmitsEntry frame (Request.Steady entry) where
  toAdmits := admits_steady
  entry _ _ size address hop hentity _ := ⟨hop, fun _ => h size address hentity⟩

theorem Asks.adds {act : Emitter → Except NotApplicable Emitter}
    {requests : Option (List Request)} (hasks : Asks act requests)
    (hsteady : ∀ {made}, requests = some made → ∀ request ∈ made, request.Steady entry)
    {e e' : Emitter} (hact : act e = .ok e') : e.Adds (Instruction.Steady entry) e' := by
  obtain ⟨made, hmade, rfl⟩ := hasks e e' hact
  exact .serveAll (hsteady hmade)

end Entity

end TriangleTam
