import TriangleTam.Proofs.Coding.Outcomes
import TriangleTam.Proofs.Coding.Relation
import TriangleTam.Proofs.Coding.StraightLines

/-! # Laying out flows

  As long as the code store is not full, encoding writes the code of a flow,
  whatever else it reports. The flow has the control structure of the tree, its
  blocks are the routines that were represented on the way, and wherever its
  straight lines refer to code, a routine is entered.
-/

namespace TriangleTam

/-! ## What was laid out -/

namespace Encoder

/-- A routine is represented that has the entry point. -/
def Enters (s : Encoder) (entry : Int) : Prop :=
  ∃ id n level, (id, Entity.knownRoutine n ⟨level, entry⟩) ∈ s.entities

/-- Between the encoders the routines of the blocks were represented, and the lines refer to
    what is represented in the end. -/
structure Routes (lines : List Instruction) (blocks : List Block) (s s' : Encoder) : Prop where
  keeps    : ∀ entry ∈ s.entities, entry ∈ s'.entities
  lines    : ∀ i ∈ lines, i.Steady s'.Enters
  routines : ∀ id n address, (id, Entity.knownRoutine n address) ∈ s'.entities →
    (id, Entity.knownRoutine n address) ∈ s.entities ∨
      ∃ block ∈ blocks, block.name.binding = some id ∧ address.displacement = block.entry
  blocks   : ∀ block ∈ blocks, ∃ id n level, block.name.binding = some id ∧
    (id, Entity.knownRoutine n ⟨level, block.entry⟩) ∈ s'.entities

/-- Between the encoders the flow was laid out. -/
structure Follows (flow : Flow) (s s' : Encoder) : Prop
    extends Routes flow.lines (flow.blocks s.start) s s' where
  code : s'.emitter.code.toList = s.emitter.code.toList ++ flow.code s.start

/-- Where the second encoder is not full, a flow of the control structure was laid out. -/
def Lays (control : Control) (s s' : Encoder) : Prop :=
  s'.emitter.full = false → s.emitter.full = false ∧
    ∃ flow : Flow, flow.control = control ∧ s.Follows flow s'

variable {s s₁ s₂ : Encoder} {lines lines' : List Instruction} {blocks blocks' : List Block}

theorem start_eq_next (s : Encoder) : s.emitter.next = s.start := rfl

namespace Routes

/-- Nothing was represented. -/
theorem of_entities (h : s₁.entities = s.entities) : Routes [] [] s s₁ :=
  ⟨fun _ hmem => h ▸ hmem, nofun, fun _ _ _ hmem => .inl (h ▸ hmem), nofun⟩

theorem trans (h : Routes lines blocks s s₁) (h' : Routes lines' blocks' s₁ s₂) :
    Routes (lines ++ lines') (blocks ++ blocks') s s₂ := by
  refine ⟨fun entry hmem => h'.keeps entry (h.keeps entry hmem), ?_, ?_, ?_⟩
  · refine List.forall_mem_append.2 ⟨fun i hmem => ?_, h'.lines⟩
    obtain ⟨hop, hrefers⟩ := h.lines i hmem
    refine ⟨hop, fun hcode => ?_⟩
    obtain ⟨id, n, level, hat⟩ := hrefers hcode
    exact ⟨id, n, level, h'.keeps _ hat⟩
  · intro id n address hmem
    rcases h'.routines id n address hmem with hmem | ⟨block, hblock, hat⟩
    · rcases h.routines id n address hmem with hmem | ⟨block, hblock, hat⟩
      · exact .inl hmem
      · exact .inr ⟨block, List.mem_append_left _ hblock, hat⟩
    · exact .inr ⟨block, List.mem_append_right _ hblock, hat⟩
  · refine List.forall_mem_append.2 ⟨fun block hblock => ?_, h'.blocks⟩
    obtain ⟨id, n, level, hid, hat⟩ := h.blocks block hblock
    exact ⟨id, n, level, hid, h'.keeps _ hat⟩

end Routes

/-- The next address is behind the flow. -/
theorem Follows.start_eq {flow : Flow} (h : s.Follows flow s₁) :
    s₁.start = s.start + flow.size := by
  have hlength := congrArg List.length h.code
  rw [List.length_append, Flow.length_code] at hlength
  exact hlength

namespace Lays

/-- Straight lines were appended, and nothing was represented. -/
theorem of_adds {e : Emitter} (h : s.emitter.Adds (Instruction.Steady s.Enters) e) :
    Lays .nil s { s with emitter := e } := by
  intro hfull
  obtain ⟨hfull', lines, hcode, hall⟩ := h hfull
  refine ⟨hfull', .straight lines, rfl, ⟨?_, hcode⟩⟩
  exact { Routes.of_entities rfl with lines := hall }

theorem measured (h : s.Measured s₁) : Lays .nil s s₁ := by
  intro hfull
  refine ⟨h.full.symm.trans hfull, .straight [], rfl, ⟨.of_entities h.entities, ?_⟩⟩
  rw [h.code]
  exact (List.append_nil _).symm

theorem trans {control control' : Control} (h : Lays control s s₁) (h' : Lays control' s₁ s₂) :
    Lays (control ++ control') s s₂ := by
  intro hfull
  obtain ⟨hfull₁, flow', hcontrol', hfollows'⟩ := h' hfull
  obtain ⟨hfull₀, flow, hcontrol, hfollows⟩ := h hfull₁
  have hroutes := hfollows.toRoutes.trans hfollows'.toRoutes
  rw [hfollows.start_eq] at hroutes
  refine ⟨hfull₀, .seq flow flow', by rw [← hcontrol, ← hcontrol']; rfl, ⟨hroutes, ?_⟩⟩
  rw [hfollows'.code, hfollows.code, hfollows.start_eq, List.append_assoc]
  rfl

end Lays

end Encoder

/-! ## Steps -/

namespace Encode

variable {s s' : Encoder}

/-- A step that returns lays out a flow of the control structure, and what it returns is so. -/
def Laying (control : Control) : Assembler.Relation Encode Encode :=
  fun _ _ x Q => ∀ ⦃s a s'⦄, x.exec s = (.ok a, s') → Q a ∧ s.Lays control s'

namespace Laying

variable {α β γ : Type}

theorem pure {a : α} {Q : α → Prop} (h : Q a) :
    Laying .nil (Pure.pure a : Encode α) (Pure.pure a) Q := by
  intro s a' s' hexec
  obtain ⟨ha, rfl⟩ := Prod.mk.inj hexec
  obtain rfl := Except.ok.inj ha
  exact ⟨h, .measured ⟨rfl, rfl, rfl, rfl, rfl⟩⟩

theorem bind {c c' : Control} {x x' : Encode α} {f f' : α → Encode β} {Q : α → Prop}
    {P : β → Prop} (hx : Laying c x x' Q) (hf : ∀ a, Q a → Laying c' (f a) (f' a) P) :
    Laying (c ++ c') (x >>= f) (x' >>= f') P := by
  intro s b s'' hexec
  obtain ⟨a, s', hexec₁, hexec₂⟩ := exec_bind_ok hexec
  obtain ⟨ha, hlays⟩ := hx hexec₁
  obtain ⟨hb, hlays'⟩ := hf a ha hexec₂
  exact ⟨hb, hlays.trans hlays'⟩

theorem emitPlain {op : OpCode} (hop : op.Straight) (hcall : op ≠ .call) (hloadA : op ≠ .loadA)
    (n d : Int) : Laying .nil (assembler.emitPlain op n d) (assembler.emitPlain op n d)
      fun _ => True := by
  intro s a s' hexec
  obtain ⟨-, rfl⟩ := Prod.mk.inj hexec
  exact ⟨trivial, .of_adds (Emitter.emitPlain_adds hop hcall hloadA n d)⟩

theorem emitPrimitive (p : Primitive) :
    Laying .nil (assembler.emitPrimitive p) (assembler.emitPrimitive p) fun _ => True := by
  intro s a s' hexec
  obtain ⟨-, rfl⟩ := Prod.mk.inj hexec
  exact ⟨trivial, .of_adds Emitter.emitPrimitive_adds⟩

theorem measuring {x : Encode α}
    (h : ∀ {s a s'}, x.exec s = (.ok a, s') → s.Measured s') : Laying .nil x x fun _ => True :=
  fun _ _ _ hexec => ⟨trivial, .measured (h hexec)⟩

theorem entityOf (name : Name) :
    Laying .nil (Encode.entityOf name) (Encode.entityOf name) fun _ => True :=
  measuring fun hexec => by
    obtain ⟨rfl, -⟩ := entityOf_ok hexec
    exact ⟨rfl, rfl, rfl, rfl, rfl⟩

theorem bindName {level : Nat} (name : Name) {entity : Entity} (h : entity.LocalTo level) :
    Laying .nil (Encode.bind name entity) (Encode.bind name entity) fun _ => True := by
  intro s a s' hexec
  obtain ⟨id, journal, -, -, rfl⟩ := bind_ok hexec
  refine ⟨trivial, fun hfull => ⟨hfull, .straight [], rfl, ⟨⟨?_, nofun, ?_, nofun⟩, ?_⟩⟩⟩
  · exact fun _ hmem => List.mem_cons_of_mem _ hmem
  · intro id' n address hmem
    rcases List.mem_cons.1 hmem with heq | hmem
    · obtain ⟨-, rfl⟩ := Prod.mk.inj heq
      exact h.elim
    · exact .inl hmem
  · exact (List.append_nil _).symm

theorem requesting {act : Emitter → Except NotApplicable Emitter} {s : Encoder} {u : Unit}
    (h : ∀ {e e'}, act e = .ok e' → e.Adds (Instruction.Steady s.Enters) e')
    (hexec : (Encode.requesting act).exec s = (.ok u, s')) : s.Lays .nil s' := by
  obtain ⟨e, he, rfl⟩ := requesting_ok hexec
  exact .of_adds (h he)

/-- A request whose size operand is cut first. -/
theorem moving {limit : Limit} (size : Int) {act : Int → Emitter → Except NotApplicable Emitter}
    (h : ∀ {entry : Int → Prop} {size e e'}, act size e = .ok e' →
      e.Adds (Instruction.Steady entry) e')
    {x : Encode Unit} (hx : x = do
      let size ← Encode.clampOperand size limit
      Encode.requesting (act size)) :
    Laying .nil x x fun _ => True := by
  subst hx
  intro s u s' hexec
  obtain ⟨size', s₁, hclamp, hrequest⟩ := exec_bind_ok hexec
  obtain ⟨-, rfl⟩ := Prod.mk.inj ((clampOperand_exec size limit s).symm.trans hclamp)
  obtain ⟨e, he, rfl⟩ := requesting_ok hrequest
  exact ⟨trivial, .of_adds (.trans .clampOperand (h he))⟩

/-- What is done with what a name stands for. -/
theorem applying {name : Name} {act : Entity → Emitter → Except NotApplicable Emitter}
    (h : ∀ {entry : Int → Prop} {entity e e'},
      (∀ n address, entity = .knownRoutine n address → entry address.displacement) →
      act entity e = .ok e' → e.Adds (Instruction.Steady entry) e')
    {x : Encode Unit} (hx : x = do
      let entity ← Encode.entityOf name
      Encode.requesting (act entity)) :
    Laying .nil x x fun _ => True := by
  subst hx
  intro s u s' hexec
  obtain ⟨entity, s₁, hentity, hrequest⟩ := exec_bind_ok hexec
  obtain ⟨rfl, id, -, hat⟩ := entityOf_ok hentity
  refine ⟨trivial, requesting (h ?_) hrequest⟩
  rintro n address rfl
  obtain ⟨newer, older, heq, -⟩ := List.lookup_eq_some_iff.1 hat
  exact ⟨id, n, address.level, heq ▸ List.mem_append_right _ List.mem_cons_self⟩

/-! ### Control constructs -/

theorem start_eq {lines : List Instruction}
    (h : s'.emitter.code.toList = s.emitter.code.toList ++ lines) :
    s'.start = s.start + lines.length := by
  have hlength := congrArg List.length h
  rwa [List.length_append] at hlength

/-- One instruction that refers to code or returns, written behind the others. -/
theorem emit_step {op : OpCode} {n d : Int} (hn : n ≤ Machine.maxOperandSize) {u : Unit}
    (hexec : (Encode.emit op n .cb d).exec s = (.ok u, s')) (hfull : s'.emitter.full = false) :
    s.emitter.full = false ∧
      s'.emitter.code.toList = s.emitter.code.toList ++ [.plain op n d] ∧
      s'.entities = s.entities := by
  obtain ⟨-, rfl⟩ := Prod.mk.inj hexec
  obtain ⟨hfull', hcode⟩ := Emitter.emit_toList hfull
  rw [Emitter.clampOperand_of_le hn] at hcode
  exact ⟨hfull', hcode, rfl⟩

/-- A jump whose target is not known yet. -/
theorem emitForward_step {op : OpCode} {n address : Int} (hn : n ≤ Machine.maxOperandSize)
    (hexec : (assembler.emitForward op n).exec s = (.ok address, s'))
    (hfull : s'.emitter.full = false) :
    address = s.start ∧ s.emitter.full = false ∧
      s'.emitter.code.toList = s.emitter.code.toList ++ [.plain op n 0] ∧
      s'.entities = s.entities := by
  obtain ⟨_, _, hnext, hexec⟩ := exec_bind_ok hexec
  obtain ⟨hat, rfl⟩ := Prod.mk.inj hnext
  obtain rfl := Except.ok.inj hat
  obtain ⟨_, _, hemit, hexec⟩ := exec_bind_ok hexec
  obtain ⟨haddress, rfl⟩ := Prod.mk.inj hexec
  obtain rfl := Except.ok.inj haddress
  exact ⟨rfl, emit_step hn hemit hfull⟩

/-- The jump at the address is pointed to the next instruction. -/
theorem patch_step {address : Int} {u : Unit}
    (hexec : (Encode.patch address).exec s = (.ok u, s')) (hfull : s'.emitter.full = false) :
    s.emitter.full = false ∧ s'.entities = s.entities ∧ s'.start = s.start ∧
      ∀ before op n after, s.emitter.code.toList = before ++ .plain op n 0 :: after →
        address = before.length →
        s'.emitter.code.toList = before ++ .plain op n s.start :: after := by
  obtain ⟨-, rfl⟩ := Prod.mk.inj hexec
  refine ⟨?_, rfl, ?_, fun before op n after hcode haddress => ?_⟩
  · rw [← hfull]
    show _ = (s.emitter.patch address).full
    unfold Emitter.patch
    split <;> rfl
  · show (s.emitter.patch address).code.size = s.emitter.code.size
    unfold Emitter.patch
    split
    · rfl
    · exact Array.size_modify
  · rw [haddress]
    exact Emitter.patch_toList hcode rfl

theorem branch {c₁ c₂ c₃ : Control} {x x' : Encode α} {y y' : Encode β} {z z' : Encode γ}
    (hx : Laying c₁ x x' fun _ => True) (hy : Laying c₂ y y' fun _ => True)
    (hz : Laying c₃ z z' fun _ => True) :
    Laying (.branch c₁ c₂ c₃ .nil) (assembler.branch x y z) (assembler.branch x' y' z')
      fun _ => True := by
  intro s result s₇ hexec
  refine ⟨trivial, fun hfull => ?_⟩
  obtain ⟨_, s₁, hexec₁, hexec⟩ := exec_bind_ok hexec
  obtain ⟨toElse, s₂, hexec₂, hexec⟩ := exec_bind_ok hexec
  obtain ⟨_, s₃, hexec₃, hexec⟩ := exec_bind_ok hexec
  obtain ⟨toEnd, s₄, hexec₄, hexec⟩ := exec_bind_ok hexec
  obtain ⟨_, s₅, hexec₅, hexec⟩ := exec_bind_ok hexec
  obtain ⟨_, s₆, hexec₆, hexec⟩ := exec_bind_ok hexec
  obtain ⟨_, s₇, hexec₇, hexec⟩ := exec_bind_ok hexec
  obtain ⟨-, rfl⟩ := Prod.mk.inj hexec
  obtain ⟨hfull, hentities₇, -, hcode₇⟩ := patch_step hexec₇ hfull
  obtain ⟨hfull, flow₃, rfl, hfollows₃⟩ := (hz hexec₆).2 hfull
  obtain ⟨hfull, hentities₅, hstart₅, hcode₅⟩ := patch_step hexec₅ hfull
  obtain ⟨rfl, hfull, hcode₄, hentities₄⟩ := emitForward_step (by decide) hexec₄ hfull
  obtain ⟨hfull, flow₂, rfl, hfollows₂⟩ := (hy hexec₃).2 hfull
  obtain ⟨rfl, hfull, hcode₂, hentities₂⟩ := emitForward_step (by decide) hexec₂ hfull
  obtain ⟨hfull, flow₁, rfl, hfollows₁⟩ := (hx hexec₁).2 hfull
  have hstart₁ := hfollows₁.start_eq
  have hstart₂ : s₂.start = s₁.start + 1 := start_eq hcode₂
  have hstart₃ := hfollows₂.start_eq
  have hstart₄ : s₄.start = s₃.start + 1 := start_eq hcode₄
  have hstart₆ := hfollows₃.start_eq
  -- the first jump is patched before the last part is written, the second one after it
  have hcode₅ := hcode₅ s₁.emitter.code.toList .jumpIf Machine.falseRep
    (flow₂.code s₂.start ++ [.plain .jump 0 0])
    (by rw [hcode₄, hfollows₂.code, hcode₂, List.append_assoc, List.append_assoc]; rfl) rfl
  have hcode₇ := hcode₇ (s₁.emitter.code.toList ++
      .plain .jumpIf Machine.falseRep s₄.start :: flow₂.code s₂.start) .jump 0
    (flow₃.code s₅.start)
    (by
      rw [hfollows₃.code, hcode₅]
      simp only [List.append_assoc, List.cons_append, List.nil_append])
    (by
      rw [List.length_append, List.length_cons, Flow.length_code, hstart₃, hstart₂]
      show _ = ((s₁.start + (flow₂.size + 1) : Nat) : Int)
      congr 1
      omega)
  have hroutes := (((hfollows₁.toRoutes.trans (.of_entities hentities₂)).trans
    (hfollows₂.toRoutes.trans (.of_entities (hentities₅.trans hentities₄)))).trans
      hfollows₃.toRoutes).trans (.of_entities hentities₇)
  have hmiddle : s₂.start = s.start + flow₁.size + 1 := by omega
  have hlast : s₄.start = s₂.start + flow₂.size + 1 := by omega
  simp only [List.append_nil, hstart₅, hlast, hmiddle] at hroutes
  refine ⟨hfull, .branch flow₁ flow₂ flow₃, rfl, ⟨hroutes, ?_⟩⟩
  rw [hcode₇, hstart₆, hfollows₁.code, hstart₅, hlast, hmiddle]
  simp only [Flow.code, List.append_assoc, List.cons_append]

theorem whileDo {c₁ c₂ : Control} {x x' : Encode α} {y y' : Encode β}
    (hx : Laying c₁ x x' fun _ => True) (hy : Laying c₂ y y' fun _ => True) :
    Laying (.whileDo c₁ c₂ .nil) (assembler.whileDo x y) (assembler.whileDo x' y')
      fun _ => True := by
  intro s _ s₅ hexec
  refine ⟨trivial, fun hfull => ?_⟩
  -- the run is taken apart, into the states between the steps
  obtain ⟨toTest, s₁, hexec₁, hexec⟩ := exec_bind_ok hexec
  obtain ⟨start, _, hnext, hexec⟩ := exec_bind_ok hexec
  obtain ⟨hstart, rfl⟩ := Prod.mk.inj hnext
  obtain rfl := Except.ok.inj hstart
  obtain ⟨_, s₂, hexec₂, hexec⟩ := exec_bind_ok hexec
  obtain ⟨_, s₃, hexec₃, hexec⟩ := exec_bind_ok hexec
  obtain ⟨_, s₄, hexec₄, hexec₅⟩ := exec_bind_ok hexec
  -- from the end backwards, since a store that has room had room before
  obtain ⟨hfull, hcode₅, hentities₅⟩ := emit_step (by decide) hexec₅ hfull
  obtain ⟨hfull, flow₁, rfl, hfollows₁⟩ := (hx hexec₄).2 hfull
  obtain ⟨hfull, hentities₃, hstart₃, hcode₃⟩ := patch_step hexec₃ hfull
  obtain ⟨hfull, flow₂, rfl, hfollows₂⟩ := (hy hexec₂).2 hfull
  obtain ⟨rfl, hfull, hcode₁, hentities₁⟩ := emitForward_step (by decide) hexec₁ hfull
  have hstart₁ : s₁.start = s.start + 1 := start_eq hcode₁
  have hstart₂ := hfollows₂.start_eq
  -- the patch gives the first jump its target, behind the body
  have hcode₃ := hcode₃ s.emitter.code.toList .jump 0 (flow₂.code s₁.start)
    (by rw [hfollows₂.code, hcode₁, List.append_assoc]; rfl) rfl
  -- blocks are represented by the two parts alone
  have hroutes := (((Encoder.Routes.of_entities hentities₁).trans hfollows₂.toRoutes).trans
    ((Encoder.Routes.of_entities hentities₃).trans hfollows₁.toRoutes)).trans
      (.of_entities hentities₅)
  simp only [List.append_nil, List.nil_append, hstart₃, hstart₂, hstart₁] at hroutes
  refine ⟨hfull, .whileDo flow₁ flow₂, rfl, ⟨hroutes, ?_⟩⟩
  rw [hcode₅, hfollows₁.code, hcode₃, hstart₃, hstart₂]
  simp only [Flow.code, Encoder.start_eq_next, hstart₁, List.append_assoc, List.cons_append]

theorem repeatUntil {c₁ c₂ : Control} {x x' : Encode α} {y y' : Encode β}
    (hx : Laying c₁ x x' fun _ => True) (hy : Laying c₂ y y' fun _ => True) :
    Laying (.repeatUntil c₁ c₂ .nil) (assembler.repeatUntil x y) (assembler.repeatUntil x' y')
      fun _ => True := by
  intro s _ s₃ hexec
  refine ⟨trivial, fun hfull => ?_⟩
  obtain ⟨start, _, hnext, hexec⟩ := exec_bind_ok hexec
  obtain ⟨hstart, rfl⟩ := Prod.mk.inj hnext
  obtain rfl := Except.ok.inj hstart
  obtain ⟨_, s₁, hexec₁, hexec⟩ := exec_bind_ok hexec
  obtain ⟨_, s₂, hexec₂, hexec₃⟩ := exec_bind_ok hexec
  obtain ⟨hfull, hcode₃, hentities₃⟩ := emit_step (by decide) hexec₃ hfull
  obtain ⟨hfull, flow₂, rfl, hfollows₂⟩ := (hy hexec₂).2 hfull
  obtain ⟨hfull, flow₁, rfl, hfollows₁⟩ := (hx hexec₁).2 hfull
  have hroutes := (hfollows₁.toRoutes.trans hfollows₂.toRoutes).trans (.of_entities hentities₃)
  simp only [List.append_nil, hfollows₁.start_eq] at hroutes
  refine ⟨hfull, .repeatUntil flow₁ flow₂, rfl, ⟨hroutes, ?_⟩⟩
  rw [hcode₃, hfollows₂.code, hfollows₁.code, hfollows₁.start_eq]
  simp only [Flow.code, Encoder.start_eq_next, List.append_assoc]

theorem loopWhile {c₁ c₂ c₃ : Control} {x x' : Encode α} {y y' : Encode β} {z z' : Encode γ}
    (hx : Laying c₁ x x' fun _ => True) (hy : Laying c₂ y y' fun _ => True)
    (hz : Laying c₃ z z' fun _ => True) :
    Laying (.loopWhile c₁ c₂ c₃ .nil) (assembler.loopWhile x y z) (assembler.loopWhile x' y' z')
      fun _ => True := by
  intro s _ s₆ hexec
  refine ⟨trivial, fun hfull => ?_⟩
  obtain ⟨start, _, hnext, hexec⟩ := exec_bind_ok hexec
  obtain ⟨hstart, rfl⟩ := Prod.mk.inj hnext
  obtain rfl := Except.ok.inj hstart
  obtain ⟨_, s₁, hexec₁, hexec⟩ := exec_bind_ok hexec
  obtain ⟨_, s₂, hexec₂, hexec⟩ := exec_bind_ok hexec
  obtain ⟨toEnd, s₃, hexec₃, hexec⟩ := exec_bind_ok hexec
  obtain ⟨_, s₄, hexec₄, hexec⟩ := exec_bind_ok hexec
  obtain ⟨_, s₅, hexec₅, hexec₆⟩ := exec_bind_ok hexec
  -- from the end backwards, as for `whileDo`
  obtain ⟨hfull, hentities₆, -, hcode₆⟩ := patch_step hexec₆ hfull
  obtain ⟨hfull, hcode₅, hentities₅⟩ := emit_step (by decide) hexec₅ hfull
  obtain ⟨hfull, flow₃, rfl, hfollows₃⟩ := (hz hexec₄).2 hfull
  obtain ⟨rfl, hfull, hcode₃, hentities₃⟩ := emitForward_step (by decide) hexec₃ hfull
  obtain ⟨hfull, flow₂, rfl, hfollows₂⟩ := (hy hexec₂).2 hfull
  obtain ⟨hfull, flow₁, rfl, hfollows₁⟩ := (hx hexec₁).2 hfull
  have hstart₁ := hfollows₁.start_eq
  have hstart₂ := hfollows₂.start_eq
  have hstart₃ : s₃.start = s₂.start + 1 := start_eq hcode₃
  have hstart₄ := hfollows₃.start_eq
  have hstart₅ : s₅.start = s₄.start + 1 := start_eq hcode₅
  -- the patch gives the jump out its target, behind the jump back
  have hcode₆ := hcode₆ s₂.emitter.code.toList .jumpIf Machine.falseRep
    (flow₃.code s₃.start ++ [.plain .jump 0 s.emitter.next])
    (by rw [hcode₅, hfollows₃.code, hcode₃, List.append_assoc, List.append_assoc]; rfl) rfl
  have hroutes := ((((hfollows₁.toRoutes.trans hfollows₂.toRoutes).trans
    (.of_entities hentities₃)).trans hfollows₃.toRoutes).trans (.of_entities hentities₅)).trans
      (.of_entities hentities₆)
  simp only [List.append_nil, hstart₃, hstart₂, hstart₁] at hroutes
  refine ⟨hfull, .loopWhile flow₁ flow₂ flow₃, rfl, ⟨hroutes, ?_⟩⟩
  rw [hcode₆, hfollows₂.code, hfollows₁.code, hstart₅, hstart₄, hstart₃, hstart₂, hstart₁]
  simp only [Flow.code, Encoder.start_eq_next, List.append_assoc, List.cons_append]

/-- The return of a routine, whose sizes may have been cut. -/
theorem return_step {n d : Int} {u : Unit}
    (hexec : (Encode.emit .ret n .cb d).exec s = (.ok u, s')) (hfull : s'.emitter.full = false) :
    s.emitter.full = false ∧ ∃ n',
      s'.emitter.code.toList = s.emitter.code.toList ++ [.plain .ret n' d] ∧
      s'.entities = s.entities := by
  obtain ⟨-, rfl⟩ := Prod.mk.inj hexec
  obtain ⟨hfull', hcode⟩ := Emitter.emit_toList hfull
  exact ⟨hfull', _, hcode, rfl⟩

/-- The routine is represented with the next address for its entry point. -/
theorem bindRoutine_step {name : Name} {n : Int} {level : Nat} {u : Unit}
    (hexec : (Encode.bind name (.knownRoutine n ⟨level, s.emitter.next⟩)).exec s =
      (.ok u, s')) :
    s'.emitter.full = s.emitter.full ∧ s'.emitter.code = s.emitter.code ∧
      ∀ exit, Encoder.Routes [] [⟨name, s.start, exit⟩] s s' := by
  obtain ⟨id, journal, hname, -, rfl⟩ := bind_ok hexec
  refine ⟨rfl, rfl, fun exit => ⟨fun _ hmem => List.mem_cons_of_mem _ hmem, nofun, ?_, ?_⟩⟩
  · intro id' n' address hmem
    rcases List.mem_cons.1 hmem with heq | hmem
    · obtain ⟨rfl, hentity⟩ := Prod.mk.inj heq
      cases hentity
      exact .inr ⟨_, List.mem_cons_self, hname, rfl⟩
    · exact .inl hmem
  · intro block hblock
    obtain rfl := List.mem_singleton.1 hblock
    exact ⟨id, n, level, hname, List.mem_cons_self⟩

/-- What stands between the jump past a routine and its return. -/
theorem routine_body {c : Control} {level : Nat} {x x' y y' : Encode Int}
    (hx : level < Machine.maxRoutineLevel → Laying .nil x x' fun _ => True)
    (hy : level < Machine.maxRoutineLevel → Laying c y y' fun _ => True) {jump : Int} {u : Unit}
    (hexec : (do
        if ← assembler.nests level then
          let argumentSize ← x'
          let resultSize ← y'
          assembler.emitPlain .ret resultSize argumentSize
        else
          assembler.emitPlain .ret 0 0
        assembler.patch jump : Encode Unit).exec s = (.ok u, s')) :
    ∃ s₁ s₂ n d, s.Lays (if level < Machine.maxRoutineLevel then c else .nil) s₁ ∧
      (Encode.emit .ret n .cb d).exec s₁ = (.ok (), s₂) ∧
      (Encode.patch jump).exec s₂ = (.ok u, s') := by
  obtain ⟨nested, s₀, hnests, hexec⟩ := exec_bind_ok hexec
  unfold assembler at hnests
  dsimp only at hnests
  by_cases hlevel : level < Machine.maxRoutineLevel
  · -- within the limit the parameters and the body are encoded
    rw [if_neg (Nat.not_le.2 hlevel)] at hnests
    obtain ⟨hnested, rfl⟩ := Prod.mk.inj hnests
    obtain rfl := Except.ok.inj hnested
    obtain ⟨argumentSize, s₁, hexec₁, hexec⟩ := exec_bind_ok hexec
    obtain ⟨resultSize, s₂, hexec₂, hexec⟩ := exec_bind_ok hexec
    obtain ⟨_, s₃, hexec₃, hexec₄⟩ := exec_bind_ok hexec
    rw [if_pos hlevel]
    exact ⟨s₂, s₃, resultSize, argumentSize, (hx hlevel hexec₁).2.trans (hy hlevel hexec₂).2,
      hexec₃, hexec₄⟩
  · -- beyond it the restriction is reported, and nothing is between jump and return
    rw [if_pos (Nat.le_of_not_lt hlevel)] at hnests
    obtain ⟨hnested, rfl⟩ := Prod.mk.inj hnests
    obtain rfl := Except.ok.inj hnested
    obtain ⟨_, s₂, hexec₁, hexec₂⟩ := exec_bind_ok hexec
    rw [if_neg hlevel]
    have hadds : s.emitter.Adds (Instruction.Steady s.Enters)
        (s.emitter.restrict Limit.routineNesting.message) := .of_eq rfl rfl
    exact ⟨_, s₂, 0, 0, .of_adds hadds, hexec₁, hexec₂⟩

theorem routine {c : Control} {name : Name} {level : Nat} {x x' y y' : Encode Int}
    (hx : level < Machine.maxRoutineLevel → Laying .nil x x' fun _ => True)
    (hy : level < Machine.maxRoutineLevel → Laying c y y' fun _ => True) :
    Laying (.ofRoutine name level c) (assembler.routine name level x y)
      (assembler.routine name level x' y') fun _ => True := by
  intro s _ s₅ hexec
  refine ⟨trivial, fun hfull => ?_⟩
  obtain ⟨jump, s₁, hexec₁, hexec⟩ := exec_bind_ok hexec
  obtain ⟨entry, _, hnext, hexec⟩ := exec_bind_ok hexec
  obtain ⟨hentry, rfl⟩ := Prod.mk.inj hnext
  obtain rfl := Except.ok.inj hentry
  obtain ⟨_, s₂, hexec₂, hexec⟩ := exec_bind_ok hexec
  obtain ⟨s₃, s₄, n, d, hlays, hexec₄, hexec₅⟩ := routine_body hx hy hexec
  -- from the end backwards, as for `whileDo`
  obtain ⟨hfull, hentities₅, -, hcode₅⟩ := patch_step hexec₅ hfull
  obtain ⟨hfull, n', hcode₄, hentities₄⟩ := return_step hexec₄ hfull
  obtain ⟨hfull, flow, hcontrol, hfollows⟩ := hlays hfull
  obtain ⟨hfull₂, hcode₂, hroutes₂⟩ := bindRoutine_step hexec₂
  obtain ⟨rfl, hfull, hcode₁, hentities₁⟩ := emitForward_step (by decide) hexec₁
    (hfull₂.symm.trans hfull)
  have hstart₁ : s₁.start = s.start + 1 := start_eq hcode₁
  have hstart₂ : s₂.start = s₁.start := congrArg Array.size hcode₂
  have hstart₃ := hfollows.start_eq
  have hstart₄ : s₄.start = s₃.start + 1 := start_eq hcode₄
  -- the patch gives the jump past the routine its target, behind the return
  have hcode₅ := hcode₅ s.emitter.code.toList .jump 0
    (flow.code s₂.start ++ [.plain .ret n' d])
    (by
      rw [hcode₄, hfollows.code, hcode₂, hcode₁, List.append_assoc, List.append_assoc]
      rfl) rfl
  -- the routine is bound where its block starts, and blocks of the body follow
  have hroutes := (((Encoder.Routes.of_entities hentities₁).trans
    (hroutes₂ (s₁.start + flow.size))).trans hfollows.toRoutes).trans
      (.of_entities (hentities₅.trans hentities₄))
  simp only [List.append_nil, List.nil_append, List.cons_append, hstart₂, hstart₁] at hroutes
  refine ⟨hfull, .routine name flow n' d, ?_, ⟨hroutes, ?_⟩⟩
  · rw [Flow.control, hcontrol]
    rfl
  · rw [hcode₅, hstart₄, hstart₃, hstart₂, hstart₁]
    rfl

end Laying

/-- Encoding lays out flows of the control structures of trees. -/
theorem laying_covers : Assembler.Covers assembler assembler Laying {} where
  pure := .pure
  bind := .bind
  loadL n := .emitPlain (by decide) (by decide) (by decide) 0 n
  push n := .emitPlain (by decide) (by decide) (by decide) 0 n
  pop n d := .emitPlain (by decide) (by decide) (by decide) n d
  primitive := .emitPrimitive
  word n := .measuring fun hexec => (word_measured hexec).2
  sizeOf _ := .measuring fun hexec => (sizeOf_measured hexec).2
  sizeOf? span _ := .measuring fun hexec => (sizeOf?_measured hexec).1
  fieldOffset field _ := .measuring fun hexec => fieldOffset_measured hexec
  entityOf _ := .entityOf _
  bindName _ hlocal := .bindName _ hlocal
  fetch size _ _ := .moving size
    (fun h => (Entity.fetch_asks _ _ _ _).adds Entity.admits_steady.fetch h) rfl
  store size _ _ := .moving size
    (fun h => (Entity.store_asks _ _ _ _).adds Entity.admits_steady.store h) rfl
  fetchAddress _ _ := fun _ _ _ hexec =>
    ⟨trivial, Laying.requesting (fun h => (Entity.fetchAddress_asks _ _ _).adds
      Entity.admits_steady.fetchAddress h) hexec⟩
  invoke _ _ := .applying (fun hentry h =>
    (Entity.call_asks _ _).adds (Entity.admitsEntry_steady hentry).call h) rfl
  pass _ _ := .applying (fun hentry h =>
    (Entity.fetchClosure_asks _ _).adds (Entity.admitsEntry_steady hentry).fetchClosure h) rfl
  branch := .branch
  whileDo := .whileDo
  repeatUntil := .repeatUntil
  loopWhile := .loopWhile
  routine _ := .routine

end Encode

end TriangleTam
