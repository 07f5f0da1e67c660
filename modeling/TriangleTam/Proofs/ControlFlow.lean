import TriangleTam.Proofs.Coding.Laying
import TriangleTam.Proofs.Compilation

/-! # Control flow of object programs

  As long as it fits in the code store, the code of a program without errors
  is a flow of the program's control structure, followed by its only halt.
  Whatever else was reported, control never gets out of hand: jumps have the
  targets that their constructs ask for, and what is called or passed is the
  entry point of a routine.
-/

namespace TriangleTam

/-- Control in the object is closed, and its routines are blocks. -/
structure ObjectProgram.Structured (object : ObjectProgram) (blocks : List Block) : Prop where
  /-- The last instruction is a halt, and no other is. -/
  halts      : ∃ code, object.instructions.toList = code ++ [.plain .halt 0 0] ∧
    ∀ i ∈ code, i.op ≠ .halt
  /-- Jumps stay in the object and in the blocks that they are in, and enter no other block. -/
  jumps      : ∀ i address, (i, address) ∈ object.instructions.toList.zipIdx → i.op.IsJump →
    i.r = Register.cb.number ∧ ∃ target : Nat, i.d = target ∧ target < object.size ∧
      ∀ block ∈ blocks, block.Contains address ↔ block.Contains target
  /-- What is called or pushed of the code is the entry point of a block. -/
  references : ∀ i ∈ object.instructions, i.RefersToCode → ∃ block ∈ blocks, i.d = block.entry
  within     : ∀ block ∈ blocks,
    0 < block.entry ∧ block.entry ≤ block.exit ∧ block.exit < object.size
  /-- A block ends with a return, and a return ends a block. -/
  ended      : ∀ block ∈ blocks, ∃ n d,
    (.plain .ret n d, block.exit) ∈ object.instructions.toList.zipIdx
  returns    : ∀ i address, (i, address) ∈ object.instructions.toList.zipIdx → i.op = .ret →
    ∃ block ∈ blocks, block.exit = address
  /-- The instruction in front of a block jumps past it. -/
  skipped    : ∀ block ∈ blocks, (.plain .jump 0 (block.exit + 1 : Nat), block.entry - 1) ∈
    object.instructions.toList.zipIdx
  /-- Of two blocks, one lies in the other, or they are apart. -/
  nested     : blocks.Pairwise Block.Before

/-- The code of a flow with a halt at its end is structured, if its straight lines refer to entry
    points. -/
theorem Flow.structured {flow : Flow}
    (hlines : ∀ i ∈ flow.lines, i.Steady fun entry => ∃ block ∈ flow.blocks 0, entry = block.entry)
    {object : ObjectProgram}
    (hobject : object.instructions.toList = flow.code 0 ++ [.plain .halt 0 0]) :
    object.Structured (flow.blocks 0) := by
  have hclosed := Flow.closed (fun i hmem => (hlines i hmem).1) 0
  have hsize : object.size = flow.size + 1 := by
    have hlength := congrArg List.length hobject
    rwa [List.length_append, Flow.length_code] at hlength
  have hzip : object.instructions.toList.zipIdx =
      (flow.code 0).zipIdx ++ [(.plain .halt 0 0, flow.size)] := by
    rw [hobject, List.zipIdx_append, Flow.length_code, Nat.zero_add]
    rfl
  have hlength := flow.length_code 0
  -- what holds of the flow holds of the object, since the halt is no jump, return or closure
  refine ⟨⟨flow.code 0, hobject, fun i hmem hhalt => ?_⟩, fun i address hmem hjump => ?_,
    fun i hmem hrefers => ?_, fun block hblock => ?_, fun block hblock => ?_,
    fun i address hmem hret => ?_, fun block hblock => ?_, hclosed.nested⟩
  · rcases mem_code hmem with hline | hjump | hret
    · exact (hlines i hline).1.2.2.2.2 hhalt
    · rw [hhalt] at hjump
      rcases hjump with hjump | hjump <;> cases hjump
    · rw [hhalt] at hret
      cases hret
  · rw [hzip] at hmem
    rcases List.mem_append.1 hmem with hmem | hmem
    · obtain ⟨hr, target, htarget, hrange, hblocks⟩ := hclosed.jumps i address hmem hjump
      have hrange := hrange.resolve_right id
      exact ⟨hr, target, htarget, by omega, hblocks⟩
    · obtain ⟨rfl, -⟩ := Prod.mk.inj (List.mem_singleton.1 hmem)
      rcases hjump with hjump | hjump <;> cases hjump
  · have hmem := Array.mem_toList_iff.2 hmem
    rw [hobject] at hmem
    rcases List.mem_append.1 hmem with hmem | hmem
    · rcases mem_code hmem with hline | hjump | hret
      · exact (hlines i hline).2 hrefers
      · rcases hrefers.1 with hop | hop <;> rw [hop] at hjump <;>
          rcases hjump with hjump | hjump <;> cases hjump
      · rcases hrefers.1 with hop | hop <;> rw [hop] at hret <;> cases hret
    · obtain rfl := List.mem_singleton.1 hmem
      rcases hrefers.1 with hop | hop <;> cases hop
  · have hwithin := hclosed.within block hblock
    omega
  · obtain ⟨n, d, hmem⟩ := hclosed.ended block hblock
    exact ⟨n, d, hzip ▸ List.mem_append_left _ hmem⟩
  · rw [hzip] at hmem
    rcases List.mem_append.1 hmem with hmem | hmem
    · exact hclosed.returns i address hmem hret
    · obtain ⟨rfl, -⟩ := Prod.mk.inj (List.mem_singleton.1 hmem)
      cases hret
  · exact hzip ▸ List.mem_append_left _ (hclosed.skipped block hblock)

/-! ## Programs -/

/-- Unless the store is full, the halt is the last instruction. -/
theorem Encoder.finish_toList {s : Encoder} (h : s.finish.full = false) :
    s.emitter.full = false ∧
      s.finish.code.toList = s.emitter.code.toList ++ [.plain .halt 0 0] := by
  have hadds : (s.emitter.emitPlain .halt 0 0).full = s.finish.full ∧
      (s.emitter.emitPlain .halt 0 0).code = s.finish.code := by
    unfold finish Emitter.restrictAddress
    split
    · split <;> exact ⟨rfl, rfl⟩
    · exact ⟨rfl, rfl⟩
  obtain ⟨hfull, hcode⟩ := Emitter.emit_toList (hadds.1.trans h)
  refine ⟨hfull, ?_⟩
  rw [← hadds.2]
  exact hcode

/-- No standard declaration is a routine with an entry point. -/
theorem Standard.not_knownRoutine {id : BindingId} {n : Int} {address : Address} :
    (id, Entity.knownRoutine n address) ∉ Standard.entities := by
  intro hmem
  obtain ⟨⟨declaration, id'⟩, hmem, heq⟩ := List.mem_map.1 hmem
  have hall : ∀ declaration ∈ declarations, ∀ n address,
      declaration.entity ≠ .knownRoutine n address := by
    intro declaration hmem
    fin_cases hmem <;> nofun
  have hat := List.mem_zipIdx_iff_getElem?.1 hmem
  exact hall declaration (List.mem_of_getElem? hat) n address (Prod.mk.inj heq).2

/-- Code for a decorated program is laid out as a flow of its control structure. -/
theorem Program.Typed.lays {program decorated : Program} (h : program.Typed decorated)
    {layouts : Layouts} {showTable : Bool} {journal : Journal} {s' : Encoder}
    (hencoded : decorated.Encoded layouts showTable journal s') :
    (Encoder.initial layouts showTable journal).Lays
      (decorated.command.control Frame.initial.level) s' := by
  cases h with
  | command htyped =>
    have hall := (htyped.known Env.standard_typesIn).mono (fun _ _ => trivial)
      fun _ _ => trivial
    have hlevel : Frame.initial.level ≤ Machine.maxRoutineLevel := Nat.zero_le _
    have hlaying := Encode.laying_covers.command hlevel hall fun _ _ => trivial
    rw [Encode.assembler_command] at hlaying
    exact (hlaying hencoded.exec).2

/-- After a program was checked without a report, code for its tree, folded or not, is a flow with
    the control structure of the tree and the only halt at its end, unless the code store is
    reported to be full. Control in it is closed, its blocks are the routines of the program, and
    these start where the encoder takes their entry points to be. -/
theorem Program.control_structured {text : String} {program : Program}
    (hparse : Program.parse text = .ok program) {journal : Journal}
    (hclean : (program.check journal).journal.diagnostics = journal.diagnostics)
    (options : Options) (layouts : Layouts) (journal' : Journal)
    (hroom : .ofRestriction Limit.codeStore.message ∉ (((program.check journal).program.prepared
      options).encode layouts.standard options.showTable journal').journal.diagnostics) :
    let tree := (program.check journal).program.prepared options
    let object := (tree.encode layouts.standard options.showTable journal').object
    ∃ (flow : Flow) (s' : Encoder),
      (Encode.command tree.command Frame.initial).exec
        (.initial layouts.standard options.showTable journal') = (.ok (), s') ∧
      flow.control = tree.command.control Frame.initial.level ∧
      object.instructions.toList = flow.code 0 ++ [.plain .halt 0 0] ∧
      object.Structured (flow.blocks 0) ∧
      (flow.blocks 0).map Block.name = (tree.command.control Frame.initial.level).routines ∧
      (∀ id n (address : Address), (id, .knownRoutine n address) ∈ s'.entities →
        ∃ block ∈ flow.blocks 0, block.name.binding = some id ∧
          address.displacement = (block.entry : Int)) ∧
      ∀ block ∈ flow.blocks 0, ∃ id n level, block.name.binding = some id ∧
        (id, .knownRoutine n ⟨level, block.entry⟩) ∈ s'.entities := by
  have htyped := Program.typed_of_check (Program.proper_of_parse hparse) hclean
  obtain ⟨source, hsource⟩ := htyped.prepared options
  obtain ⟨s', hencoded⟩ := hsource.encoded (Layouts.fresh_standard layouts) options.showTable
    journal'
  -- the store is not full in the end, as that would have been reported
  have htold : s'.finish.Told := s'.finish_appends.before.told (hencoded.before.told nofun)
  rw [hencoded.encode_eq.2] at hroom
  have hfull : s'.finish.full = false := Bool.eq_false_iff.2 fun hfull => hroom (htold hfull)
  obtain ⟨hfull', hcode⟩ := Encoder.finish_toList hfull
  obtain ⟨-, flow, hcontrol, hfollows⟩ := hsource.lays hencoded hfull'
  have hroutines : ∀ id n (address : Address), (id, .knownRoutine n address) ∈ s'.entities →
      ∃ block ∈ flow.blocks 0, block.name.binding = some id ∧
        address.displacement = (block.entry : Int) := fun id n address hmem =>
    (hfollows.routines id n address hmem).resolve_left Standard.not_knownRoutine
  have hobject : (((program.check journal).program.prepared options).encode layouts.standard
      options.showTable journal').object.instructions.toList =
        flow.code 0 ++ [.plain .halt 0 0] := by
    rw [hencoded.encode_eq.1, hcode, hfollows.code]
    rfl
  refine ⟨flow, s', hencoded.exec, hcontrol, hobject, Flow.structured (fun i hmem => ?_) hobject,
    hcontrol ▸ flow.map_name_blocks 0, hroutines, hfollows.blocks⟩
  obtain ⟨hop, hrefers⟩ := hfollows.lines i hmem
  refine ⟨hop, fun hcode => ?_⟩
  obtain ⟨id, n, level, hat⟩ := hrefers hcode
  obtain ⟨block, hblock, -, hentry⟩ := hroutines id n _ hat
  exact ⟨block, hblock, hentry⟩

/-- A text with a routine in a routine, a loop and a conditional, and an assignment of more words
    than one instruction can move. -/
private def restrictedText : String :=
  "let type A ~ array 300 of Integer; var a: A; var b: A; " ++
    "proc p() ~ let func f(x: Integer): Integer ~ if x > 0 then x - 1 else 0 " ++
      "in while f(1) > 0 do a := b in p()"

/-- The code for the text is structured, although restrictions are reported. -/
theorem Program.control_structured_sample :
    ∃ (program : Program) (flow : Flow), Program.parse restrictedText = .ok program ∧
      let encoded := ((program.check .empty).program.prepared {}).encode Layouts.empty.standard
        false .empty
      encoded.journal.diagnostics.size = 2 ∧ encoded.object.size = 26 ∧
        encoded.object.Structured (flow.blocks 0) := by
  have hruns : (Program.parse restrictedText).toOption.any (fun program =>
      let encoded := ((program.check .empty).program.prepared {}).encode Layouts.empty.standard
        false .empty
      (program.check .empty).journal.diagnostics.isEmpty &&
        decide (.ofRestriction Limit.codeStore.message ∉ encoded.journal.diagnostics ∧
          encoded.journal.diagnostics.size = 2 ∧ encoded.object.size = 26)) = true := by
    decide +kernel
  cases hok : Program.parse restrictedText with
  | error d =>
    rw [hok] at hruns
    cases hruns
  | ok program =>
    rw [hok] at hruns
    obtain ⟨hclean, hencoded⟩ := Bool.and_eq_true_iff.1 hruns
    obtain ⟨hroom, hreports, hsize⟩ := of_decide_eq_true hencoded
    obtain ⟨flow, -, -, -, -, hstructured, -, -, -⟩ :=
      control_structured hok (Array.isEmpty_iff.1 hclean) {} .empty .empty hroom
    exact ⟨program, flow, rfl, hreports, hsize, hstructured⟩

end TriangleTam
