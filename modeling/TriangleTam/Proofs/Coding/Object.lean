import Mathlib.Tactic.FinCases
import TriangleTam.Compiler
import TriangleTam.Proofs.Coding.Encoding
import TriangleTam.Proofs.Typing.Exact
import TriangleTam.Proofs.Typing.Folded

/-! # Object programs

  The standard declarations are represented as their kinds allow, so that the
  encoder of a program is ready before its command, and every decorated
  program encodes. The words that its routines take and leave are planned
  beforehand; how its bindings are represented is read off the end of the run.
-/

namespace TriangleTam

/-! ## The standard environment -/

namespace Standard

/-- Every standard declaration is of a type, or represented as its kind allows. -/
theorem represented (π : Plan) : ∀ declaration ∈ declarations,
    (∃ type, declaration.shape.kind = .type type) ∨
      ∀ id, declaration.shape.kind.RepresentedBy π id declaration.entity := by
  have hprimitive (id : BindingId) (p : Primitive) (hp : ¬ p.IsEquality) :
      Entity.Transfers π id p.transfer (.primitiveRoutine p) := ⟨.primitive hp, nofun⟩
  have hoperator (id : BindingId) {p : Primitive} (hp : ¬ p.IsEquality)
      {left right result : TypeDenoter} (hleft : left ≠ .any)
      (htransfer : p.transfer = ⟨left.size + right.size, result.size⟩) :
      (BindingKind.binary left right result).RepresentedBy π id (.primitiveRoutine p) :=
    .inl ⟨hleft, htransfer ▸ hprimitive id p hp⟩
  intro declaration hmem
  fin_cases hmem
  -- types
  iterate 3 exact .inl ⟨_, rfl⟩
  -- constants
  iterate 3 exact .inr fun _ => .inr ⟨trivial, rfl, _, _, rfl⟩
  -- unary operators
  · exact .inr fun id => hprimitive id .not (by decide)
  · exact .inr fun _ => ⟨.bar, nofun⟩
  -- binary operators, with the equalities last
  iterate 11 exact .inr fun id => hoperator id (by decide) nofun rfl
  iterate 2 exact .inr fun _ => .inr ⟨rfl, rfl, _, by decide, rfl⟩
  -- routines
  all_goals exact .inr fun id => hprimitive id _ (by decide)

/-- The standard entities are those of the standard declarations, by number. -/
theorem lookup_entities (id : BindingId) :
    entities.lookup id = (declarations[id]?).map StandardDeclaration.entity := by
  have h (ds : List StandardDeclaration) (n : Nat) : ((ds.zipIdx n).map fun entry =>
      (entry.2, entry.1.entity)).lookup (n + id) = (ds[id]?).map StandardDeclaration.entity := by
    induction ds generalizing n id with
    | nil => rfl
    | cons d ds ih =>
      rw [List.zipIdx_cons, List.map_cons, List.lookup_cons]
      cases id with
      | zero => simp
      | succ id =>
        rw [beq_false_of_ne (by omega)]
        have hshift := ih id (n + 1)
        rw [Nat.add_right_comm, Nat.add_assoc] at hshift
        rw [List.getElem?_cons_succ]
        exact hshift
  have h₀ := h declarations 0
  rwa [Nat.zero_add] at h₀

end Standard

/-! ## The encoder of a program -/

/-- The encoder before the command of a program. -/
def Encoder.initial (layouts : Layouts) (showTable : Bool) (journal : Journal) : Encoder :=
  { emitter := .ofJournal journal, entities := Standard.entities,
    layouts := layouts.withStandard, showTable }

/-- No written denoter is laid out. -/
def Layouts.Fresh (layouts : Layouts) : Prop :=
  ∀ serial, layouts.contains (.written serial) = false

theorem Layouts.Fresh.withStandard {layouts : Layouts} (h : layouts.Fresh) :
    layouts.withStandard.Fresh := by
  have hstep {type : TypeDenoter} (hscalar : type.IsScalar) {layouts : Layouts}
      (h : layouts.Fresh) : (type.layOut { layouts }).layouts.Fresh := by
    intro serial
    cases type with
    | boolean | character | integer =>
      unfold TypeDenoter.layOut
      split
      · exact h serial
      · simp [LayingOut.add, h serial]
    | _ => exact hscalar.elim
  have hcharacter : TypeDenoter.character.IsScalar := trivial
  have hinteger : TypeDenoter.integer.IsScalar := trivial
  have hboolean : TypeDenoter.boolean.IsScalar := trivial
  exact hstep hinteger (hstep hcharacter (hstep hboolean h))

theorem Encoder.initial_laid {layouts : Layouts} (hfresh : layouts.Fresh) (showTable : Bool)
    (journal : Journal) (made : List TypeDenoter) :
    (Encoder.initial layouts showTable journal).Laid made := by
  intro _ serial hcontains
  have hnone := hfresh.withStandard serial
  exact absurd hcontains (by rw [Encoder.initial, hnone]; exact Bool.false_ne_true)

/-- The encoder can encode in the standard environment. -/
theorem Encoder.initial_ready {layouts : Layouts} (hfresh : layouts.Fresh) (showTable : Bool)
    (journal : Journal) (made : List TypeDenoter) (π : Plan) (n : Nat) :
    (Encoder.initial layouts showTable journal).Ready made π Env.standard
      (Set.Ico Standard.declarations.length n) := by
  refine ⟨?_, ?_, Encoder.initial_laid hfresh showTable journal made, Nat.zero_le _⟩
  · intro entry hmem
    simp only [Env.standard, Env.entries, List.flatten_nil, List.append_nil, List.mem_reverse,
      List.mem_map] at hmem
    obtain ⟨⟨declaration, id⟩, hmem, rfl⟩ := hmem
    have hat : Standard.declarations[id]? = some declaration := List.mem_zipIdx_iff_getElem?.1 hmem
    rcases Standard.represented π declaration (List.mem_of_getElem? hat) with htype | hrep
    · exact .inl htype
    · refine .inr ⟨declaration.entity, ?_, hrep id⟩
      show Standard.entities.lookup id = some declaration.entity
      rw [Standard.lookup_entities, hat]
      rfl
  · intro id hid
    show Standard.entities.lookup id = none
    rw [Standard.lookup_entities, List.getElem?_eq_none hid.1]
    rfl

/-! ## Programs -/

/-- The calls of the encoder for a whole program. -/
def Program.calls (program : Program) (layouts : Layouts) (showTable : Bool) (journal : Journal) :
    List Call :=
  (Phrase.command program.command).calls Frame.initial (.initial layouts showTable journal)
    (program.command.inner Frame.initial (.initial layouts showTable journal))

/-- Bindings are represented as they are in the encoder. -/
def Encoder.plan (s : Encoder) (routines : List Routine) : Plan :=
  ⟨fun id => s.entities.lookup id, routines⟩

/-- The encoder went through a program: it returned, and if it ended quiet, it wrote the lines
    of the program's code. -/
structure Program.Encoded (program : Program) (layouts : Layouts) (showTable : Bool)
    (journal : Journal) (s' : Encoder) : Prop where
  exec   : (Encode.command program.command Frame.initial).exec
    (.initial layouts showTable journal) = (.ok (), s')
  before : (Encoder.initial layouts showTable journal).emitter.Before s'.emitter
  quiet  : s'.Quiet → ∃ lines, Command.Code (s'.plan program.command.routines)
    Frame.initial 0 program.command lines ∧
      (Encoder.initial layouts showTable journal).Wrote s'
        (program.calls layouts showTable journal) 0 0 lines

/-- Every decorated program encodes. -/
theorem Program.Typed.encoded {program decorated : Program} (h : program.Typed decorated)
    {layouts : Layouts} (hfresh : layouts.Fresh) (showTable : Bool) (journal : Journal) :
    ∃ s', decorated.Encoded layouts showTable journal s' := by
  cases h with
  | @command _ _ _ command _ htyped =>
    have hknown := htyped.known Env.standard_typesIn
    have hruns (π : Plan) (hplan : command.routines ⊆ π.routines) :=
      htyped.encodes hknown hplan Frame.initial _
        (Encoder.initial_ready hfresh showTable journal _ _ _)
    obtain ⟨_, s', hexec, hbefore, -⟩ :=
      hruns ⟨fun _ => none, command.routines⟩ (List.Subset.refl _)
    refine ⟨s', hexec, hbefore.emitter, fun hquiet => ?_⟩
    -- the same run, planned with the representations that it ended with
    obtain ⟨_, s'', hexec', -, hyields⟩ := hruns (s'.plan command.routines) (List.Subset.refl _)
    obtain rfl : s' = s'' := congrArg Prod.snd (hexec.symm.trans hexec')
    obtain ⟨lines, hcode, hwrote⟩ := hyields ⟨hquiet, fun hat => hat⟩
    exact ⟨lines, hcode, hwrote⟩

/-- The emitter after the halt and the last report. -/
def Encoder.finish (s : Encoder) : Emitter :=
  if s.outOfRange then (s.emitter.emitPlain .halt 0 0).restrictAddress
  else s.emitter.emitPlain .halt 0 0

theorem Encoder.finish_appends (s : Encoder) : s.emitter.Appends s.finish [.plain .halt 0 0] := by
  have hhalt := s.emitter.emitPlain_appends .halt 0 0
  unfold finish
  split
  · exact hhalt.trans (Emitter.restrictAddress_appends _ [])
  · exact hhalt

namespace Program.Encoded

variable {program : Program} {layouts : Layouts} {showTable : Bool} {journal : Journal}
  {s' : Encoder}

theorem encode_eq (h : program.Encoded layouts showTable journal s') :
    (program.encode layouts showTable journal).object = ⟨s'.finish.code⟩ ∧
      (program.encode layouts showTable journal).journal.diagnostics =
        s'.finish.journal.diagnostics := by
  have hrun : (Encode.command program.command Frame.initial).run.run
      (.initial layouts showTable journal) = (.ok (), s') := h.exec
  unfold Encoder.initial at hrun
  unfold Program.encode
  simp only [hrun]
  exact ⟨rfl, rfl⟩

/-- Encoding a decorated program reports restrictions alone. -/
theorem gains (h : program.Encoded layouts showTable journal s') :
    journal.Gains .restriction (program.encode layouts showTable journal).journal := by
  obtain ⟨-, hdiagnostics⟩ := h.encode_eq
  have hgains : journal.Gains .restriction s'.emitter.journal := h.before.gains
  exact (hgains.trans s'.finish_appends.before.gains).trans (.of_diagnostics hdiagnostics)

/-- Nothing was reported in the end if and only if the encoder is quiet after the halt. -/
theorem clean_iff (h : program.Encoded layouts showTable journal s') :
    (program.encode layouts showTable journal).journal.diagnostics = #[] ↔
      Encoder.Quiet { s' with emitter := s'.emitter.emitPlain .halt 0 0 } := by
  rw [h.encode_eq.2]
  constructor
  · intro hclean
    have honest : (Emitter.ofJournal journal).Honest := fun hclean => ⟨hclean, rfl, rfl⟩
    have hquiet : s'.finish.Quiet :=
      s'.finish_appends.before.honest (h.before.honest honest) hclean
    unfold Encoder.finish at hquiet
    split at hquiet
    · exact absurd hquiet (Emitter.restrictAddress_not_quiet _)
    · next hrange => exact ⟨hquiet, Bool.not_eq_true _ ▸ hrange⟩
  · rintro ⟨hquiet, hrange⟩
    have hrange : s'.outOfRange = false := hrange
    unfold Encoder.finish
    rw [hrange]
    exact hquiet.clean

/-- Where nothing was out of range, the object is the code with the halt behind it. -/
theorem object_eq (h : program.Encoded layouts showTable journal s')
    (hrange : s'.outOfRange = false) :
    (program.encode layouts showTable journal).object =
      ⟨(s'.emitter.emitPlain .halt 0 0).code⟩ := by
  rw [h.encode_eq.1, Encoder.finish, hrange]
  rfl

/-- If nothing was reported in the end, nothing was reported on the way. -/
theorem quiet_of_clean (h : program.Encoded layouts showTable journal s')
    (hclean : (program.encode layouts showTable journal).journal.diagnostics = #[]) :
    s'.Quiet ∧ (program.encode layouts showTable journal).object.instructions.toList =
      s'.emitter.code.toList ++ [.plain .halt 0 0] := by
  obtain ⟨hquiet, hrange⟩ := h.clean_iff.1 hclean
  have hhalt := s'.emitter.emitPlain_appends .halt 0 0
  refine ⟨⟨hhalt.before.quiet hquiet, hrange⟩, ?_⟩
  rw [h.object_eq hrange]
  exact hhalt.code hquiet

end Program.Encoded

end TriangleTam
