import TriangleTam.Proofs.Coding.Limits
import TriangleTam.Proofs.StaticLinks

/-! # Exact limits

  Code generation reports a restriction if and only if the translation without
  limits asks for more than the machine provides: for more instructions than
  there is room for, for a length that no operand has, for a size, an offset,
  a frame depth or a displacement that is no word, or for a routine at too deep
  a level. Where it reports nothing, its code is that of the ideal machine, so
  that no number in it was ever saturated or cut.
-/

namespace TriangleTam

/-- The encoder is fit before the command of a program. -/
theorem Encoder.initial_fit {layouts : Layouts} (hfresh : layouts.Fresh) (showTable : Bool)
    (journal : Journal) (made : List TypeDenoter) (levelOf : BindingId → Nat) :
    (Encoder.initial layouts showTable journal).Fit made levelOf :=
  ⟨initial_laid hfresh showTable journal made, Nat.zero_le _,
    (initial_apt layouts showTable journal levelOf).levels⟩

/-- From an encoder without reports, the ideal translation of a decorated program foretells how
    it is encoded. -/
theorem Program.Typed.foretold {program decorated : Program} (h : program.Typed decorated)
    {layouts : Layouts} (hfresh : layouts.Fresh) {showTable : Bool} {journal : Journal}
    {s' : Encoder} (hencoded : decorated.Encoded layouts showTable journal s') :
    ∃ made levelOf, (Ideal.program decorated).Foretells made levelOf
      (.initial layouts showTable journal) () { s' with emitter := s'.emitter.emitPlain .halt 0 0 } := by
  cases h with
  | command htyped =>
    obtain ⟨levelOf, hstandard, hbinds⟩ := (htyped.spread Frame.initial.level).binds
    have hfits := htyped.fits (Env.standard_within hstandard) hbinds
    have hknown := htyped.known Env.standard_typesIn
    have hlevel : Frame.initial.level ≤ Machine.maxRoutineLevel := Nat.zero_le _
    have hcommand := (Ideal.covers _ levelOf).command hlevel hknown hfits
    have hall := hcommand.bind fun _ _ => Ideal.Foretelling.emit .halt 0 .cb 0
    rw [Encode.assembler_command] at hall
    refine ⟨_, levelOf, (hall (Encoder.initial_fit hfresh showTable journal _ levelOf) ?_).2⟩
    exact Encode.exec_bind hencoded.exec

/-- After a program was checked without a report, code generation for its tree, folded or not,
    reports nothing if and only if the ideal translation of the tree keeps within the limits. Then
    both have the same code. -/
theorem Program.limits_exact {text : String} {program : Program}
    (hparse : Program.parse text = .ok program) {journal : Journal}
    (hclean : (program.check journal).journal.diagnostics = journal.diagnostics)
    (options : Options) (layouts : Layouts) {journal' : Journal}
    (hquiet : journal'.diagnostics = #[]) :
    let tree := (program.check journal).program.prepared options
    let encoded := tree.encode layouts.standard options.showTable journal'
    (encoded.journal.diagnostics = #[] ↔ tree.ideal.WithinLimits) ∧
      (encoded.journal.diagnostics = #[] →
        encoded.object.instructions.toList = tree.ideal.code) := by
  have htyped := Program.typed_of_check (Program.proper_of_parse hparse) hclean
  obtain ⟨source, hsource⟩ := htyped.prepared options
  have hfresh := Layouts.fresh_standard layouts
  obtain ⟨s', hencoded⟩ := hsource.encoded hfresh options.showTable journal'
  obtain ⟨made, levelOf, hforetells⟩ := hsource.foretold hfresh hencoded
  have hstart : (Encoder.initial layouts.standard options.showTable journal').Quiet :=
    ⟨⟨hquiet, rfl, rfl⟩, rfl⟩
  have hmirrors : (Encoder.initial layouts.standard options.showTable journal').Mirrors
      ⟨[], Standard.entities⟩ := ⟨rfl, rfl⟩
  have hiff := hencoded.clean_iff.trans (hforetells.quiet hstart hmirrors)
  have hroom := (Ideal.program ((program.check journal).program.prepared options)).room
    ⟨[], Standard.entities⟩
  refine ⟨hiff.trans ⟨fun h => ⟨hroom.trans_le h.room, h.met⟩,
    fun h => ⟨hroom.symm.trans_le h.room, h.met⟩⟩, fun hclean' => ?_⟩
  · have hquiet' := hencoded.clean_iff.1 hclean'
    rw [hencoded.object_eq hquiet'.inRange]
    exact (hforetells.same hstart hmirrors hquiet').2.code

/-- A text with a routine, a loop, an element of a field and an aggregate. -/
private def withinText : String :=
  "let type R ~ record a: array 3 of Integer, b: Boolean end; var r: R; var i: Integer; " ++
    "proc p(var x: Integer) ~ while r.b do x := r.a[i] " ++
      "in begin r := \x7ba ~ [1, 2, 3], b ~ true\x7d; p(var i) end"

/-- A text with a type whose values have more words than there are numbers for. -/
private def beyondText : String :=
  "let type A ~ array 30000 of array 30000 of array 3 of Integer; var a: A in"

/-- The first text keeps within the limits, and the second does not. -/
theorem Program.limits_exact_sample : ∃ within beyond,
    Program.parse withinText = .ok within ∧ Program.parse beyondText = .ok beyond ∧
    (let tree := (within.check .empty).program.prepared {};
      tree.ideal.WithinLimits ∧ tree.ideal.code.length = 22 ∧
        (tree.encode Layouts.empty.standard false .empty).object.instructions.toList =
          tree.ideal.code) ∧
    let tree := (beyond.check .empty).program.prepared {}
    ¬ tree.ideal.WithinLimits ∧ .word 2700000000 ∈ tree.ideal.demands := by
  have hwithin : (Program.parse withinText).toOption.any (fun program =>
      let tree := (program.check .empty).program.prepared {}
      (program.check .empty).journal.diagnostics.isEmpty &&
        (tree.encode Layouts.empty.standard false .empty).journal.diagnostics.isEmpty &&
          decide (tree.ideal.code.length = 22)) = true := by
    decide +kernel
  have hbeyond : (Program.parse beyondText).toOption.any (fun program =>
      let tree := (program.check .empty).program.prepared {}
      (program.check .empty).journal.diagnostics.isEmpty &&
        !(tree.encode Layouts.empty.standard false .empty).journal.diagnostics.isEmpty &&
          decide (.word 2700000000 ∈ tree.ideal.demands)) = true := by
    decide +kernel
  cases hok : Program.parse withinText with
  | error d =>
    rw [hok] at hwithin
    cases hwithin
  | ok within =>
    cases hok' : Program.parse beyondText with
    | error d =>
      rw [hok'] at hbeyond
      cases hbeyond
    | ok beyond =>
      rw [hok] at hwithin
      rw [hok'] at hbeyond
      obtain ⟨hwithin, hlength⟩ := Bool.and_eq_true_iff.1 hwithin
      obtain ⟨hclean, hquiet⟩ := Bool.and_eq_true_iff.1 hwithin
      obtain ⟨hbeyond, hword⟩ := Bool.and_eq_true_iff.1 hbeyond
      obtain ⟨hclean', hloud⟩ := Bool.and_eq_true_iff.1 hbeyond
      have hempty : Journal.empty.diagnostics = #[] := rfl
      obtain ⟨hiff, hcode⟩ := limits_exact hok (Array.isEmpty_iff.1 hclean) {} .empty hempty
      obtain ⟨hiff', -⟩ := limits_exact hok' (Array.isEmpty_iff.1 hclean') {} .empty hempty
      have hquiet := Array.isEmpty_iff.1 hquiet
      refine ⟨within, beyond, rfl, rfl, ⟨hiff.1 hquiet, of_decide_eq_true hlength, hcode hquiet⟩,
        fun h => ?_, of_decide_eq_true hword⟩
      have hquiet' := Array.isEmpty_iff.2 (hiff'.2 h)
      rw [Bool.not_eq_true'] at hloud
      exact Bool.false_ne_true (hloud.symm.trans hquiet')

end TriangleTam
