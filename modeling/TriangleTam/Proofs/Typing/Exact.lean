import TriangleTam.Proofs.Typing.Complete
import TriangleTam.Proofs.Typing.Sound

/-! # Checking is exact

  Checking makes no report on a parsed program if and only if the program has
  a decoration that the typing rules allow. There is one decoration at most,
  which is the one that checking leaves in the tree, and its types are
  resolved.
-/

namespace TriangleTam

/-- Checking starts from the names of the standard environment. -/
theorem Checker.standard_agrees (program : Program) (journal : Journal) :
    (⟨Standard.bindings, Standard.scopes, journal, program.serials⟩ : Checker).Agrees
      Env.standard program.supply := by
  refine ⟨?_, ?_, rfl, ?_⟩
  · show Standard.scopes = Env.standard.scopes
    decide
  · intro entry hmem
    simp only [Env.standard, Env.entries, List.flatten_nil, List.append_nil, List.mem_reverse,
      List.mem_map] at hmem
    obtain ⟨⟨declaration, id⟩, hmem, rfl⟩ := hmem
    have hat : Standard.declarations[id]? = some declaration := List.mem_zipIdx_iff_getElem?.1 hmem
    simp [Standard.bindings, hat]
  · simp [Program.supply]

/-- What checking ends with, in terms of the run over the program's command. -/
theorem Program.check_eq (program : Program) (journal : Journal) {command : Command}
    {s : Checker} (h : (Check.command program.command).exec
      ⟨Standard.bindings, Standard.scopes, journal, program.serials⟩ = (command, s)) :
    (program.check journal).program = { program with command, serials := s.serials } ∧
      (program.check journal).journal.diagnostics = s.journal.diagnostics ∧
      (program.check journal).bindings = s.bindings := by
  have hrun : (Check.command program.command).run
      ⟨Standard.bindings, Standard.scopes, journal, program.serials⟩ = (command, s) := h
  simp [Program.check, hrun, Journal.log]

/-- Where the rules allow a decoration, checking makes no report, returns the decoration, and
    adds to the standard bindings those of the decoration. -/
theorem Program.Typed.check_passes {program decorated : Program} (h : program.Typed decorated)
    (journal : Journal) :
    (program.check journal).program = decorated ∧
      (program.check journal).journal.diagnostics = journal.diagnostics ∧
      (program.check journal).bindings.toList =
        Standard.bindings.toList ++ decorated.command.bindings := by
  cases h with
  | @command command span serials command' p' htyped =>
  obtain ⟨s', hexec, hholds, hjournal⟩ :=
    Check.command_passes ⟨Checker.standard_agrees _ journal, rfl⟩ htyped
  obtain ⟨hprogram, hdiagnostics, hbindings⟩ :=
    Program.check_eq ⟨command, span, serials⟩ journal hexec
  rw [hprogram, hdiagnostics, hbindings, hjournal, hholds.agrees.serials]
  exact ⟨rfl, rfl, hholds.table⟩

theorem Program.Typed.check_eq {program decorated : Program} (h : program.Typed decorated)
    (journal : Journal) :
    (program.check journal).program = decorated ∧
      (program.check journal).journal.diagnostics = journal.diagnostics := by
  obtain ⟨hprogram, hdiagnostics, -⟩ := h.check_passes journal
  exact ⟨hprogram, hdiagnostics⟩

theorem Program.Typed.check_bindings {program decorated : Program} (h : program.Typed decorated)
    (journal : Journal) :
    (program.check journal).bindings.toList =
      Standard.bindings.toList ++ decorated.command.bindings :=
  (h.check_passes journal).2.2

/-- Where checking makes no report on a program with proper denoters, the rules allow what it
    returns. -/
theorem Program.typed_of_check {program : Program}
    (hproper : program.command.All TypeDenoter.Proper fun _ => True) {journal : Journal}
    (h : (program.check journal).journal.diagnostics = journal.diagnostics) :
    program.Typed (program.check journal).program := by
  obtain ⟨-, hensures⟩ := Check.command_ensures
    ⟨Standard.bindings, Standard.scopes, journal, program.serials⟩ program.command hproper
  cases hexec : (Check.command program.command).exec
      ⟨Standard.bindings, Standard.scopes, journal, program.serials⟩ with
  | mk command' s' =>
    rw [hexec] at hensures
    obtain ⟨hprogram, hdiagnostics, -⟩ := program.check_eq journal hexec
    have hquiet : s'.journal.diagnostics.size = journal.diagnostics.size := by
      rw [← hdiagnostics, h]
    obtain ⟨p', htyped, hagrees⟩ := hensures hquiet (Checker.standard_agrees program journal)
      Env.standard_typesIn
    rw [hprogram, hagrees.serials]
    exact .command htyped

/-- A decoration has a type for every expression and vname, and all types in it are resolved. -/
theorem Program.Typed.resolved {program decorated : Program} (h : program.Typed decorated) :
    decorated.command.All TypeDenoter.Resolved (Finds TypeDenoter.Resolved) := by
  obtain ⟨htyped⟩ := h
  have hknown := htyped.known Env.standard_typesIn
  exact hknown.mono (fun _ => TypeDenoter.Known.resolved)
    fun _ => Finds.mono fun _ => TypeDenoter.Known.resolved

/-- Checking accepts exactly the well-typed programs, and leaves in the tree the decoration that
    makes them so. -/
theorem Program.check_exact {text : String} {program : Program}
    (hparse : Program.parse text = .ok program) (journal : Journal) :
    ((program.check journal).journal.diagnostics = journal.diagnostics ↔
      ∃ decorated, program.Typed decorated) ∧
    ∀ decorated, program.Typed decorated →
      (program.check journal).program = decorated ∧
        decorated.command.All TypeDenoter.Resolved (Finds TypeDenoter.Resolved) := by
  refine ⟨⟨fun hquiet => ?_, fun ⟨decorated, htyped⟩ => ?_⟩, fun decorated htyped => ?_⟩
  · exact ⟨_, Program.typed_of_check (Program.proper_of_parse hparse) hquiet⟩
  · exact (htyped.check_eq journal).2
  · exact ⟨(htyped.check_eq journal).1, htyped.resolved⟩

/-- The text of a program with a declaration, an assignment and a call. -/
private def sampleText : String := "let var x: Integer in begin x := 1; putint(x) end"

/-- Checking accepts the sample, and returns the one decoration it has. -/
theorem Program.check_exact_sample : ∃ program, Program.parse sampleText = .ok program ∧
    ∃ decorated, program.Typed decorated ∧ (program.check .empty).program = decorated := by
  have hparse : (Program.parse sampleText).toOption.isSome = true := by decide +kernel
  cases hok : Program.parse sampleText with
  | error d =>
    rw [hok] at hparse
    cases hparse
  | ok program =>
    obtain ⟨hiff, hunique⟩ := Program.check_exact hok .empty
    have hquiet : (program.check .empty).journal.diagnostics = Journal.empty.diagnostics := by
      have hsize : (Program.parse sampleText).toOption.any (fun program =>
        (program.check .empty).journal.diagnostics.isEmpty) = true := by decide +kernel
      rw [hok] at hsize
      exact Array.isEmpty_iff.1 hsize
    obtain ⟨decorated, htyped⟩ := hiff.1 hquiet
    exact ⟨program, rfl, decorated, htyped, (hunique decorated htyped).1⟩

end TriangleTam
