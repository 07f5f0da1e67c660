import TriangleTam.Proofs.LexicalScoping
import TriangleTam.Proofs.Scoping.Marking

/-! # Duplicate declarations

  A declaration or a parameter is marked as a duplicate if and only if its own
  scope had the name before, and each mark that is set is reported once. Names
  of other scopes do not matter, be they around it, closed or standard. A
  duplicate takes the place of what it repeats: later uses of the name go to
  it.
-/

namespace TriangleTam

/-- The scopes of a checked program that checking came to, each with its marks. -/
def Checked.scopes (checked : Checked) : List (List Mark) :=
  checked.program.command.scopes checked.bindings

/-- In every parsed program, correct or not, duplicates are found exactly. The first two parts say
    which nodes are marked, of those that checking came to; as many were bound, by the third, and
    by the fourth the marks that are set are those that are reported. By the others uses are
    resolved in scopes in which the last of several declarations or parameters of one name, and of
    one scope, prevails. -/
theorem Program.check_duplicates {text : String} {program : Program}
    (hparse : Program.parse text = .ok program) (journal : Journal) :
    (∀ scope ∈ (program.check journal).scopes, Mark.Exact scope) ∧
    (∀ span first second, (Declaration.sequence span first second).duplicated = false) ∧
    (program.check journal).bindings.size =
      Standard.bindings.size + (program.check journal).scopes.flatten.length ∧
    (program.check journal).journal.duplicates =
      journal.duplicates + (program.check journal).scopes.flatten.countP Mark.duplicated ∧
    program.Scoped (program.check journal).program (program.check journal).bindings ∧
    (∀ {Γ n declared declared' Γ' n'},
      Declaration.Scoped (program.check journal).bindings Γ n declared declared' Γ' n' →
      Mark.Prevail (program.check journal).bindings declared'.marks Γ') ∧
    (∀ {Γ n parameters parameters' Γ' n'},
      Formals.Scoped (program.check journal).bindings Γ n parameters parameters' Γ' n' →
      Mark.Prevail (program.check journal).bindings parameters'.marks Γ') := by
  have hunlinked := unlinked_of_parse hparse
  have hmarks : Checker.Marks ⟨Standard.bindings, Standard.scopes, journal, program.serials⟩ _ []
      _ := Check.command_marks program.command _ hunlinked
  have hlater : (program.check journal).bindings.Extends (program.check journal).bindings :=
    .refl _
  exact ⟨hmarks.inner _ hlater, fun _ _ _ => rfl, hmarks.size _ hlater, hmarks.count _ hlater,
    (scoped_of_unlinked hunlinked journal).1, fun hdeclared => hdeclared.entered.prevail _,
    fun hparameters => hparameters.entered.prevail _⟩

/-- The text of a program with duplicates of each sort. Names of other scopes, one of them standard,
    are used again, and there are duplicates in an argument for which there is no parameter. -/
private def duplicatesText : String :=
  "let const n ~ 1; var n: Integer;
       proc put(n: Char, var n: Char, proc q(n: Char, n: Char)) ~ let const put ~ 2 in n := put
   in q(let const k ~ 1; const k ~ 2 in k)"

set_option maxRecDepth 2000 in
/-- Three duplicates are reported in the text, one in each of its first three scopes. The
    declarations in the argument are in none of them. -/
theorem Program.check_duplicates_sample : ∃ program,
    Program.parse duplicatesText = .ok program ∧
    (program.check .empty).journal.duplicates = 3 ∧
    (program.check .empty).scopes.map (List.map Mark.duplicated) =
      [[false, true, false], [false, true, false], [false, true], [false]] ∧
    (∀ scope ∈ (program.check .empty).scopes, Mark.Exact scope) := by
  have hmarks : (Program.parse duplicatesText).toOption.map (fun program =>
      ((program.check .empty).journal.duplicates,
        (program.check .empty).scopes.map (List.map Mark.duplicated))) =
      some (3, [[false, true, false], [false, true, false], [false, true], [false]]) := by
    have hchars : duplicatesText = String.ofList _ := rfl
    rw [Program.parse, Stream.ofText, tokenize_of_chars hchars]
    decide +kernel
  cases hok : Program.parse duplicatesText with
  | error d =>
    rw [hok] at hmarks
    cases hmarks
  | ok program =>
    rw [hok] at hmarks
    obtain ⟨hcount, hscopes⟩ := Prod.mk.inj (Option.some.inj hmarks)
    obtain ⟨hexact, -⟩ := Program.check_duplicates hok .empty
    exact ⟨program, rfl, hcount, hscopes, hexact⟩

end TriangleTam
