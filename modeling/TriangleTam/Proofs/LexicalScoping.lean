import TriangleTam.Proofs.Scoping.Binders
import TriangleTam.Proofs.Scoping.Resolution
import TriangleTam.Proofs.Scoping.Unlinked
import TriangleTam.Proofs.Typing.Exact

/-! # Lexical scoping of parsed programs

  Names are resolved by lexical scoping, whatever else is wrong with a program.
  The standard bindings stay as they are, and every later binding belongs to
  one name of the program.
-/

namespace TriangleTam

/-! ## Restored scopes -/

/-- Checking the phrase gives back the open scopes. -/
def Check.Restores {α : Type} (m : Check α) : Prop :=
  ∀ s, (m.exec s).2.scopes = s.scopes

namespace Check

/-- What grows from anything restores the scopes if that is known of the checker after it. -/
theorem Grows.restores {α : Type} {m : Check α} {J : Checker → α → Checker → Bindings → Prop}
    (h : ∀ s, m.Grows #[] s fun a s' => s.Restores s' (J s a s')) : m.Restores :=
  fun s => (h s (.empty _)).2.2.scopes

theorem command_restores (command : Command) : (Check.command command).Restores :=
  Grows.restores (command_scopes command)

theorem expression_restores (expression : Expression) : (Check.expression expression).Restores :=
  Grows.restores (expression_scopes expression)

theorem actuals_restores (args : Actuals) (shapes : Signature) :
    (Check.actuals args shapes).Restores :=
  Grows.restores (actuals_scopes args shapes)

end Check

/-! ## Programs -/

theorem Standard.scopes_below : Standard.scopes.Below Standard.bindings.size := by
  unfold Scopes.Below
  decide

/-- A program without links is resolved, from the standard bindings on. -/
theorem Program.scoped_of_unlinked {program : Program} (h : program.command.Unlinked)
    (journal : Journal) :
    program.Scoped (program.check journal).program (program.check journal).bindings ∧
      (program.check journal).bindings.Extends Standard.bindings := by
  have hbase : Standard.bindings.Extends Standard.bindings := .refl _
  obtain ⟨hbase, -, hresolves⟩ := Check.command_scopes program.command
    ⟨Standard.bindings, Standard.scopes, journal, program.serials⟩ hbase
  exact ⟨hresolves.holds Standard.scopes_below _ (.refl _) h, hbase⟩

/-- In every parsed program, correct or not, checking resolves names by lexical scoping, gives
    back the open scopes after every command, expression and list of arguments, keeps the standard
    bindings, and makes each later binding for one name that is introduced, with its spelling. -/
theorem Program.check_scoped {text : String} {program : Program}
    (hparse : Program.parse text = .ok program) (journal : Journal) :
    program.Scoped (program.check journal).program (program.check journal).bindings ∧
    (∀ command, (Check.command command).Restores) ∧
    (∀ expression, (Check.expression expression).Restores) ∧
    (∀ args shapes, (Check.actuals args shapes).Restores) ∧
    (program.check journal).bindings.Extends Standard.bindings ∧
    (program.check journal).bindings.Numbers Standard.bindings.size
      (program.check journal).program.command.binders (program.check journal).bindings.size := by
  obtain ⟨hscoped, hextends⟩ := scoped_of_unlinked (unlinked_of_parse hparse) journal
  exact ⟨hscoped, Check.command_restores, Check.expression_restores, Check.actuals_restores,
    hextends, hscoped.numbers⟩

/-- The text of a program with names that hide others and names that are not declared. -/
private def shadowingText : String :=
  "let const n ~ n + 1; var n: Integer;
       proc p(n: Char, proc q(n: Boolean)) ~ begin q(n); p('a', p); m := n end
   in begin n := 'a'; p(let const n ~ 1 in n, n, n); put(n) end"

set_option maxRecDepth 2000 in
/-- Ten mistakes are reported in the text, and its names are resolved nevertheless. -/
theorem Program.check_scoped_sample : ∃ program, Program.parse shadowingText = .ok program ∧
    (program.check .empty).journal.diagnostics.size = 10 ∧
    program.Scoped (program.check .empty).program (program.check .empty).bindings ∧
    (program.check .empty).bindings.Numbers Standard.bindings.size
      (program.check .empty).program.command.binders (program.check .empty).bindings.size := by
  have hsize : (Program.parse shadowingText).toOption.map (fun program =>
    (program.check .empty).journal.diagnostics.size) = some 10 := by
    have hchars : shadowingText = String.ofList _ := rfl
    rw [Program.parse, Stream.ofText, tokenize_of_chars hchars]
    decide +kernel
  cases hok : Program.parse shadowingText with
  | error d =>
    rw [hok] at hsize
    cases hsize
  | ok program =>
    rw [hok] at hsize
    obtain ⟨hscoped, -, -, -, -, hnumbers⟩ := Program.check_scoped hok .empty
    exact ⟨program, rfl, Option.some.inj hsize, hscoped, hnumbers⟩

end TriangleTam
