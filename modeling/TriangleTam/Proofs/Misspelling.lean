import TriangleTam.Proofs.Misspelling.Checking
import TriangleTam.Proofs.Typing.Exact

/-! # One mistake, one diagnostic

  A misspelt name has the type `error`, which every check of the type itself
  accepts. So in a program that is right but for misspelt names, checking
  reports each of them once, and where `error` stands apart it reports nothing
  else.

  Types that have `error` for a part are another matter. They are compared
  part by part, and there `error` is equivalent to nothing. Such a comparison
  makes the reports that one mistake can have besides its own: the types of an
  assignment, of the limbs of an expression, of elements, of operands, of a
  function and its body, or of a parameter do not match.
-/

namespace TriangleTam

namespace Program

/-- A checker starts from the names of the standard environment, spelt as they are. -/
theorem Misspelt.strays {w : String} {spans : List Span} {program written : Program}
    (h : program.Misspelt w spans written) {formal : TypeDenoter → Prop}
    (hformal : ∀ type, type.Resolved → formal type) (journal : Journal) :
    (⟨Standard.bindings, Standard.scopes, journal, written.serials⟩ : Checker).Strays w formal
      True Env.standard program.supply := by
  refine ⟨Env.standard, ?_, Env.standard_erodes h.standard, fun _ => ?_⟩
  · rw [h.serials]
    exact Checker.standard_agrees program journal
  · exact Env.standard_routinesIn.mono hformal

/-- Checking a misspelt program reports the misspelt names in order, and mismatches. Where the
    types of parameters are whole, or without errors if routines are passed, and the types of
    expressions are whole, there are no mismatches. -/
theorem Misspelt.reports {w : String} {spans : List Span} {program written decorated : Program}
    (h : program.Misspelt w spans written) (htyped : program.Typed decorated)
    {formal : TypeDenoter → Prop} {passing : Prop} (hresolved : ∀ type, type.Resolved → formal type)
    (hwhole : ∀ type, formal type → type.Whole)
    (hpassing : passing → ∀ type, formal type → type.Resolved) (journal : Journal) :
    ∃ reports,
      (written.check journal).journal.diagnostics.toList = journal.diagnostics.toList ++ reports ∧
      reports.filter (fun d => !d.isMismatch) = spans.map (Diagnostic.undeclared w) ∧
      ((written.check journal).program.command.Apart formal passing →
        reports = spans.map (Diagnostic.undeclared w)) := by
  obtain ⟨hcommand⟩ := htyped
  obtain ⟨-, -, -, reports, hreports, hnames, hquiet⟩ :=
    Check.command_slips hwhole hpassing hcommand h.command _ (h.strays hresolved journal)
  obtain ⟨hprogram, hdiagnostics, -⟩ := written.check_eq journal rfl
  refine ⟨reports, ?_, hnames, fun hapart => hquiet ⟨trivial, ?_⟩⟩
  · rw [hdiagnostics]
    exact hreports
  · rwa [hprogram] at hapart

/-- Where checking accepts a program, it reports each misspelt name of the misspelt program, in
    order, and besides these only mismatches of types. Where errors stand apart in the checked
    program, it reports the misspelt names and nothing else: one mistake is one diagnostic. -/
theorem check_misspelt {w : String} {spans : List Span} {program written : Program}
    (hproper : program.command.All TypeDenoter.Proper fun _ => True) {journal : Journal}
    (haccepted : (program.check journal).journal.diagnostics = journal.diagnostics)
    (h : program.Misspelt w spans written) :
    ∃ reports,
      (written.check journal).journal.diagnostics.toList = journal.diagnostics.toList ++ reports ∧
      reports.filter (fun d => !d.isMismatch) = spans.map (Diagnostic.undeclared w) ∧
      ((written.check journal).program.Apart →
        reports = spans.map (Diagnostic.undeclared w)) := by
  have htyped := typed_of_check hproper haccepted
  obtain ⟨reports, hreports, hnames, hquiet⟩ := h.reports htyped (fun _ => id)
    (fun _ => TypeDenoter.Resolved.whole) (fun (_ : True) _ => id) journal
  obtain ⟨reports', hreports', -, hquiet'⟩ := h.reports htyped
    (fun _ => TypeDenoter.Resolved.whole) (fun _ => id) False.elim journal
  have heq : reports' = reports := List.append_cancel_left (hreports'.symm.trans hreports)
  rw [heq] at hquiet'
  exact ⟨reports, hreports, hnames, fun hapart => hapart.elim hquiet hquiet'⟩

/-- The vname of a spelling on the first line. -/
private def named (spelling : String) : Vname :=
  .simple ⟨1, 1⟩ none false ⟨spelling, ⟨1, 1⟩, none⟩

private theorem named_misspelt (spelling w : String) :
    (named spelling).Misspelt w [⟨1, 1⟩] (named w) :=
  @Vname.Misspelt.misspelt w _ _ _ ⟨spelling, ⟨1, 1⟩, none⟩

/-- The text `let var n: Integer in putint(n + 1)`, with another spelling at its end. -/
private def sumOf (spelling : String) : Program :=
  ⟨.letIn ⟨1, 1⟩ (.var ⟨1, 1⟩ false ⟨"n", ⟨1, 1⟩, none⟩
      (.named ⟨1, 1⟩ ⟨"Integer", ⟨1, 1⟩, none⟩))
    (.call ⟨1, 1⟩ ⟨"putint", ⟨1, 1⟩, none⟩ (.one ⟨1, 1⟩ (.const ⟨1, 1⟩
      (.binary ⟨1, 1⟩ none (.vname ⟨1, 1⟩ none (named spelling)) ⟨"+", ⟨1, 1⟩, none⟩
        (.integer ⟨1, 1⟩ none ⟨"1", ⟨1, 1⟩⟩))))), ⟨1, 1⟩, 0⟩

/-- The sum of a misspelt name and a number is passed on without another report. -/
theorem check_misspelt_sum :
    ((sumOf "m").check .empty).journal.diagnostics.toList =
      [Diagnostic.undeclared "m" ⟨1, 1⟩] := by
  have hproper : (sumOf "n").command.All TypeDenoter.Proper fun _ => True :=
    ⟨trivial, trivial, ⟨trivial, trivial⟩, trivial⟩
  have haccepted : ((sumOf "n").check .empty).journal.diagnostics =
      Journal.empty.diagnostics := by
    decide +kernel
  have hmisspelt : (sumOf "n").Misspelt "m" ([] ++ ([⟨1, 1⟩] ++ [])) (sumOf "m") := by
    refine ⟨.letIn (.var (by decide) .named) (.call (.one (.const (.binary (.vname ?_)
      .integer)))), rfl, by decide⟩
    exact named_misspelt "n" "m"
  obtain ⟨reports, hreports, -, hquiet⟩ := check_misspelt hproper haccepted hmisspelt
  have hapart : ((sumOf "m").check .empty).program.Apart :=
    .inl ⟨trivial, ⟨_, rfl, .inl rfl⟩, ⟨⟨_, rfl, .inl rfl⟩, _, rfl, .inl rfl⟩, _, rfl, .inr trivial⟩
  rw [hreports, hquiet hapart]
  rfl

/-- The text `let var a: array 2 of Integer in a := [maxint, 1]`, with another spelling of the
    constant. -/
private def arrayOf (spelling : String) : Program :=
  ⟨.letIn ⟨1, 1⟩ (.var ⟨1, 1⟩ false ⟨"a", ⟨1, 1⟩, none⟩
      (.array 0 ⟨1, 1⟩ ⟨"2", ⟨1, 1⟩⟩ (.named ⟨1, 1⟩ ⟨"Integer", ⟨1, 1⟩, none⟩)))
    (.assign ⟨1, 1⟩ (named "a") (.array ⟨1, 1⟩ none
      (.more ⟨1, 1⟩ (.vname ⟨1, 1⟩ none (named spelling))
        (.one ⟨1, 1⟩ (.integer ⟨1, 1⟩ none ⟨"1", ⟨1, 1⟩⟩))))), ⟨1, 1⟩, 1⟩

/-- One misspelt name can have two diagnostics: an array of `error` is assigned to nothing. -/
theorem check_misspelt_element :
    (arrayOf "maxint").command.All TypeDenoter.Proper (fun _ => True) ∧
      ((arrayOf "maxint").check .empty).journal.diagnostics = #[] ∧
      (arrayOf "maxint").Misspelt "y" [⟨1, 1⟩] (arrayOf "y") ∧
      ((arrayOf "y").check .empty).journal.diagnostics =
        #[Diagnostic.undeclared "y" ⟨1, 1⟩,
          Diagnostic.ofSemantic .assignmentIncompatible "" ⟨1, 1⟩] := by
  refine ⟨⟨trivial, trivial, trivial, ⟨trivial, trivial⟩, trivial⟩, by decide +kernel, ?_,
    by decide +kernel⟩
  have hcommand : (arrayOf "maxint").command.Misspelt "y" ([] ++ ([] ++ ([⟨1, 1⟩] ++ [])))
      (arrayOf "y").command := by
    refine .letIn (.var (by decide) (.array .named)) (.assign .simple (.array (.more (.vname ?_)
      (.one .integer))))
    exact named_misspelt "maxint" "y"
  exact ⟨hcommand, rfl, by decide⟩

end Program

end TriangleTam
