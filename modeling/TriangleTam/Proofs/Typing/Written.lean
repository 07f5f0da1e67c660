import TriangleTam.Proofs.Typing.Decoration
import TriangleTam.Tree.Grammar

/-! # What parsing gives

  No text denotes the types `any` and `error`, so that every denoter in a
  parsed program is proper. No type of an expression is found before checking,
  and a text that is no program has an error of syntax. A parser **gives**
  values with a property if all that it can return have it, and all that it can
  report are errors of syntax.
-/

namespace TriangleTam

/-- Whatever the parser returns satisfies `P`, and where it fails, it reports an error of
    syntax. -/
structure Parse.Gives {α : Type} {bound : Nat} (m : Parse α bound) (P : α → Prop) : Prop where
  value : ∀ parsed, m = .ok parsed → P parsed.value
  error : ∀ d, m = .error d → d.kind = .syntactic

namespace Parse.Gives

variable {α β : Type} {bound bound' : Nat}

theorem pure {P : α → Prop} {parsed : Parsed α bound} (h : P parsed.value) :
    Parse.Gives (pure parsed) P := by
  refine ⟨?_, nofun⟩
  intro parsed' heq
  cases heq
  exact h

theorem throw {P : α → Prop} {d : Diagnostic} (hkind : d.kind = .syntactic) :
    Parse.Gives (throw d : Parse α bound) P := by
  refine ⟨nofun, ?_⟩
  intro d' heq
  cases heq
  exact hkind

/-- What the first parser gives may be used to show what the second gives. -/
theorem bind {m : Parse α bound} {f : Parsed α bound → Parse β bound'} {P : α → Prop}
    {Q : β → Prop} (hm : Parse.Gives m P)
    (hf : ∀ parsed, P parsed.value → Parse.Gives (f parsed) Q) : Parse.Gives (m >>= f) Q := by
  cases hok : m with
  | error d =>
    refine ⟨nofun, ?_⟩
    intro d' heq
    cases heq
    exact hm.error d hok
  | ok first => exact hf first (hm.value first hok)

/-- The same where nothing of the first value matters. -/
theorem after {m : Parse α bound} {f : Parsed α bound → Parse β bound'} {Q : β → Prop}
    (hm : Parse.Gives m fun _ => True) (hf : ∀ parsed, Parse.Gives (f parsed) Q) :
    Parse.Gives (m >>= f) Q :=
  bind hm fun parsed _ => hf parsed

end Parse.Gives

namespace Grammar

open Parse.Gives

/-! ## Terminals -/

theorem take_gives (s : Stream) (kind : TokenKind) {otherwise : Diagnostic}
    (hkind : otherwise.kind = .syntactic) :
    Parse.Gives (s.take kind otherwise) fun _ => True := by
  unfold Stream.take
  split
  · exact throw hkind
  · split
    · exact pure trivial
    · exact throw hkind

theorem operator_gives (s : Stream) : Parse.Gives (operator s) fun _ => True :=
  after (take_gives s _ rfl) fun ⟨_, _, _⟩ => pure trivial

theorem integerLiteral_gives (s : Stream) : Parse.Gives (integerLiteral s) fun _ => True := by
  refine after (take_gives s _ rfl) fun ⟨_, _, _⟩ => ?_
  dsimp only
  split
  · exact throw rfl
  · exact pure trivial

theorem characterLiteral_gives (s : Stream) : Parse.Gives (characterLiteral s) fun _ => True :=
  after (take_gives s _ rfl) fun ⟨_, _, _⟩ => pure trivial

section

variable {β : Type} {bound : Nat} {s : Stream} {Q : β → Prop}

/-- A token that has to stand there comes first. -/
theorem expecting {kind : TokenKind} {f : Parsed Token s.size → Parse β bound}
    (hf : ∀ parsed, Parse.Gives (f parsed) Q) : Parse.Gives (s.expect kind >>= f) Q :=
  after (take_gives s kind rfl) hf

/-- An identifier comes first. -/
theorem naming {f : Parsed Name s.size → Parse β bound}
    (hf : ∀ parsed, Parse.Gives (f parsed) Q) : Parse.Gives (identifier s >>= f) Q :=
  after (after (take_gives s _ rfl) fun ⟨_, _, _⟩ => pure trivial) hf

end

/-! ## Type denoters -/

mutual

theorem typeDenoter_gives (s : Stream) : Parse.Gives (typeDenoter s) TypeDenoter.Proper := by
  rw [typeDenoter]
  split
  · -- a name
    exact naming fun ⟨_, _, _⟩ => pure trivial
  · -- an array type
    refine expecting fun ⟨_, s1, _⟩ => after (integerLiteral_gives _) fun ⟨_, s2, _⟩ => ?_
    refine expecting fun ⟨_, s3, _⟩ => ?_
    exact bind (typeDenoter_gives s3) fun ⟨_, _, _⟩ helement => pure helement
  · -- a record type
    refine expecting fun ⟨_, s1, _⟩ => bind (fieldTypes_gives s1) fun ⟨_, _, _⟩ hfields => ?_
    exact expecting fun ⟨_, _, _⟩ => pure hfields
  · -- no type denoter
    exact throw rfl
termination_by s.size
decreasing_by all_goals omega

theorem fieldTypes_gives (s : Stream) : Parse.Gives (fieldTypes s) Fields.Proper := by
  rw [fieldTypes]
  refine naming fun ⟨_, s1, _⟩ => expecting fun ⟨_, s2, _⟩ => ?_
  refine bind (typeDenoter_gives s2) fun ⟨_, s3, _⟩ htype => ?_
  dsimp only
  split
  · refine expecting fun ⟨_, s4, _⟩ => bind (fieldTypes_gives s4) fun ⟨_, _, _⟩ hrest => ?_
    exact pure ⟨htype, hrest⟩
  · exact pure htype
termination_by s.size
decreasing_by all_goals omega

end

/-! ## Formal parameters -/

mutual

theorem formals_gives (s : Stream) :
    Parse.Gives (formals s) (Formals.All TypeDenoter.Proper) := by
  rw [formals]
  split
  · exact pure trivial
  · exact bind (someFormals_gives s) fun ⟨_, _, _⟩ hall => pure hall
termination_by 4 * s.size + 2
decreasing_by all_goals omega

theorem someFormals_gives (s : Stream) :
    Parse.Gives (someFormals s) (Formals.All TypeDenoter.Proper) := by
  rw [someFormals]
  refine bind (formal_gives s) fun ⟨_, s1, _⟩ hfirst => ?_
  dsimp only
  split
  · refine expecting fun ⟨_, s2, _⟩ => bind (someFormals_gives s2) fun ⟨_, _, _⟩ hrest => ?_
    exact pure ⟨hfirst, hrest⟩
  · exact pure hfirst
termination_by 4 * s.size + 1
decreasing_by all_goals omega

theorem formal_gives (s : Stream) :
    Parse.Gives (formal s) (Formal.All TypeDenoter.Proper) := by
  rw [formal]
  split
  · -- a constant
    refine naming fun ⟨_, s1, _⟩ => expecting fun ⟨_, s2, _⟩ => ?_
    exact bind (typeDenoter_gives s2) fun ⟨_, _, _⟩ htype => pure htype
  · -- a variable
    refine expecting fun ⟨_, s1, _⟩ => naming fun ⟨_, s2, _⟩ => expecting fun ⟨_, s3, _⟩ => ?_
    exact bind (typeDenoter_gives s3) fun ⟨_, _, _⟩ htype => pure htype
  · -- a procedure
    refine expecting fun ⟨_, s1, _⟩ => naming fun ⟨_, s2, _⟩ => expecting fun ⟨_, s3, _⟩ => ?_
    refine bind (formals_gives s3) fun ⟨_, s4, _⟩ hinner => ?_
    exact expecting fun ⟨_, _, _⟩ => pure hinner
  · -- a function
    refine expecting fun ⟨_, s1, _⟩ => naming fun ⟨_, s2, _⟩ => expecting fun ⟨_, s3, _⟩ => ?_
    refine bind (formals_gives s3) fun ⟨_, s4, _⟩ hinner => ?_
    refine expecting fun ⟨_, s5, _⟩ => expecting fun ⟨_, s6, _⟩ => ?_
    exact bind (typeDenoter_gives s6) fun ⟨_, _, _⟩ hresult => pure ⟨hinner, hresult⟩
  · -- no parameter
    exact throw rfl
termination_by 4 * s.size
decreasing_by all_goals omega

end

/-! ## Commands, expressions and declarations -/

/-- The denoters written in a tree are proper; its types are not found yet. -/
private abbrev proper : TypeDenoter → Prop := TypeDenoter.Proper

private abbrev unfound : Option TypeDenoter → Prop := fun type => type = none

mutual

theorem command_gives (s : Stream) :
    Parse.Gives (command s) (Command.All proper unfound) := by
  rw [command]
  refine bind (singleCommand_gives s) fun ⟨_, s1, _⟩ hfirst => ?_
  exact bind (commandsAfter_gives _ _ s1 hfirst) fun ⟨_, _, _⟩ hall => pure hall
termination_by 8 * s.size + 1
decreasing_by all_goals omega

theorem commandsAfter_gives (start : Nat) (before : Command) (s : Stream)
    (hbefore : before.All proper unfound) :
    Parse.Gives (commandsAfter start before s) (Command.All proper unfound) := by
  rw [commandsAfter]
  split
  · refine expecting fun ⟨_, s1, _⟩ => bind (singleCommand_gives s1) fun ⟨_, s2, _⟩ hsecond => ?_
    refine bind (commandsAfter_gives _ _ s2 ⟨hbefore, hsecond⟩) fun ⟨_, _, _⟩ hall => ?_
    exact pure hall
  · exact pure hbefore
termination_by 8 * s.size
decreasing_by all_goals omega

theorem singleCommand_gives (s : Stream) :
    Parse.Gives (singleCommand s) (Command.All proper unfound) := by
  rw [singleCommand]
  split
  · -- a call or an assignment
    refine naming fun ⟨name, s1, _⟩ => ?_
    dsimp only
    split
    · refine expecting fun ⟨_, s2, _⟩ => bind (actuals_gives s2) fun ⟨_, _, _⟩ hargs => ?_
      exact expecting fun ⟨_, _, _⟩ => pure hargs
    · refine bind (vnameAfter_gives _ _ s1 rfl) fun ⟨_, s2, _⟩ htarget => ?_
      dsimp only
      split
      · exact expecting fun ⟨_, _, _⟩ => pure ⟨htarget, rfl, ⟨rfl, htarget⟩, rfl⟩
      · refine expecting fun ⟨_, s3, _⟩ => ?_
        exact bind (expression_gives s3) fun ⟨_, _, _⟩ hvalue => pure ⟨htarget, hvalue⟩
  · -- a block
    refine expecting fun ⟨_, s1, _⟩ => bind (command_gives s1) fun ⟨_, _, _⟩ hinner => ?_
    exact expecting fun ⟨_, _, _⟩ => pure hinner
  · -- a command in braces
    refine expecting fun ⟨_, s1, _⟩ => bind (command_gives s1) fun ⟨_, _, _⟩ hinner => ?_
    exact expecting fun ⟨_, _, _⟩ => pure hinner
  · -- a declaration with its scope
    refine expecting fun ⟨_, s1, _⟩ => bind (declaration_gives s1) fun ⟨_, s2, _⟩ hdeclared => ?_
    refine expecting fun ⟨_, s3, _⟩ => ?_
    exact bind (singleCommand_gives s3) fun ⟨_, _, _⟩ hbody => pure ⟨hdeclared, hbody⟩
  · -- a conditional
    refine expecting fun ⟨_, s1, _⟩ => bind (expression_gives s1) fun ⟨_, s2, _⟩ hcondition => ?_
    refine expecting fun ⟨_, s3, _⟩ => bind (singleCommand_gives s3) fun ⟨_, s4, _⟩ hthen => ?_
    refine expecting fun ⟨_, s5, _⟩ => ?_
    exact bind (singleCommand_gives s5) fun ⟨_, _, _⟩ helse => pure ⟨hcondition, hthen, helse⟩
  · -- a loop with its condition in front
    refine expecting fun ⟨_, s1, _⟩ => bind (expression_gives s1) fun ⟨_, s2, _⟩ hcondition => ?_
    refine expecting fun ⟨_, s3, _⟩ => ?_
    exact bind (singleCommand_gives s3) fun ⟨_, _, _⟩ hbody => pure ⟨hcondition, hbody⟩
  · -- a loop with its condition behind
    refine expecting fun ⟨_, s1, _⟩ => bind (singleCommand_gives s1) fun ⟨_, s2, _⟩ hbody => ?_
    refine expecting fun ⟨_, s3, _⟩ => ?_
    exact bind (expression_gives s3) fun ⟨_, _, _⟩ hcondition => pure ⟨hbody, hcondition⟩
  · -- a loop with its condition in the middle
    refine expecting fun ⟨_, s1, _⟩ => bind (singleCommand_gives s1) fun ⟨_, s2, _⟩ hbody => ?_
    refine expecting fun ⟨_, s3, _⟩ => bind (expression_gives s3) fun ⟨_, s4, _⟩ hcondition => ?_
    refine expecting fun ⟨_, s5, _⟩ => ?_
    exact bind (singleCommand_gives s5) fun ⟨_, _, _⟩ htail => pure ⟨hbody, hcondition, htail⟩
  -- an empty command, or none
  all_goals first | exact pure trivial | exact throw rfl
termination_by 8 * s.size
decreasing_by all_goals omega

theorem expression_gives (s : Stream) :
    Parse.Gives (expression s) (Expression.All proper unfound) := by
  rw [expression]
  split
  · -- a declaration with its scope
    refine expecting fun ⟨_, s1, _⟩ => bind (declaration_gives s1) fun ⟨_, s2, _⟩ hdeclared => ?_
    refine expecting fun ⟨_, s3, _⟩ => ?_
    exact bind (expression_gives s3) fun ⟨_, _, _⟩ hbody => pure ⟨rfl, hdeclared, hbody⟩
  · -- a conditional
    refine expecting fun ⟨_, s1, _⟩ => bind (expression_gives s1) fun ⟨_, s2, _⟩ hcondition => ?_
    refine expecting fun ⟨_, s3, _⟩ => bind (expression_gives s3) fun ⟨_, s4, _⟩ hthen => ?_
    refine expecting fun ⟨_, s5, _⟩ => bind (expression_gives s5) fun ⟨_, _, _⟩ helse => ?_
    exact pure ⟨rfl, hcondition, hthen, helse⟩
  · -- operations, if there are any
    refine bind (primary_gives s) fun ⟨_, s1, _⟩ hfirst => ?_
    exact bind (operationsAfter_gives _ _ s1 hfirst) fun ⟨_, _, _⟩ hall => pure hall
termination_by 8 * s.size + 1
decreasing_by all_goals omega

theorem operationsAfter_gives (start : Nat) (before : Expression) (s : Stream)
    (hbefore : before.All proper unfound) :
    Parse.Gives (operationsAfter start before s) (Expression.All proper unfound) := by
  rw [operationsAfter]
  split
  · refine after (operator_gives _) fun ⟨_, s1, _⟩ => ?_
    refine bind (primary_gives s1) fun ⟨_, s2, _⟩ hright => ?_
    refine bind (operationsAfter_gives _ _ s2 ⟨rfl, hbefore, hright⟩) fun ⟨_, _, _⟩ hall => ?_
    exact pure hall
  · exact pure hbefore
termination_by 8 * s.size
decreasing_by all_goals omega

theorem primary_gives (s : Stream) :
    Parse.Gives (primary s) (Expression.All proper unfound) := by
  rw [primary]
  split
  · -- an integer literal
    exact after (integerLiteral_gives _) fun ⟨_, _, _⟩ => pure rfl
  · -- a character literal
    exact after (characterLiteral_gives _) fun ⟨_, _, _⟩ => pure rfl
  · -- an array aggregate
    refine expecting fun ⟨_, s1, _⟩ => bind (arrayAggregate_gives s1) fun ⟨_, _, _⟩ helements => ?_
    exact expecting fun ⟨_, _, _⟩ => pure ⟨rfl, helements⟩
  · -- a record aggregate
    refine expecting fun ⟨_, s1, _⟩ => bind (recordAggregate_gives s1) fun ⟨_, _, _⟩ hfields => ?_
    exact expecting fun ⟨_, _, _⟩ => pure ⟨rfl, hfields⟩
  · -- a call or a vname
    refine naming fun ⟨name, s1, _⟩ => ?_
    dsimp only
    split
    · refine expecting fun ⟨_, s2, _⟩ => bind (actuals_gives s2) fun ⟨_, _, _⟩ hargs => ?_
      exact expecting fun ⟨_, _, _⟩ => pure ⟨rfl, hargs⟩
    · refine bind (vnameAfter_gives _ _ s1 rfl) fun ⟨_, _, _⟩ hfound => ?_
      exact pure ⟨rfl, hfound⟩
  · -- a unary operator
    refine after (operator_gives _) fun ⟨_, s1, _⟩ => ?_
    refine bind (primary_gives s1) fun ⟨_, _, _⟩ hoperand => ?_
    exact pure ⟨rfl, hoperand⟩
  · -- an expression in parentheses
    refine expecting fun ⟨_, s1, _⟩ => bind (expression_gives s1) fun ⟨_, _, _⟩ hinner => ?_
    exact expecting fun ⟨_, _, _⟩ => pure hinner
  · -- no expression
    exact throw rfl
termination_by 8 * s.size
decreasing_by all_goals omega

theorem arrayAggregate_gives (s : Stream) :
    Parse.Gives (arrayAggregate s) (ArrayAggregate.All proper unfound) := by
  rw [arrayAggregate]
  refine bind (expression_gives s) fun ⟨_, s1, _⟩ helement => ?_
  dsimp only
  split
  · refine expecting fun ⟨_, s2, _⟩ => bind (arrayAggregate_gives s2) fun ⟨_, _, _⟩ hrest => ?_
    exact pure ⟨helement, hrest⟩
  · exact pure helement
termination_by 8 * s.size + 2
decreasing_by all_goals omega

theorem recordAggregate_gives (s : Stream) :
    Parse.Gives (recordAggregate s) (RecordAggregate.All proper unfound) := by
  rw [recordAggregate]
  refine naming fun ⟨_, s1, _⟩ => expecting fun ⟨_, s2, _⟩ => ?_
  refine bind (expression_gives s2) fun ⟨_, s3, _⟩ hvalue => ?_
  dsimp only
  split
  · refine expecting fun ⟨_, s4, _⟩ => bind (recordAggregate_gives s4) fun ⟨_, _, _⟩ hrest => ?_
    exact pure ⟨hvalue, hrest⟩
  · exact pure hvalue
termination_by 8 * s.size
decreasing_by all_goals omega

theorem vnameAfter_gives (start : Nat) (before : Vname) (s : Stream)
    (hbefore : before.All proper unfound) :
    Parse.Gives (vnameAfter start before s) (Vname.All proper unfound) := by
  rw [vnameAfter]
  split
  · refine expecting fun ⟨_, s1, _⟩ => naming fun ⟨_, s2, _⟩ => ?_
    exact bind (vnameAfter_gives _ _ s2 ⟨rfl, hbefore⟩) fun ⟨_, _, _⟩ hall => pure hall
  · refine expecting fun ⟨_, s1, _⟩ => bind (expression_gives s1) fun ⟨_, s2, _⟩ hindex => ?_
    refine expecting fun ⟨_, s3, _⟩ => ?_
    refine bind (vnameAfter_gives _ _ s3 ⟨rfl, hbefore, hindex⟩) fun ⟨_, _, _⟩ hall => ?_
    exact pure hall
  · exact pure hbefore
termination_by 8 * s.size
decreasing_by all_goals omega

theorem declaration_gives (s : Stream) :
    Parse.Gives (declaration s) (Declaration.All proper unfound) := by
  rw [declaration]
  refine bind (singleDeclaration_gives s) fun ⟨_, s1, _⟩ hfirst => ?_
  exact bind (declarationsAfter_gives _ _ s1 hfirst) fun ⟨_, _, _⟩ hall => pure hall
termination_by 8 * s.size + 1
decreasing_by all_goals omega

theorem declarationsAfter_gives (start : Nat) (before : Declaration) (s : Stream)
    (hbefore : before.All proper unfound) :
    Parse.Gives (declarationsAfter start before s) (Declaration.All proper unfound) := by
  rw [declarationsAfter]
  split
  · refine expecting fun ⟨_, s1, _⟩ => ?_
    refine bind (singleDeclaration_gives s1) fun ⟨_, s2, _⟩ hsecond => ?_
    refine bind (declarationsAfter_gives _ _ s2 ⟨hbefore, hsecond⟩) fun ⟨_, _, _⟩ hall => ?_
    exact pure hall
  · exact pure hbefore
termination_by 8 * s.size
decreasing_by all_goals omega

theorem singleDeclaration_gives (s : Stream) :
    Parse.Gives (singleDeclaration s) (Declaration.All proper unfound) := by
  rw [singleDeclaration]
  split
  · -- a constant
    refine expecting fun ⟨_, s1, _⟩ => naming fun ⟨_, s2, _⟩ => expecting fun ⟨_, s3, _⟩ => ?_
    exact bind (expression_gives s3) fun ⟨_, _, _⟩ hvalue => pure hvalue
  · -- a variable
    refine expecting fun ⟨_, s1, _⟩ => naming fun ⟨_, s2, _⟩ => expecting fun ⟨_, s3, _⟩ => ?_
    exact bind (typeDenoter_gives s3) fun ⟨_, _, _⟩ htype => pure htype
  · -- a procedure
    refine expecting fun ⟨_, s1, _⟩ => naming fun ⟨_, s2, _⟩ => expecting fun ⟨_, s3, _⟩ => ?_
    refine bind (formals_gives s3) fun ⟨_, s4, _⟩ hparameters => ?_
    refine expecting fun ⟨_, s5, _⟩ => expecting fun ⟨_, s6, _⟩ => ?_
    exact bind (singleCommand_gives s6) fun ⟨_, _, _⟩ hbody => pure ⟨hparameters, hbody⟩
  · -- a function
    refine expecting fun ⟨_, s1, _⟩ => naming fun ⟨_, s2, _⟩ => expecting fun ⟨_, s3, _⟩ => ?_
    refine bind (formals_gives s3) fun ⟨_, s4, _⟩ hparameters => ?_
    refine expecting fun ⟨_, s5, _⟩ => expecting fun ⟨_, s6, _⟩ => ?_
    refine bind (typeDenoter_gives s6) fun ⟨_, s7, _⟩ hresult => expecting fun ⟨_, s8, _⟩ => ?_
    exact bind (expression_gives s8) fun ⟨_, _, _⟩ hbody => pure ⟨hparameters, hresult, hbody⟩
  · -- a type
    refine expecting fun ⟨_, s1, _⟩ => naming fun ⟨_, s2, _⟩ => expecting fun ⟨_, s3, _⟩ => ?_
    exact bind (typeDenoter_gives s3) fun ⟨_, _, _⟩ htype => pure htype
  · -- no declaration
    exact throw rfl
termination_by 8 * s.size
decreasing_by all_goals omega

theorem actuals_gives (s : Stream) :
    Parse.Gives (actuals s) (Actuals.All proper unfound) := by
  rw [actuals]
  split
  · exact pure trivial
  · exact bind (someActuals_gives s) fun ⟨_, _, _⟩ hall => pure hall
termination_by 8 * s.size + 4
decreasing_by all_goals omega

theorem someActuals_gives (s : Stream) :
    Parse.Gives (someActuals s) (Actuals.All proper unfound) := by
  rw [someActuals]
  refine bind (actual_gives s) fun ⟨_, s1, _⟩ hfirst => ?_
  dsimp only
  split
  · refine expecting fun ⟨_, s2, _⟩ => bind (someActuals_gives s2) fun ⟨_, _, _⟩ hrest => ?_
    exact pure ⟨hfirst, hrest⟩
  · exact pure hfirst
termination_by 8 * s.size + 3
decreasing_by all_goals omega

theorem actual_gives (s : Stream) :
    Parse.Gives (actual s) (Actual.All proper unfound) := by
  rw [actual]
  have hexpression := expression_gives s
  split
  case h_10 =>
    refine expecting fun ⟨_, s1, _⟩ => naming fun ⟨_, s2, _⟩ => ?_
    exact bind (vnameAfter_gives _ _ s2 rfl) fun ⟨_, _, _⟩ hfound => pure hfound
  all_goals first
    | exact bind hexpression fun ⟨_, _, _⟩ hvalue => pure hvalue
    | exact expecting fun ⟨_, _, _⟩ => naming fun ⟨_, _, _⟩ => pure trivial
    | exact throw rfl
termination_by 8 * s.size + 2
decreasing_by all_goals omega

end

end Grammar

/-- What parsing a program gives. -/
theorem Program.parse_gives (text : String) :
    (∀ program, Program.parse text = .ok program →
      program.command.All TypeDenoter.Proper fun type => type = none) ∧
    ∀ d, Program.parse text = .error d → d.kind = .syntactic := by
  have hgives := Grammar.command_gives (Stream.ofText text)
  unfold Program.parse
  dsimp only
  cases hok : Grammar.command (Stream.ofText text) with
  | error d =>
    refine ⟨nofun, ?_⟩
    intro d' heq
    cases heq
    exact hgives.error d hok
  | ok parsed =>
    have hall := hgives.value parsed hok
    obtain ⟨command, s1, _⟩ := parsed
    -- behind the command there is the end of the text, or a token that is reported
    by_cases hend : s1.kind = .endOfText
    · simp only [bind, Except.bind, hend, ne_eq, not_true_eq_false, if_false]
      refine ⟨?_, nofun⟩
      intro program heq
      cases heq
      exact hall
    · simp only [bind, Except.bind, ne_eq, hend, not_false_eq_true, if_true]
      refine ⟨nofun, ?_⟩
      intro d heq
      cases heq
      rfl

/-- Every denoter in a parsed program is proper. -/
theorem Program.proper_of_parse {text : String} {program : Program}
    (h : Program.parse text = .ok program) :
    program.command.All TypeDenoter.Proper fun _ => True :=
  ((Program.parse_gives text).1 program h).mono (fun _ => id) fun _ _ => trivial

/-- No type of a parsed program is found yet. -/
theorem Program.unfound_of_parse {text : String} {program : Program}
    (h : Program.parse text = .ok program) :
    program.command.All (fun _ => True) fun type => type = none :=
  ((Program.parse_gives text).1 program h).mono (fun _ _ => trivial) fun _ => id

/-- A text that does not parse has an error of syntax. -/
theorem Program.kind_of_parse {text : String} {d : Diagnostic}
    (h : Program.parse text = .error d) : d.kind = .syntactic :=
  (Program.parse_gives text).2 d h

end TriangleTam
