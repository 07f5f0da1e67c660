import TriangleTam.Proofs.Parsing.Exact
import TriangleTam.Proofs.Scoping.Rules

/-! # Parsing links nothing

  No name in a parsed program has a binding. Every production of the grammar
  builds a tree without links from such trees; what continues a phrase keeps
  the part before it without links.
-/

namespace TriangleTam

/-! ## Positions aside -/

mutual

@[simp] theorem Formal.unlinked_bare : ∀ (parameter : Formal),
    parameter.bare.Unlinked ↔ parameter.Unlinked
  | .const .. | .var .. => by simp [Formal.bare, Name.bare, Formal.Unlinked]
  | .proc _ _ _ inner | .func _ _ _ inner _ => by
    simp [Formal.bare, Name.bare, Formal.Unlinked, inner.unlinked_bare]

@[simp] theorem Formals.unlinked_bare : ∀ (parameters : Formals),
    parameters.bare.Unlinked ↔ parameters.Unlinked
  | .empty _ => by simp [Formals.bare, Formals.Unlinked]
  | .one _ first => by simp [Formals.bare, Formals.Unlinked, first.unlinked_bare]
  | .more _ first rest => by
    simp [Formals.bare, Formals.Unlinked, first.unlinked_bare, rest.unlinked_bare]

end

mutual

@[simp] theorem Command.unlinked_bare : ∀ (command : Command),
    command.bare.Unlinked ↔ command.Unlinked
  | .empty _ => by simp [Command.bare, Command.Unlinked]
  | .assign _ target value => by
    simp [Command.bare, Command.Unlinked, target.unlinked_bare, value.unlinked_bare]
  | .call _ callee args => by simp [Command.bare, Name.bare, Command.Unlinked, args.unlinked_bare]
  | .sequence _ first second => by
    simp [Command.bare, Command.Unlinked, first.unlinked_bare, second.unlinked_bare]
  | .letIn _ declared body => by
    simp [Command.bare, Command.Unlinked, declared.unlinked_bare, body.unlinked_bare]
  | .ifElse _ condition thenBranch elseBranch => by
    simp [Command.bare, Command.Unlinked, condition.unlinked_bare, thenBranch.unlinked_bare,
      elseBranch.unlinked_bare]
  | .whileDo _ condition body => by
    simp [Command.bare, Command.Unlinked, condition.unlinked_bare, body.unlinked_bare]
  | .repeatUntil _ body condition => by
    simp [Command.bare, Command.Unlinked, body.unlinked_bare, condition.unlinked_bare]
  | .loopWhile _ body condition tail => by
    simp [Command.bare, Command.Unlinked, body.unlinked_bare, condition.unlinked_bare,
      tail.unlinked_bare]

@[simp] theorem Expression.unlinked_bare : ∀ (expression : Expression),
    expression.bare.Unlinked ↔ expression.Unlinked
  | .integer .. | .character .. => by simp [Expression.bare, Expression.Unlinked]
  | .vname _ _ found => by simp [Expression.bare, Expression.Unlinked, found.unlinked_bare]
  | .call _ _ callee args => by
    simp [Expression.bare, Name.bare, Expression.Unlinked, args.unlinked_bare]
  | .ifElse _ _ condition thenBranch elseBranch => by
    simp [Expression.bare, Expression.Unlinked, condition.unlinked_bare, thenBranch.unlinked_bare,
      elseBranch.unlinked_bare]
  | .letIn _ _ declared body => by
    simp [Expression.bare, Expression.Unlinked, declared.unlinked_bare, body.unlinked_bare]
  | .unary _ _ operator operand => by
    simp [Expression.bare, Name.bare, Expression.Unlinked, operand.unlinked_bare]
  | .binary _ _ left operator right => by
    simp [Expression.bare, Name.bare, Expression.Unlinked, left.unlinked_bare, right.unlinked_bare]
  | .array _ _ elements => by simp [Expression.bare, Expression.Unlinked, elements.unlinked_bare]
  | .record _ _ fields => by simp [Expression.bare, Expression.Unlinked, fields.unlinked_bare]

@[simp] theorem ArrayAggregate.unlinked_bare : ∀ (elements : ArrayAggregate),
    elements.bare.Unlinked ↔ elements.Unlinked
  | .one _ element => by simp [ArrayAggregate.bare, ArrayAggregate.Unlinked, element.unlinked_bare]
  | .more _ element rest => by
    simp [ArrayAggregate.bare, ArrayAggregate.Unlinked, element.unlinked_bare, rest.unlinked_bare]

@[simp] theorem RecordAggregate.unlinked_bare : ∀ (fields : RecordAggregate),
    fields.bare.Unlinked ↔ fields.Unlinked
  | .one _ _ value => by simp [RecordAggregate.bare, RecordAggregate.Unlinked, value.unlinked_bare]
  | .more _ _ value rest => by
    simp [RecordAggregate.bare, RecordAggregate.Unlinked, value.unlinked_bare, rest.unlinked_bare]

@[simp] theorem Vname.unlinked_bare : ∀ (vname : Vname), vname.bare.Unlinked ↔ vname.Unlinked
  | .simple .. => by simp [Vname.bare, Name.bare, Vname.Unlinked]
  | .dot _ _ _ record _ => by simp [Vname.bare, Vname.Unlinked, record.unlinked_bare]
  | .subscript _ _ _ array index => by
    simp [Vname.bare, Vname.Unlinked, array.unlinked_bare, index.unlinked_bare]

@[simp] theorem Declaration.unlinked_bare : ∀ (declaration : Declaration),
    declaration.bare.Unlinked ↔ declaration.Unlinked
  | .const _ _ _ value => by
    simp [Declaration.bare, Name.bare, Declaration.Unlinked, value.unlinked_bare]
  | .var .. | .type .. => by simp [Declaration.bare, Name.bare, Declaration.Unlinked]
  | .proc _ _ _ _ body | .func _ _ _ _ _ body => by
    simp [Declaration.bare, Name.bare, Declaration.Unlinked, body.unlinked_bare]
  | .sequence _ first second => by
    simp [Declaration.bare, Declaration.Unlinked, first.unlinked_bare, second.unlinked_bare]

@[simp] theorem Actuals.unlinked_bare : ∀ (args : Actuals), args.bare.Unlinked ↔ args.Unlinked
  | .empty _ => by simp [Actuals.bare, Actuals.Unlinked]
  | .one _ first => by simp [Actuals.bare, Actuals.Unlinked, first.unlinked_bare]
  | .more _ first rest => by
    simp [Actuals.bare, Actuals.Unlinked, first.unlinked_bare, rest.unlinked_bare]

@[simp] theorem Actual.unlinked_bare : ∀ (arg : Actual), arg.bare.Unlinked ↔ arg.Unlinked
  | .const _ value => by simp [Actual.bare, Actual.Unlinked, value.unlinked_bare]
  | .var _ found => by simp [Actual.bare, Actual.Unlinked, found.unlinked_bare]
  | .proc .. | .func .. => by simp [Actual.bare, Name.bare, Actual.Unlinked]

end

namespace Parsing

/-! ## Productions -/

/-- What the phrase builds has no links, or brings none to what was built before. -/
def Nonterminal.Unlinked : (N : Nonterminal) → N.Value → Prop
  | command, built | singleCommand, built => Command.Unlinked built
  | expression, built | primary, built => Expression.Unlinked built
  | declaration, built | singleDeclaration, built => Declaration.Unlinked built
  | formals, built | someFormals, built => Formals.Unlinked built
  | formal, built => Formal.Unlinked built
  | actuals, built | someActuals, built => Actuals.Unlinked built
  | actual, built => Actual.Unlinked built
  | elements, built => ArrayAggregate.Unlinked built
  | fieldValues, built => RecordAggregate.Unlinked built
  | type, _ | fields, _ | fieldsRest, _ => True
  | commands, follow => ∀ before : Command, before.Unlinked → Command.Unlinked (follow before)
  | ledCommand, follow => ∀ root : Name, root.binding = none → Command.Unlinked (follow root)
  | assignment, follow => ∀ target : Vname, target.Unlinked → Command.Unlinked (follow target)
  | path, follow => ∀ before : Vname, before.Unlinked → Vname.Unlinked (follow before)
  | operations, follow =>
    ∀ before : Expression, before.Unlinked → Expression.Unlinked (follow before)
  | ledPrimary, follow => ∀ root : Name, root.binding = none → Expression.Unlinked (follow root)
  | declarations, follow =>
    ∀ before : Declaration, before.Unlinked → Declaration.Unlinked (follow before)
  | formalsRest, follow => ∀ first : Formal, first.Unlinked → Formals.Unlinked (follow first)
  | actualsRest, follow => ∀ first : Actual, first.Unlinked → Actuals.Unlinked (follow first)
  | elementsRest, follow =>
    ∀ first : Expression, first.Unlinked → ArrayAggregate.Unlinked (follow first)
  | fieldValuesRest, follow =>
    ∀ (field : Name) (value : Expression), value.Unlinked →
      RecordAggregate.Unlinked (follow field value)

/-- The same for the parts of a production. -/
def Values.Unlinked : (pieces : List Piece) → Values pieces → Prop
  | [], _ => True
  | .token _ :: pieces, (_, rest) => Unlinked pieces rest
  | .phrase N :: pieces, (built, rest) => N.Unlinked built ∧ Unlinked pieces rest

theorem Rule.build_unlinked : {N : Nonterminal} → (rule : Rule N) →
    (values : Values rule.body) → Values.Unlinked rule.body values → N.Unlinked (rule.build values)
  | _, .command, _, ⟨hfirst, hmore, _⟩ => hmore _ hfirst
  | _, .noMoreCommands, _, _ => fun _ h => h
  | _, .moreCommands, _, ⟨hsecond, hmore, _⟩ => fun _ h => hmore _ ⟨h, hsecond⟩
  | _, .emptyCommand, _, _ => trivial
  | _, .ledCommand, _, ⟨hrest, _⟩ => hrest _ rfl
  | _, .beginEnd, _, ⟨hinner, _⟩ => hinner
  | _, .braces, _, ⟨hinner, _⟩ => hinner
  | _, .letCommand, _, ⟨hdeclared, hbody, _⟩ => ⟨hdeclared, hbody⟩
  | _, .ifCommand, _, ⟨hcondition, hthen, helse, _⟩ => ⟨hcondition, hthen, helse⟩
  | _, .whileCommand, _, ⟨hcondition, hbody, _⟩ => ⟨hcondition, hbody⟩
  | _, .repeatCommand, _, ⟨hbody, hcondition, _⟩ => ⟨hbody, hcondition⟩
  | _, .loopCommand, _, ⟨hbody, hcondition, htail, _⟩ => ⟨hbody, hcondition, htail⟩
  | _, .callCommand, _, ⟨hargs, _⟩ => fun _ h => ⟨h, hargs⟩
  | _, .change, _, ⟨hfollow, hassign, _⟩ => fun _ h => hassign _ (hfollow _ h)
  | _, .becomes, _, ⟨hvalue, _⟩ => fun _ h => ⟨h, hvalue⟩
  | _, .doubling, _, _ => fun _ h => ⟨h, h, rfl, trivial⟩
  | _, .noPath, _, _ => fun _ h => h
  | _, .dot, _, ⟨hfollow, _⟩ => fun _ h => hfollow _ h
  | _, .subscript, _, ⟨hindex, hfollow, _⟩ => fun _ h => hfollow _ ⟨h, hindex⟩
  | _, .letExpression, _, ⟨hdeclared, hbody, _⟩ => ⟨hdeclared, hbody⟩
  | _, .ifExpression, _, ⟨hcondition, hthen, helse, _⟩ => ⟨hcondition, hthen, helse⟩
  | _, .operation, _, ⟨hfirst, hmore, _⟩ => hmore _ hfirst
  | _, .noOperations, _, _ => fun _ h => h
  | _, .moreOperations, _, ⟨hright, hmore, _⟩ => fun _ h => hmore _ ⟨h, rfl, hright⟩
  | _, .integer, _, _ => trivial
  | _, .character, _, _ => trivial
  | _, .array, _, ⟨hlisted, _⟩ => hlisted
  | _, .record, _, ⟨hlisted, _⟩ => hlisted
  | _, .ledPrimary, _, ⟨hrest, _⟩ => hrest _ rfl
  | _, .unary, _, ⟨hoperand, _⟩ => ⟨rfl, hoperand⟩
  | _, .parentheses, _, ⟨hinner, _⟩ => hinner
  | _, .callExpression, _, ⟨hargs, _⟩ => fun _ h => ⟨h, hargs⟩
  | _, .vname, _, ⟨hfollow, _⟩ => fun _ h => hfollow _ h
  | _, .elements, _, ⟨hfirst, hrest, _⟩ => hrest _ hfirst
  | _, .lastElement, _, _ => fun _ h => h
  | _, .moreElements, _, ⟨hothers, _⟩ => fun _ h => ⟨h, hothers⟩
  | _, .fieldValues, _, ⟨hvalue, hrest, _⟩ => hrest _ _ hvalue
  | _, .lastFieldValue, _, _ => fun _ _ h => h
  | _, .moreFieldValues, _, ⟨hothers, _⟩ => fun _ _ h => ⟨h, hothers⟩
  | _, .declaration, _, ⟨hfirst, hmore, _⟩ => hmore _ hfirst
  | _, .noMoreDeclarations, _, _ => fun _ h => h
  | _, .moreDeclarations, _, ⟨hsecond, hmore, _⟩ => fun _ h => hmore _ ⟨h, hsecond⟩
  | _, .constDeclaration, _, ⟨hvalue, _⟩ => ⟨rfl, hvalue⟩
  | _, .varDeclaration, _, _ => rfl
  | _, .procDeclaration, _, ⟨hparameters, hbody, _⟩ => ⟨rfl, hparameters, hbody⟩
  | _, .funcDeclaration, _, ⟨hparameters, _, hbody, _⟩ => ⟨rfl, hparameters, hbody⟩
  | _, .typeDeclaration, _, _ => rfl
  | _, .noFormals, _, _ => trivial
  | _, .formals, _, ⟨hall, _⟩ => hall
  | _, .someFormals, _, ⟨hfirst, hrest, _⟩ => hrest _ hfirst
  | _, .lastFormal, _, _ => fun _ h => h
  | _, .moreFormals, _, ⟨hothers, _⟩ => fun _ h => ⟨h, hothers⟩
  | _, .constFormal, _, _ => rfl
  | _, .varFormal, _, _ => rfl
  | _, .procFormal, _, ⟨hinner, _⟩ => ⟨rfl, hinner⟩
  | _, .funcFormal, _, ⟨hinner, _⟩ => ⟨rfl, hinner⟩
  | _, .noActuals, _, _ => trivial
  | _, .actuals, _, ⟨hall, _⟩ => hall
  | _, .someActuals, _, ⟨hfirst, hrest, _⟩ => hrest _ hfirst
  | _, .lastActual, _, _ => fun _ h => h
  | _, .moreActuals, _, ⟨hothers, _⟩ => fun _ h => ⟨h, hothers⟩
  | _, .constActual, _, ⟨hvalue, _⟩ => hvalue
  | _, .varActual, _, ⟨hfollow, _⟩ => hfollow _ rfl
  | _, .procActual, _, _ => rfl
  | _, .funcActual, _, _ => rfl
  | _, .namedType, _, _ => trivial
  | _, .arrayType, _, _ => trivial
  | _, .recordType, _, _ => trivial
  | _, .fields, _, _ => trivial
  | _, .lastField, _, _ => trivial
  | _, .moreFields, _, _ => trivial

/-- What is derived has no links. -/
theorem Derivation.values_unlinked {pieces : List Piece} :
    ∀ d : Derivation pieces, Values.Unlinked pieces d.values
  | .done => trivial
  | .token _ _ rest => rest.values_unlinked
  | .phrase rule inner rest =>
    ⟨rule.build_unlinked inner.values inner.values_unlinked, rest.values_unlinked⟩

end Parsing

open Parsing in
/-- No name of a parsed program is linked. -/
theorem Program.unlinked_of_parse {text : String} {program : Program}
    (hparse : Program.parse text = .ok program) : program.command.Unlinked := by
  rcases parse_cases text with ⟨parsed, d, hok, -, htree⟩ | ⟨e, herror, -⟩
  · obtain rfl : parsed = program := Except.ok.inj (hok.symm.trans hparse)
    rw [← Command.unlinked_bare, htree]
    exact d.values_unlinked.1
  · rw [herror] at hparse
    cases hparse

end TriangleTam
