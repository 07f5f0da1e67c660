import TriangleTam.Fold
import TriangleTam.Proofs.Recast.Tree

/-! # Folding recast trees

  An operation is folded if its operands are literals and its operator is
  bound to an operation of the machine. None of this changes when a tree is
  recast. So folding the recast tree gives the folded tree, recast, and folds
  as many operations.
-/

namespace TriangleTam

namespace Fold

variable (f : Recast)

@[simp] theorem value?_recast (left right : Expression) (operator : Name) :
    value? (left.recast f) (operator.recast f) (right.recast f) = value? left operator right := by
  simp only [value?, Expression.integerValue?_recast, Name.binding_recast]

theorem literal_recast (span : Span) (value : Int) :
    literal (f.span span) value = (literal span value).recast f := rfl

mutual

theorem command_recast : ∀ node : Command,
    command (node.recast f) = Command.recast f <$> command node
  | .empty span => rfl
  | .assign span target value => by
    simp only [Command.recast, command, vname_recast target, expression_recast value, map_bind,
      bind_map_left, map_pure]
  | .call span callee args => by
    simp only [Command.recast, command, actuals_recast args, map_bind, bind_map_left, map_pure]
  | .sequence span first second => by
    simp only [Command.recast, command, command_recast first, command_recast second, map_bind,
      bind_map_left, map_pure]
  | .letIn span declared body => by
    simp only [Command.recast, command, declaration_recast declared, command_recast body,
      map_bind, bind_map_left, map_pure]
  | .ifElse span condition thenBranch elseBranch => by
    simp only [Command.recast, command, expression_recast condition, command_recast thenBranch,
      command_recast elseBranch, map_bind, bind_map_left, map_pure]
  | .whileDo span condition body => by
    simp only [Command.recast, command, expression_recast condition, command_recast body,
      map_bind, bind_map_left, map_pure]
  | .repeatUntil span body condition => by
    simp only [Command.recast, command, expression_recast condition, command_recast body,
      map_bind, bind_map_left, map_pure]
  | .loopWhile span body condition tail => by
    simp only [Command.recast, command, expression_recast condition, command_recast body,
      command_recast tail, map_bind, bind_map_left, map_pure]

theorem expression_recast : ∀ node : Expression,
    expression (node.recast f) = Expression.recast f <$> expression node
  | .integer span type literal => rfl
  | .character span type literal => rfl
  | .vname span type found => by
    simp only [Expression.recast, expression, vname_recast found, map_bind, bind_map_left,
      map_pure]
  | .call span type callee args => by
    simp only [Expression.recast, expression, actuals_recast args, map_bind, bind_map_left,
      map_pure]
  | .ifElse span type condition thenBranch elseBranch => by
    simp only [Expression.recast, expression, expression_recast condition,
      expression_recast thenBranch, expression_recast elseBranch, map_bind, bind_map_left,
      map_pure]
  | .letIn span type declared body => by
    simp only [Expression.recast, expression, declaration_recast declared,
      expression_recast body, map_bind, bind_map_left, map_pure]
  | .unary span type operator operand => by
    simp only [Expression.recast, expression, expression_recast operand, map_bind,
      bind_map_left, map_pure]
  | .binary span type left operator right => by
    simp only [Expression.recast, expression, expression_recast left, expression_recast right,
      map_bind, bind_map_left, value?_recast]
    refine bind_congr fun left => bind_congr fun right => ?_
    -- the operation is folded in both or in none
    cases value? left operator right with
    | none => rfl
    | some value =>
      rw [Expression.span_recast]
      rfl
  | .array span type elements => by
    simp only [Expression.recast, expression, arrayAggregate_recast elements, map_bind,
      bind_map_left, map_pure]
  | .record span type fields => by
    simp only [Expression.recast, expression, recordAggregate_recast fields, map_bind,
      bind_map_left, map_pure]

theorem arrayAggregate_recast : ∀ node : ArrayAggregate,
    arrayAggregate (node.recast f) = ArrayAggregate.recast f <$> arrayAggregate node
  | .one span element => by
    simp only [ArrayAggregate.recast, arrayAggregate, expression_recast element, map_bind,
      bind_map_left, map_pure]
  | .more span element rest => by
    simp only [ArrayAggregate.recast, arrayAggregate, expression_recast element,
      arrayAggregate_recast rest, map_bind, bind_map_left, map_pure]

theorem recordAggregate_recast : ∀ node : RecordAggregate,
    recordAggregate (node.recast f) = RecordAggregate.recast f <$> recordAggregate node
  | .one span field value => by
    simp only [RecordAggregate.recast, recordAggregate, expression_recast value, map_bind,
      bind_map_left, map_pure]
  | .more span field value rest => by
    simp only [RecordAggregate.recast, recordAggregate, expression_recast value,
      recordAggregate_recast rest, map_bind, bind_map_left, map_pure]

theorem vname_recast : ∀ node : Vname, vname (node.recast f) = Vname.recast f <$> vname node
  | .simple span type isVariable name => rfl
  | .dot span type isVariable record field => by
    simp only [Vname.recast, vname, vname_recast record, map_bind, bind_map_left, map_pure]
  | .subscript span type isVariable array index => by
    simp only [Vname.recast, vname, vname_recast array, expression_recast index, map_bind,
      bind_map_left, map_pure]

theorem declaration_recast : ∀ node : Declaration,
    declaration (node.recast f) = Declaration.recast f <$> declaration node
  | .const span duplicated name value => by
    simp only [Declaration.recast, declaration, expression_recast value, map_bind,
      bind_map_left, map_pure]
  | .var span duplicated name type => rfl
  | .proc span duplicated name parameters body => by
    simp only [Declaration.recast, declaration, command_recast body, map_bind, bind_map_left,
      map_pure]
  | .func span duplicated name parameters result body => by
    simp only [Declaration.recast, declaration, expression_recast body, map_bind,
      bind_map_left, map_pure]
  | .type span duplicated name type => rfl
  | .sequence span first second => by
    simp only [Declaration.recast, declaration, declaration_recast first,
      declaration_recast second, map_bind, bind_map_left, map_pure]

theorem actuals_recast : ∀ node : Actuals,
    actuals (node.recast f) = Actuals.recast f <$> actuals node
  | .empty span => rfl
  | .one span first => by
    simp only [Actuals.recast, actuals, actual_recast first, map_bind, bind_map_left, map_pure]
  | .more span first rest => by
    simp only [Actuals.recast, actuals, actual_recast first, actuals_recast rest, map_bind,
      bind_map_left, map_pure]

theorem actual_recast : ∀ node : Actual,
    actual (node.recast f) = Actual.recast f <$> actual node
  | .const span value => by
    simp only [Actual.recast, actual, expression_recast value, map_bind, bind_map_left, map_pure]
  | .var span found => by
    simp only [Actual.recast, actual, vname_recast found, map_bind, bind_map_left, map_pure]
  | .proc span name => rfl
  | .func span name => rfl

end

end Fold

/-- Folding the recast program gives the folded program, recast. -/
theorem Program.fold_recast (f : Recast) (program : Program) (journal journal' : Journal) :
    ((program.recast f).fold journal').program = (program.fold journal).program.recast f := by
  have hcommand : (Fold.command (program.command.recast f)).run 0 =
      (Command.recast f <$> Fold.command program.command).run 0 := by
    rw [Fold.command_recast]
  exact (Program.mk.injEq ..).mpr ⟨congrArg Prod.fst hcommand, rfl, rfl⟩

end TriangleTam
