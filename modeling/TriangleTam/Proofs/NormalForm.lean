import TriangleTam.Tree.Statistics
import TriangleTam.Proofs.Folding.Operations

/-! # The normal form of folding

  A folded tree is in **normal form**: no operation that may be folded is left
  in it, at any depth. Folding keeps a normal form as it is. And it does
  nothing to a tree but to replace operations, three nodes by one each time,
  so that the number of folds can be told from the statistics.
-/

namespace TriangleTam

/-! ## The expressions of a tree -/

mutual

/-- The expressions at any depth of a tree. -/
def Command.expressions : Command → List Expression
  | .empty _ => []
  | .assign _ target value => target.expressions ++ value.expressions
  | .call _ _ args => args.expressions
  | .sequence _ first second => first.expressions ++ second.expressions
  | .letIn _ declared body => declared.expressions ++ body.expressions
  | .ifElse _ condition thenBranch elseBranch =>
    condition.expressions ++ thenBranch.expressions ++ elseBranch.expressions
  | .whileDo _ condition body => condition.expressions ++ body.expressions
  | .repeatUntil _ body condition => body.expressions ++ condition.expressions
  | .loopWhile _ body condition tail =>
    body.expressions ++ condition.expressions ++ tail.expressions

/-- The expression itself and those inside it. -/
def Expression.expressions : Expression → List Expression
  | .integer span type literal => [.integer span type literal]
  | .character span type literal => [.character span type literal]
  | .vname span type found => .vname span type found :: found.expressions
  | .call span type callee args => .call span type callee args :: args.expressions
  | .ifElse span type condition thenBranch elseBranch =>
    .ifElse span type condition thenBranch elseBranch ::
      (condition.expressions ++ thenBranch.expressions ++ elseBranch.expressions)
  | .letIn span type declared body =>
    .letIn span type declared body :: (declared.expressions ++ body.expressions)
  | .unary span type operator operand =>
    .unary span type operator operand :: operand.expressions
  | .binary span type left operator right =>
    .binary span type left operator right :: (left.expressions ++ right.expressions)
  | .array span type elements => .array span type elements :: elements.expressions
  | .record span type fields => .record span type fields :: fields.expressions

def ArrayAggregate.expressions : ArrayAggregate → List Expression
  | .one _ element => element.expressions
  | .more _ element rest => element.expressions ++ rest.expressions

def RecordAggregate.expressions : RecordAggregate → List Expression
  | .one _ _ value => value.expressions
  | .more _ _ value rest => value.expressions ++ rest.expressions

def Vname.expressions : Vname → List Expression
  | .simple .. => []
  | .dot _ _ _ record _ => record.expressions
  | .subscript _ _ _ array index => array.expressions ++ index.expressions

def Declaration.expressions : Declaration → List Expression
  | .const _ _ _ value => value.expressions
  | .var .. | .type .. => []
  | .proc _ _ _ _ body => body.expressions
  | .func _ _ _ _ _ body => body.expressions
  | .sequence _ first second => first.expressions ++ second.expressions

def Actuals.expressions : Actuals → List Expression
  | .empty _ => []
  | .one _ actual => actual.expressions
  | .more _ actual rest => actual.expressions ++ rest.expressions

def Actual.expressions : Actual → List Expression
  | .const _ value => value.expressions
  | .var _ found => found.expressions
  | .proc .. | .func .. => []

end

/-! ## The statistics count them -/

namespace Statistics

@[simp] theorem expressions_add (a b : Statistics) :
    (a + b).expressions = a.expressions + b.expressions := rfl

@[simp] theorem expressions_aCommand : aCommand.expressions = 0 := rfl

@[simp] theorem expressions_anExpression : anExpression.expressions = 1 := rfl

@[simp] theorem expressions_aDeclaration : aDeclaration.expressions = 0 := rfl

@[simp] theorem expressions_aVname : aVname.expressions = 0 := rfl

@[simp] theorem expressions_aParameter : aParameter.expressions = 0 := rfl

@[simp] theorem expressions_aType : aType.expressions = 0 := rfl

end Statistics

mutual

theorem TypeDenoter.expressions_statistics : (type : TypeDenoter) →
    type.statistics.expressions = 0
  | .array _ _ _ element => by
    rw [TypeDenoter.statistics, Statistics.expressions_add, element.expressions_statistics]
    rfl
  | .record _ _ fields => by
    rw [TypeDenoter.statistics, Statistics.expressions_add, fields.expressions_statistics]
    rfl
  | .boolean | .character | .integer | .any | .error | .named .. => rfl

theorem Fields.expressions_statistics : (fields : Fields) → fields.statistics.expressions = 0
  | .one _ _ type => type.expressions_statistics
  | .more _ _ type rest => by
    rw [Fields.statistics, Statistics.expressions_add, type.expressions_statistics,
      rest.expressions_statistics]

end

mutual

theorem Formal.expressions_statistics : (formal : Formal) → formal.statistics.expressions = 0
  | .const _ _ _ type | .var _ _ _ type => by
    rw [Formal.statistics, Statistics.expressions_add, type.expressions_statistics]
    rfl
  | .proc _ _ _ inner => by
    rw [Formal.statistics, Statistics.expressions_add, inner.expressions_statistics]
    rfl
  | .func _ _ _ inner result => by
    rw [Formal.statistics, Statistics.expressions_add, Statistics.expressions_add,
      inner.expressions_statistics, result.expressions_statistics]
    rfl

theorem Formals.expressions_statistics : (formals : Formals) →
    formals.statistics.expressions = 0
  | .empty _ => rfl
  | .one _ formal => formal.expressions_statistics
  | .more _ formal rest => by
    rw [Formals.statistics, Statistics.expressions_add, formal.expressions_statistics,
      rest.expressions_statistics]

end

mutual

/-- The statistics of a command count the expressions at any depth. -/
theorem Command.length_expressions : (command : Command) →
    command.expressions.length = command.statistics.expressions
  | .empty _ => rfl
  | .assign _ target value => by
    simp [Command.expressions, Command.statistics, target.length_expressions,
      value.length_expressions]
  | .call _ _ args => by
    simp [Command.expressions, Command.statistics, args.length_expressions]
  | .sequence _ first second => by
    simp [Command.expressions, Command.statistics, first.length_expressions,
      second.length_expressions]
  | .letIn _ declared body => by
    simp [Command.expressions, Command.statistics, declared.length_expressions,
      body.length_expressions]
  | .ifElse _ condition thenBranch elseBranch => by
    simp [Command.expressions, Command.statistics, Nat.add_assoc, condition.length_expressions,
      thenBranch.length_expressions, elseBranch.length_expressions]
  | .whileDo _ condition body => by
    simp [Command.expressions, Command.statistics, condition.length_expressions,
      body.length_expressions]
  | .repeatUntil _ body condition => by
    simp [Command.expressions, Command.statistics, body.length_expressions,
      condition.length_expressions]
  | .loopWhile _ body condition tail => by
    simp [Command.expressions, Command.statistics, Nat.add_assoc, body.length_expressions,
      condition.length_expressions, tail.length_expressions]

theorem Expression.length_expressions : (expression : Expression) →
    expression.expressions.length = expression.statistics.expressions
  | .integer .. => rfl
  | .character .. => rfl
  | .vname _ _ found => by
    simp [Expression.expressions, Expression.statistics, found.length_expressions]
    omega
  | .call _ _ _ args => by
    simp [Expression.expressions, Expression.statistics, args.length_expressions]
    omega
  | .ifElse _ _ condition thenBranch elseBranch => by
    simp [Expression.expressions, Expression.statistics, condition.length_expressions,
      thenBranch.length_expressions, elseBranch.length_expressions]
    omega
  | .letIn _ _ declared body => by
    simp [Expression.expressions, Expression.statistics, declared.length_expressions,
      body.length_expressions]
    omega
  | .unary _ _ _ operand => by
    simp [Expression.expressions, Expression.statistics, operand.length_expressions]
    omega
  | .binary _ _ left _ right => by
    simp [Expression.expressions, Expression.statistics, left.length_expressions,
      right.length_expressions]
    omega
  | .array _ _ elements => by
    simp [Expression.expressions, Expression.statistics, elements.length_expressions]
    omega
  | .record _ _ fields => by
    simp [Expression.expressions, Expression.statistics, fields.length_expressions]
    omega

theorem ArrayAggregate.length_expressions : (elements : ArrayAggregate) →
    elements.expressions.length = elements.statistics.expressions
  | .one _ element => element.length_expressions
  | .more _ element rest => by
    simp [ArrayAggregate.expressions, ArrayAggregate.statistics, element.length_expressions,
      rest.length_expressions]

theorem RecordAggregate.length_expressions : (fields : RecordAggregate) →
    fields.expressions.length = fields.statistics.expressions
  | .one _ _ value => value.length_expressions
  | .more _ _ value rest => by
    simp [RecordAggregate.expressions, RecordAggregate.statistics, value.length_expressions,
      rest.length_expressions]

theorem Vname.length_expressions : (vname : Vname) →
    vname.expressions.length = vname.statistics.expressions
  | .simple .. => rfl
  | .dot _ _ _ record _ => by
    simp [Vname.expressions, Vname.statistics, record.length_expressions]
  | .subscript _ _ _ array index => by
    simp [Vname.expressions, Vname.statistics, array.length_expressions, index.length_expressions]

theorem Declaration.length_expressions : (declaration : Declaration) →
    declaration.expressions.length = declaration.statistics.expressions
  | .const _ _ _ value => by
    simp [Declaration.expressions, Declaration.statistics, value.length_expressions]
  | .var _ _ _ type => by
    simp [Declaration.expressions, Declaration.statistics, type.expressions_statistics]
  | .type _ _ _ type => by
    simp [Declaration.expressions, Declaration.statistics, type.expressions_statistics]
  | .proc _ _ _ parameters body => by
    simp [Declaration.expressions, Declaration.statistics, parameters.expressions_statistics,
      body.length_expressions]
  | .func _ _ _ parameters result body => by
    simp [Declaration.expressions, Declaration.statistics, parameters.expressions_statistics,
      result.expressions_statistics, body.length_expressions]
  | .sequence _ first second => by
    simp [Declaration.expressions, Declaration.statistics, first.length_expressions,
      second.length_expressions]

theorem Actuals.length_expressions : (args : Actuals) →
    args.expressions.length = args.statistics.expressions
  | .empty _ => rfl
  | .one _ actual => actual.length_expressions
  | .more _ actual rest => by
    simp [Actuals.expressions, Actuals.statistics, actual.length_expressions,
      rest.length_expressions]

theorem Actual.length_expressions : (arg : Actual) →
    arg.expressions.length = arg.statistics.expressions
  | .const _ value => by
    simp [Actual.expressions, Actual.statistics, value.length_expressions]
  | .var _ found => by
    simp [Actual.expressions, Actual.statistics, found.length_expressions]
  | .proc .. => rfl
  | .func .. => rfl

end

/-! ## What folding settles -/

namespace Fold

/-- A part with the statistics `before` was folded to one with the statistics `after`, in which
    none of the expressions `parts` may be folded. The number of folds went from `n` to `n'`. -/
structure Settled (before after : Statistics) (parts : List Expression) (n n' : Nat) : Prop where
  normal       : ∀ expression ∈ parts, ¬ expression.Foldable
  commands     : before.commands = after.commands
  expressions  : before.expressions + 2 * n = after.expressions + 2 * n'
  declarations : before.declarations = after.declarations
  vnames       : before.vnames = after.vnames
  parameters   : before.parameters = after.parameters
  types        : before.types = after.types

namespace Settled

variable {before after before' after' : Statistics} {parts parts' : List Expression}
  {n n' m m' : Nat}

/-- Nothing is folded in what has no expressions. -/
theorem leaf (own : Statistics) (n : Nat) : Settled own own [] n n :=
  ⟨nofun, rfl, rfl, rfl, rfl, rfl, rfl⟩

/-- A node that stays. -/
theorem node {expression : Expression} (h : ¬ expression.Foldable) (own : Statistics) (n : Nat) :
    Settled own own [expression] n n :=
  ⟨List.forall_mem_singleton.2 h, rfl, rfl, rfl, rfl, rfl, rfl⟩

/-- Two parts, whose folds make up those from `first` to `last`. -/
theorem both (h : Settled before after parts n n') (h' : Settled before' after' parts' m m')
    {first last : Nat} (hfolds : first + n' + m' = last + n + m) :
    Settled (before + before') (after + after') (parts ++ parts') first last where
  normal := List.forall_mem_append.2 ⟨h.normal, h'.normal⟩
  commands := congrArg₂ (· + ·) h.commands h'.commands
  expressions := by
    show before.expressions + before'.expressions + 2 * first =
      after.expressions + after'.expressions + 2 * last
    have hexpressions := h.expressions
    have hexpressions' := h'.expressions
    omega
  declarations := congrArg₂ (· + ·) h.declarations h'.declarations
  vnames := congrArg₂ (· + ·) h.vnames h'.vnames
  parameters := congrArg₂ (· + ·) h.parameters h'.parameters
  types := congrArg₂ (· + ·) h.types h'.types

/-- The second part is folded after the first. -/
theorem append (h : Settled before after parts n n') (h' : Settled before' after' parts' n' m) :
    Settled (before + before') (after + after') (parts ++ parts') n m :=
  h.both h' (by omega)

/-- The second part is folded before the first. -/
theorem append_back (h : Settled before after parts n n')
    (h' : Settled before' after' parts' m n) :
    Settled (before + before') (after + after') (parts ++ parts') m n' :=
  h.both h' (by omega)

end Settled

variable {before before' : Statistics} {n n' n'' : Nat}

/-- An operation on two settled operands is settled: it stays if it may not be folded, and where
    it was folded, three nodes became one. -/
theorem binary_settled {span : Span} {type : Option TypeDenoter} {left right : Expression}
    {operator : Name} (hleft : Settled before left.statistics left.expressions n n')
    (hright : Settled before' right.statistics right.expressions n' n'') :
    let folded := (match value? left operator right with
      | some value => do
        modify fun count => count + 1
        return literal left.span value
      | none => return .binary span type left operator right : Fold Expression).run n''
    Settled (Statistics.anExpression + before + before') folded.1.statistics
      folded.1.expressions n folded.2 := by
  cases hvalue : value? left operator right with
  | none =>
    have hstays : ¬ (Expression.binary span type left operator right).Foldable :=
      value?_eq_none_iff.1 hvalue
    exact ((Settled.node hstays Statistics.anExpression n).append hleft).append hright
  | some value =>
    obtain ⟨a, b, _, _, hleftValue, hrightValue, -⟩ := value?_eq_some_iff.1 hvalue
    have hliteral : ¬ (literal left.span value).Foldable := by
      intro h
      cases h
    -- the operands are literals, which is one expression each
    have hone {e : Expression} {c : Int} (h : e.integerValue? = some c) :
        e.statistics = Statistics.anExpression := by
      cases e with
      | integer => rfl
      | _ => cases h
    rw [hone hleftValue] at hleft
    rw [hone hrightValue] at hright
    have hboth := ((Settled.leaf Statistics.anExpression n).append hleft).append hright
    have hexpressions : (Statistics.anExpression + before + before').expressions + 2 * n =
        1 + 2 * (n'' + 1) := by
      have hthree : _ = 1 + 1 + 1 + 2 * n'' := hboth.expressions
      omega
    exact ⟨List.forall_mem_singleton.2 hliteral, hboth.commands, hexpressions,
      hboth.declarations, hboth.vnames, hboth.parameters, hboth.types⟩

/-- However much was folded before, the step settles what it returns. -/
def Settles {α : Type} (m : Fold α) (before : Statistics) (after : α → Statistics)
    (parts : α → List Expression) : Prop :=
  ∀ n, Settled before (after (m.run n).1) (parts (m.run n).1) n (m.run n).2

open Settled (leaf node)
open Statistics

mutual

theorem command_settles : (c : Command) →
    (command c).Settles c.statistics Command.statistics Command.expressions
  | .empty span => fun n => by
    rw [command]
    exact leaf aCommand n
  | .assign span target value => fun n => by
    rw [command]
    exact ((leaf aCommand n).append (vname_settles target _)).append (expression_settles value _)
  | .call span callee args => fun n => by
    rw [command]
    exact (leaf aCommand n).append (actuals_settles args _)
  | .sequence span first second => fun n => by
    rw [command]
    exact ((leaf aCommand n).append (command_settles first _)).append (command_settles second _)
  | .letIn span declared body => fun n => by
    rw [command]
    exact ((leaf aCommand n).append (declaration_settles declared _)).append
      (command_settles body _)
  | .ifElse span condition thenBranch elseBranch => fun n => by
    rw [command]
    exact (((leaf aCommand n).append (expression_settles condition _)).append
      (command_settles thenBranch _)).append (command_settles elseBranch _)
  | .whileDo span condition body => fun n => by
    rw [command]
    exact ((leaf aCommand n).append (expression_settles condition _)).append
      (command_settles body _)
  | .repeatUntil span body condition => fun n => by
    rw [command]
    -- folding comes to the condition first, and the statistics to the body
    exact ((leaf aCommand _).append (command_settles body _)).append_back
      (expression_settles condition n)
  | .loopWhile span body condition tail => fun n => by
    rw [command]
    exact (((leaf aCommand n).append (command_settles body _)).append
      (expression_settles condition _)).append (command_settles tail _)

theorem expression_settles : (e : Expression) →
    (expression e).Settles e.statistics Expression.statistics Expression.expressions
  | .integer span type literal => fun n => by
    rw [expression]
    exact node (by nofun) anExpression n
  | .character span type literal => fun n => by
    rw [expression]
    exact node (by nofun) anExpression n
  | .vname span type found => fun n => by
    rw [expression]
    exact (node (by nofun) anExpression n).append (vname_settles found _)
  | .call span type callee args => fun n => by
    rw [expression]
    exact (node (by nofun) anExpression n).append (actuals_settles args _)
  | .ifElse span type condition thenBranch elseBranch => fun n => by
    rw [expression]
    exact (((node (by nofun) anExpression n).append (expression_settles condition _)).append
      (expression_settles thenBranch _)).append (expression_settles elseBranch _)
  | .letIn span type declared body => fun n => by
    rw [expression]
    exact ((node (by nofun) anExpression n).append (declaration_settles declared _)).append
      (expression_settles body _)
  | .unary span type operator operand => fun n => by
    rw [expression]
    exact (node (by nofun) anExpression n).append (expression_settles operand _)
  | .binary span type left operator right => fun n => by
    rw [expression]
    exact binary_settled (expression_settles left n) (expression_settles right _)
  | .array span type elements => fun n => by
    rw [expression]
    exact (node (by nofun) anExpression n).append (arrayAggregate_settles elements _)
  | .record span type fields => fun n => by
    rw [expression]
    exact (node (by nofun) anExpression n).append (recordAggregate_settles fields _)

theorem arrayAggregate_settles : (elements : ArrayAggregate) →
    (arrayAggregate elements).Settles elements.statistics ArrayAggregate.statistics
      ArrayAggregate.expressions
  | .one span element => fun n => by
    rw [arrayAggregate]
    exact expression_settles element n
  | .more span element rest => fun n => by
    rw [arrayAggregate]
    exact (expression_settles element n).append (arrayAggregate_settles rest _)

theorem recordAggregate_settles : (fields : RecordAggregate) →
    (recordAggregate fields).Settles fields.statistics RecordAggregate.statistics
      RecordAggregate.expressions
  | .one span field value => fun n => by
    rw [recordAggregate]
    exact expression_settles value n
  | .more span field value rest => fun n => by
    rw [recordAggregate]
    exact (expression_settles value n).append (recordAggregate_settles rest _)

theorem vname_settles : (v : Vname) →
    (vname v).Settles v.statistics Vname.statistics Vname.expressions
  | .simple span type isVariable name => fun n => by
    rw [vname]
    exact leaf aVname n
  | .dot span type isVariable record field => fun n => by
    rw [vname]
    exact (leaf aVname n).append (vname_settles record _)
  | .subscript span type isVariable array index => fun n => by
    rw [vname]
    exact ((leaf aVname n).append (vname_settles array _)).append (expression_settles index _)

theorem declaration_settles : (d : Declaration) →
    (declaration d).Settles d.statistics Declaration.statistics Declaration.expressions
  | .const span duplicated name value => fun n => by
    rw [declaration]
    exact (leaf aDeclaration n).append (expression_settles value _)
  | .var span duplicated name type => fun n => by
    rw [declaration]
    exact leaf _ n
  | .proc span duplicated name parameters body => fun n => by
    rw [declaration]
    exact (leaf (aDeclaration + parameters.statistics) n).append (command_settles body _)
  | .func span duplicated name parameters result body => fun n => by
    rw [declaration]
    exact (leaf (aDeclaration + parameters.statistics + result.statistics) n).append
      (expression_settles body _)
  | .type span duplicated name type => fun n => by
    rw [declaration]
    exact leaf _ n
  | .sequence span first second => fun n => by
    rw [declaration]
    exact ((leaf aDeclaration n).append (declaration_settles first _)).append
      (declaration_settles second _)

theorem actuals_settles : (args : Actuals) →
    (actuals args).Settles args.statistics Actuals.statistics Actuals.expressions
  | .empty span => fun n => by
    rw [actuals]
    exact leaf {} n
  | .one span first => fun n => by
    rw [actuals]
    exact actual_settles first n
  | .more span first rest => fun n => by
    rw [actuals]
    exact (actual_settles first n).append (actuals_settles rest _)

theorem actual_settles : (arg : Actual) →
    (actual arg).Settles arg.statistics Actual.statistics Actual.expressions
  | .const span value => fun n => by
    rw [actual]
    exact (leaf aParameter n).append (expression_settles value _)
  | .var span found => fun n => by
    rw [actual]
    exact (leaf aParameter n).append (vname_settles found _)
  | .proc span name => fun n => by
    rw [actual]
    exact leaf aParameter n
  | .func span name => fun n => by
    rw [actual]
    exact leaf aParameter n

end

/-! ## A normal form stays -/

mutual

/-- Where nothing may be folded, folding returns the command as it is. -/
theorem command_same : (c : Command) →
    (∀ e ∈ c.expressions, ¬ e.Foldable) → command c = pure c
  | .empty _, _ => rfl
  | .assign _ target value, h => by
    obtain ⟨htarget, hvalue⟩ := List.forall_mem_append.1 h
    simp only [command, vname_same target htarget, expression_same value hvalue, pure_bind]
  | .call _ _ args, h => by
    simp only [command, actuals_same args h, pure_bind]
  | .sequence _ first second, h => by
    obtain ⟨hfirst, hsecond⟩ := List.forall_mem_append.1 h
    simp only [command, command_same first hfirst, command_same second hsecond, pure_bind]
  | .letIn _ declared body, h => by
    obtain ⟨hdeclared, hbody⟩ := List.forall_mem_append.1 h
    simp only [command, declaration_same declared hdeclared, command_same body hbody, pure_bind]
  | .ifElse _ condition thenBranch elseBranch, h => by
    obtain ⟨h, helseBranch⟩ := List.forall_mem_append.1 h
    obtain ⟨hcondition, hthenBranch⟩ := List.forall_mem_append.1 h
    simp only [command, expression_same condition hcondition, command_same thenBranch hthenBranch,
      command_same elseBranch helseBranch, pure_bind]
  | .whileDo _ condition body, h => by
    obtain ⟨hcondition, hbody⟩ := List.forall_mem_append.1 h
    simp only [command, expression_same condition hcondition, command_same body hbody, pure_bind]
  | .repeatUntil _ body condition, h => by
    obtain ⟨hbody, hcondition⟩ := List.forall_mem_append.1 h
    simp only [command, command_same body hbody, expression_same condition hcondition, pure_bind]
  | .loopWhile _ body condition tail, h => by
    obtain ⟨h, htail⟩ := List.forall_mem_append.1 h
    obtain ⟨hbody, hcondition⟩ := List.forall_mem_append.1 h
    simp only [command, command_same body hbody, expression_same condition hcondition,
      command_same tail htail, pure_bind]

theorem expression_same : (e : Expression) →
    (∀ e' ∈ e.expressions, ¬ e'.Foldable) → expression e = pure e
  | .integer .., _ => rfl
  | .character .., _ => rfl
  | .vname _ _ found, h => by
    obtain ⟨-, hfound⟩ := List.forall_mem_cons.1 h
    simp only [expression, vname_same found hfound, pure_bind]
  | .call _ _ _ args, h => by
    obtain ⟨-, hargs⟩ := List.forall_mem_cons.1 h
    simp only [expression, actuals_same args hargs, pure_bind]
  | .ifElse _ _ condition thenBranch elseBranch, h => by
    obtain ⟨-, h⟩ := List.forall_mem_cons.1 h
    obtain ⟨h, helseBranch⟩ := List.forall_mem_append.1 h
    obtain ⟨hcondition, hthenBranch⟩ := List.forall_mem_append.1 h
    simp only [expression, expression_same condition hcondition,
      expression_same thenBranch hthenBranch, expression_same elseBranch helseBranch, pure_bind]
  | .letIn _ _ declared body, h => by
    obtain ⟨-, h⟩ := List.forall_mem_cons.1 h
    obtain ⟨hdeclared, hbody⟩ := List.forall_mem_append.1 h
    simp only [expression, declaration_same declared hdeclared, expression_same body hbody,
      pure_bind]
  | .unary _ _ _ operand, h => by
    obtain ⟨-, hoperand⟩ := List.forall_mem_cons.1 h
    simp only [expression, expression_same operand hoperand, pure_bind]
  | .binary span type left operator right, h => by
    obtain ⟨hself, h⟩ := List.forall_mem_cons.1 h
    obtain ⟨hleft, hright⟩ := List.forall_mem_append.1 h
    simp only [expression, expression_same left hleft, expression_same right hright, pure_bind,
      value?_eq_none_iff.2 hself]
  | .array _ _ elements, h => by
    obtain ⟨-, helements⟩ := List.forall_mem_cons.1 h
    simp only [expression, arrayAggregate_same elements helements, pure_bind]
  | .record _ _ fields, h => by
    obtain ⟨-, hfields⟩ := List.forall_mem_cons.1 h
    simp only [expression, recordAggregate_same fields hfields, pure_bind]

theorem arrayAggregate_same : (elements : ArrayAggregate) →
    (∀ e ∈ elements.expressions, ¬ e.Foldable) → arrayAggregate elements = pure elements
  | .one _ element, h => by
    simp only [arrayAggregate, expression_same element h, pure_bind]
  | .more _ element rest, h => by
    obtain ⟨helement, hrest⟩ := List.forall_mem_append.1 h
    simp only [arrayAggregate, expression_same element helement, arrayAggregate_same rest hrest,
      pure_bind]

theorem recordAggregate_same : (fields : RecordAggregate) →
    (∀ e ∈ fields.expressions, ¬ e.Foldable) → recordAggregate fields = pure fields
  | .one _ _ value, h => by
    simp only [recordAggregate, expression_same value h, pure_bind]
  | .more _ _ value rest, h => by
    obtain ⟨hvalue, hrest⟩ := List.forall_mem_append.1 h
    simp only [recordAggregate, expression_same value hvalue, recordAggregate_same rest hrest,
      pure_bind]

theorem vname_same : (v : Vname) →
    (∀ e ∈ v.expressions, ¬ e.Foldable) → vname v = pure v
  | .simple .., _ => rfl
  | .dot _ _ _ record _, h => by
    simp only [vname, vname_same record h, pure_bind]
  | .subscript _ _ _ array index, h => by
    obtain ⟨harray, hindex⟩ := List.forall_mem_append.1 h
    simp only [vname, vname_same array harray, expression_same index hindex, pure_bind]

theorem declaration_same : (d : Declaration) →
    (∀ e ∈ d.expressions, ¬ e.Foldable) → declaration d = pure d
  | .const _ _ _ value, h => by
    simp only [declaration, expression_same value h, pure_bind]
  | .var .., _ => rfl
  | .type .., _ => rfl
  | .proc _ _ _ _ body, h => by
    simp only [declaration, command_same body h, pure_bind]
  | .func _ _ _ _ _ body, h => by
    simp only [declaration, expression_same body h, pure_bind]
  | .sequence _ first second, h => by
    obtain ⟨hfirst, hsecond⟩ := List.forall_mem_append.1 h
    simp only [declaration, declaration_same first hfirst, declaration_same second hsecond,
      pure_bind]

theorem actuals_same : (args : Actuals) →
    (∀ e ∈ args.expressions, ¬ e.Foldable) → actuals args = pure args
  | .empty _, _ => rfl
  | .one _ first, h => by
    simp only [actuals, actual_same first h, pure_bind]
  | .more _ first rest, h => by
    obtain ⟨hfirst, hrest⟩ := List.forall_mem_append.1 h
    simp only [actuals, actual_same first hfirst, actuals_same rest hrest, pure_bind]

theorem actual_same : (arg : Actual) →
    (∀ e ∈ arg.expressions, ¬ e.Foldable) → actual arg = pure arg
  | .const _ value, h => by
    simp only [actual, expression_same value h, pure_bind]
  | .var _ found, h => by
    simp only [actual, vname_same found h, pure_bind]
  | .proc .., _ => rfl
  | .func .., _ => rfl

end

end Fold

/-! ## Programs -/

/-- Folding a program leaves no operation in it, at any depth, that may be folded. To fold again
    does nothing. The statistics are the same, but that there are two expressions less for each
    fold. -/
theorem Program.fold_normalizes (program : Program) (journal : Journal) :
    let folded := program.fold journal
    (∀ expression ∈ folded.program.command.expressions, ¬ expression.Foldable) ∧
    (∀ journal', (folded.program.fold journal').folds = 0 ∧
      (folded.program.fold journal').program = folded.program) ∧
    program.statistics = { folded.program.statistics with
      expressions := folded.program.statistics.expressions + 2 * folded.folds } := by
  intro folded
  have hsettled : Fold.Settled program.statistics folded.program.statistics
      folded.program.command.expressions 0 folded.folds :=
    Fold.command_settles program.command 0
  refine ⟨hsettled.normal, fun journal' => ?_, ?_⟩
  · have hsame := Fold.command_same _ hsettled.normal
    unfold fold
    rw [hsame]
    exact ⟨rfl, rfl⟩
  · obtain ⟨-, hcommands, hexpressions, hdeclarations, hvnames, hparameters, htypes⟩ :=
      hsettled
    rw [Nat.mul_zero, Nat.add_zero] at hexpressions
    dsimp only
    rw [← hcommands, ← hexpressions, ← hdeclarations, ← hvnames, ← hparameters, ← htypes]

end TriangleTam
