import TriangleTam.Proofs.Scoping.Binders

/-! # Occurrences of names

  The names of a phrase, each with the level of the routine that it stands in:
  how deep routines are nested around it. A parameter belongs to the level of
  its routine, and so does everything in the body.
-/

namespace TriangleTam

/-- A name that is used, or one that is introduced, at a level. -/
inductive Occurrence
  | use (level : Nat) (name : Name)
  | binder (level : Nat) (name : Name)

/-- The name, if it is introduced. -/
def Occurrence.binder? : Occurrence → Option Name
  | .use .. => none
  | .binder _ name => some name

mutual

def Formal.occurrences (level : Nat) : Formal → List Occurrence
  | .const _ _ name _ | .var _ _ name _ => [.binder level name]
  | .proc _ _ name inner | .func _ _ name inner _ =>
    inner.occurrences level ++ [.binder level name]

def Formals.occurrences (level : Nat) : Formals → List Occurrence
  | .empty _ => []
  | .one _ first => first.occurrences level
  | .more _ first rest => first.occurrences level ++ rest.occurrences level

end

mutual

/-- The names in the command, which stands in a routine of the level. -/
def Command.occurrences (level : Nat) : Command → List Occurrence
  | .empty _ => []
  | .assign _ target value => target.occurrences level ++ value.occurrences level
  | .call _ callee args => .use level callee :: args.occurrences level
  | .sequence _ first second => first.occurrences level ++ second.occurrences level
  | .letIn _ declared body => declared.occurrences level ++ body.occurrences level
  | .ifElse _ condition thenBranch elseBranch =>
    condition.occurrences level ++
      (thenBranch.occurrences level ++ elseBranch.occurrences level)
  | .whileDo _ condition body => condition.occurrences level ++ body.occurrences level
  | .repeatUntil _ body condition => body.occurrences level ++ condition.occurrences level
  | .loopWhile _ body condition tail =>
    body.occurrences level ++ (condition.occurrences level ++ tail.occurrences level)

def Expression.occurrences (level : Nat) : Expression → List Occurrence
  | .integer .. | .character .. => []
  | .vname _ _ found => found.occurrences level
  | .call _ _ callee args => .use level callee :: args.occurrences level
  | .ifElse _ _ condition thenBranch elseBranch =>
    condition.occurrences level ++
      (thenBranch.occurrences level ++ elseBranch.occurrences level)
  | .letIn _ _ declared body => declared.occurrences level ++ body.occurrences level
  | .unary _ _ operator operand => .use level operator :: operand.occurrences level
  | .binary _ _ left operator right =>
    .use level operator :: (left.occurrences level ++ right.occurrences level)
  | .array _ _ elements => elements.occurrences level
  | .record _ _ fields => fields.occurrences level

def ArrayAggregate.occurrences (level : Nat) : ArrayAggregate → List Occurrence
  | .one _ element => element.occurrences level
  | .more _ element rest => element.occurrences level ++ rest.occurrences level

def RecordAggregate.occurrences (level : Nat) : RecordAggregate → List Occurrence
  | .one _ _ value => value.occurrences level
  | .more _ _ value rest => value.occurrences level ++ rest.occurrences level

def Vname.occurrences (level : Nat) : Vname → List Occurrence
  | .simple _ _ _ name => [.use level name]
  | .dot _ _ _ record _ => record.occurrences level
  | .subscript _ _ _ array index => array.occurrences level ++ index.occurrences level

def Declaration.occurrences (level : Nat) : Declaration → List Occurrence
  | .const _ _ name value => value.occurrences level ++ [.binder level name]
  | .var _ _ name _ | .type _ _ name _ => [.binder level name]
  | .proc _ _ name parameters body =>
    .binder level name :: (parameters.occurrences (level + 1) ++ body.occurrences (level + 1))
  | .func _ _ name parameters _ body =>
    .binder level name :: (parameters.occurrences (level + 1) ++ body.occurrences (level + 1))
  | .sequence _ first second => first.occurrences level ++ second.occurrences level

def Actuals.occurrences (level : Nat) : Actuals → List Occurrence
  | .empty _ => []
  | .one _ first => first.occurrences level
  | .more _ first rest => first.occurrences level ++ rest.occurrences level

def Actual.occurrences (level : Nat) : Actual → List Occurrence
  | .const _ value => value.occurrences level
  | .var _ found => found.occurrences level
  | .proc _ name | .func _ name => [.use level name]

end

end TriangleTam
