import TriangleTam.Proofs.Typing.Known

/-! # Control structure

  The conditionals, loops and routines of a phrase, in the order of their
  code. Everything else of a phrase is straight-line code. A routine that is
  nested too deeply has no code for its body.
-/

namespace TriangleTam

/-- Control constructs in order, each with the control structure of its parts. -/
inductive Control
  | nil
  | branch (condition thenBranch elseBranch rest : Control)
  | whileDo (condition body rest : Control)
  | repeatUntil (body condition rest : Control)
  | loopWhile (body condition tail rest : Control)
  | routine (name : Name) (body rest : Control)

namespace Control

def append : Control → Control → Control
  | nil, c => c
  | branch condition thenBranch elseBranch rest, c =>
    branch condition thenBranch elseBranch (rest.append c)
  | whileDo condition body rest, c => whileDo condition body (rest.append c)
  | repeatUntil body condition rest, c => repeatUntil body condition (rest.append c)
  | loopWhile body condition tail rest, c => loopWhile body condition tail (rest.append c)
  | routine name body rest, c => routine name body (rest.append c)

instance : Append Control := ⟨append⟩

theorem append_nil (c : Control) : c ++ nil = c := by
  have h : c.append nil = c := by
    induction c with
    | nil => rfl
    | branch _ _ _ _ _ _ _ ih | loopWhile _ _ _ _ _ _ _ ih | whileDo _ _ _ _ _ ih
    | repeatUntil _ _ _ _ _ ih | routine _ _ _ _ ih => rw [append, ih]
  exact h

/-- The routines, in the order of their entry points. -/
def routines : Control → List Name
  | nil => []
  | branch condition thenBranch elseBranch rest =>
    condition.routines ++ thenBranch.routines ++ elseBranch.routines ++ rest.routines
  | whileDo condition body rest => body.routines ++ condition.routines ++ rest.routines
  | repeatUntil body condition rest => body.routines ++ condition.routines ++ rest.routines
  | loopWhile body condition tail rest =>
    body.routines ++ condition.routines ++ tail.routines ++ rest.routines
  | routine name body rest => name :: body.routines ++ rest.routines

theorem routines_append (c c' : Control) : (c ++ c').routines = c.routines ++ c'.routines := by
  have h : (c.append c').routines = c.routines ++ c'.routines := by
    induction c with
    | nil => rfl
    | branch _ _ _ _ _ _ _ ih | loopWhile _ _ _ _ _ _ _ ih | whileDo _ _ _ _ _ ih
    | repeatUntil _ _ _ _ _ ih | routine _ _ _ _ ih =>
      simp only [append, routines, ih, List.append_assoc, List.cons_append]
  exact h

end Control

/-- The control structure of a routine that is declared at a level. -/
def Control.ofRoutine (name : Name) (level : Nat) (body : Control) : Control :=
  .routine name (if level < Machine.maxRoutineLevel then body else .nil) .nil

mutual

/-- The control structure of the command, which stands in a routine of the level. -/
def Command.control (level : Nat) : Command → Control
  | .empty _ => .nil
  | .assign _ target value => value.control level ++ target.control level
  | .call _ _ args => args.control level
  | .sequence _ first second => first.control level ++ second.control level
  | .letIn _ declared body => declared.control level ++ body.control level
  | .ifElse _ condition thenBranch elseBranch =>
    .branch (condition.control level) (thenBranch.control level) (elseBranch.control level) .nil
  | .whileDo _ condition body => .whileDo (condition.control level) (body.control level) .nil
  | .repeatUntil _ body condition =>
    .repeatUntil (body.control level) (condition.control level) .nil
  | .loopWhile _ body condition tail =>
    .loopWhile (body.control level) (condition.control level) (tail.control level) .nil

def Expression.control (level : Nat) : Expression → Control
  | .integer .. | .character .. => .nil
  | .vname _ _ found => found.control level
  | .call _ _ _ args => args.control level
  | .ifElse _ _ condition thenBranch elseBranch =>
    .branch (condition.control level) (thenBranch.control level) (elseBranch.control level) .nil
  | .letIn _ _ declared body => declared.control level ++ body.control level
  | .unary _ _ _ operand => operand.control level
  | .binary _ _ left _ right => left.control level ++ right.control level
  | .array _ _ elements => elements.control level
  | .record _ _ fields => fields.control level

def ArrayAggregate.control (level : Nat) : ArrayAggregate → Control
  | .one _ element => element.control level
  | .more _ element rest => element.control level ++ rest.control level

def RecordAggregate.control (level : Nat) : RecordAggregate → Control
  | .one _ _ value => value.control level
  | .more _ _ value rest => value.control level ++ rest.control level

def Vname.control (level : Nat) : Vname → Control
  | .simple .. => .nil
  | .dot _ _ _ record _ => record.control level
  | .subscript _ _ _ array index => array.control level ++ index.control level

def Declaration.control (level : Nat) : Declaration → Control
  | .const _ _ _ value => value.control level
  | .var .. | .type .. => .nil
  | .proc _ _ name _ body => .ofRoutine name level (body.control (level + 1))
  | .func _ _ name _ _ body => .ofRoutine name level (body.control (level + 1))
  | .sequence _ first second => first.control level ++ second.control level

def Actuals.control (level : Nat) : Actuals → Control
  | .empty _ => .nil
  | .one _ first => first.control level
  | .more _ first rest => first.control level ++ rest.control level

def Actual.control (level : Nat) : Actual → Control
  | .const _ value => value.control level
  | .var _ found => found.control level
  | .proc .. | .func .. => .nil

end

/-- Literals have no control structure. -/
theorem Expression.control_of_literalValue? {expression : Expression} {value : Int}
    (h : expression.literalValue? = some value) (level : Nat) :
    expression.control level = .nil := by
  cases expression with
  | integer | character => rfl
  | _ => cases h

end TriangleTam
