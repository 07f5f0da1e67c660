import TriangleTam.Proofs.Coding.Scheme
import TriangleTam.Proofs.Typing.Known

/-! # Routines of a tree

  The routines that a decorated tree declares or takes as parameters, with the
  words they take and leave.
-/

namespace TriangleTam

/-! ## Routines -/

/-- The routine of a name that is linked. -/
def Name.routine (name : Name) (t : Transfer) (declared : Bool) : List Routine :=
  name.binding.toList.map fun id => ⟨id, t, declared⟩

@[simp] theorem Name.routine_link (name : Name) (id : BindingId) (t : Transfer)
    (declared : Bool) : (name.link id).routine t declared = [⟨id, t, declared⟩] := rfl

/-- The routine that a parameter stands for. -/
def Formal.routines : Formal → List Routine
  | .const .. | .var .. => []
  | .proc _ _ name inner => name.routine ⟨inner.words, 0⟩ false
  | .func _ _ name inner result => name.routine ⟨inner.words, result.size⟩ false

def Formals.routines : Formals → List Routine
  | .empty _ => []
  | .one _ first => first.routines
  | .more _ first rest => first.routines ++ rest.routines

mutual

/-- The routines in the command. -/
def Command.routines : Command → List Routine
  | .empty _ => []
  | .assign _ target value => target.routines ++ value.routines
  | .call _ _ args => args.routines
  | .sequence _ first second => first.routines ++ second.routines
  | .letIn _ declared body => declared.routines ++ body.routines
  | .ifElse _ condition thenBranch elseBranch =>
    condition.routines ++ (thenBranch.routines ++ elseBranch.routines)
  | .whileDo _ condition body => condition.routines ++ body.routines
  | .repeatUntil _ body condition => body.routines ++ condition.routines
  | .loopWhile _ body condition tail =>
    body.routines ++ (condition.routines ++ tail.routines)

def Expression.routines : Expression → List Routine
  | .integer .. | .character .. => []
  | .vname _ _ found => found.routines
  | .call _ _ _ args => args.routines
  | .ifElse _ _ condition thenBranch elseBranch =>
    condition.routines ++ (thenBranch.routines ++ elseBranch.routines)
  | .letIn _ _ declared body => declared.routines ++ body.routines
  | .unary _ _ _ operand => operand.routines
  | .binary _ _ left _ right => left.routines ++ right.routines
  | .array _ _ elements => elements.routines
  | .record _ _ fields => fields.routines

def ArrayAggregate.routines : ArrayAggregate → List Routine
  | .one _ element => element.routines
  | .more _ element rest => element.routines ++ rest.routines

def RecordAggregate.routines : RecordAggregate → List Routine
  | .one _ _ value => value.routines
  | .more _ _ value rest => value.routines ++ rest.routines

def Vname.routines : Vname → List Routine
  | .simple .. => []
  | .dot _ _ _ record _ => record.routines
  | .subscript _ _ _ array index => array.routines ++ index.routines

def Declaration.routines : Declaration → List Routine
  | .const _ _ _ value => value.routines
  | .var .. | .type .. => []
  | .proc _ _ name parameters body =>
    name.routine ⟨parameters.words, 0⟩ true ++ (parameters.routines ++ body.routines)
  | .func _ _ name parameters result body =>
    name.routine ⟨parameters.words, result.size⟩ true ++ (parameters.routines ++ body.routines)
  | .sequence _ first second => first.routines ++ second.routines

def Actuals.routines : Actuals → List Routine
  | .empty _ => []
  | .one _ first => first.routines
  | .more _ first rest => first.routines ++ rest.routines

def Actual.routines : Actual → List Routine
  | .const _ value => value.routines
  | .var _ found => found.routines
  | .proc .. | .func .. => []

end

/-! ## Words of parameters -/

mutual

/-- A parameter takes the words that its shape says. -/
theorem Formal.Typed.words_eq {Γ Γ' : Env} {s s' : Supply} {formal formal' : Formal}
    {shape : FormalShape} : Formal.Typed Γ s formal formal' shape Γ' s' →
    formal'.words = shape.words
  | .const .. | .var .. | .proc .. | .func .. => rfl

theorem Formals.Typed.words_eq {Γ Γ' : Env} {s s' : Supply} {formals formals' : Formals}
    {shapes : Signature} : Formals.Typed Γ s formals formals' shapes Γ' s' →
    formals'.words = Signature.words shapes
  | .empty => rfl
  | .one hfirst => by
    rw [Formals.words, hfirst.words_eq]
    exact (Int.add_zero _).symm
  | .more hfirst hrest => by
    rw [Formals.words, hfirst.words_eq, hrest.words_eq]
    rfl

end

end TriangleTam
