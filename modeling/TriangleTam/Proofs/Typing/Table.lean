import TriangleTam.Proofs.Typing.Rules

/-! # The table of bindings

  Each declaration and each formal parameter of a decorated tree has a binding
  in the table of all bindings. The table of a tree lists them in the order in
  which checking creates them: a value is checked before its constant is
  declared, and a routine is declared before its parameters and its body.
-/

namespace TriangleTam

/-! ## Shapes of decorated parameters -/

mutual

/-- What a decorated parameter accepts. -/
def Formal.shape : Formal → FormalShape
  | .const _ _ _ type => .const type
  | .var _ _ _ type => .var type
  | .proc _ _ _ inner => .proc inner.shapes
  | .func _ _ _ inner result => .func inner.shapes result

def Formals.shapes : Formals → List FormalShape
  | .empty _ => []
  | .one _ first => [first.shape]
  | .more _ first rest => first.shape :: rest.shapes

end

/-- What the name of a parameter of a shape stands for. -/
def FormalShape.kind : FormalShape → BindingKind
  | .const type => .const type
  | .var type => .var type
  | .proc shapes => .proc shapes
  | .func shapes result => .func shapes result

mutual

theorem Formal.Typed.shape_eq {Γ Γ' : Env} {s s' : Supply} {formal formal' : Formal}
    {shape : FormalShape} :
    Formal.Typed Γ s formal formal' shape Γ' s' → formal'.shape = shape
  | .const .. | .var .. => rfl
  | .proc hinner _ => congrArg FormalShape.proc hinner.shapes_eq
  | .func _ hinner _ => congrArg (FormalShape.func · _) hinner.shapes_eq

theorem Formals.Typed.shapes_eq {Γ Γ' : Env} {s s' : Supply} {formals formals' : Formals}
    {shapes : Signature} :
    Formals.Typed Γ s formals formals' shapes Γ' s' → formals'.shapes = shapes
  | .empty => rfl
  | .one hfirst => congrArg (fun shape => [shape]) hfirst.shape_eq
  | .more hfirst hrest => by rw [Formals.shapes, hfirst.shape_eq, hrest.shapes_eq]

end

/-! ## Bindings of trees -/

mutual

/-- The bindings of a parameter, those of its own parameters first. -/
def Formal.bindings : Formal → List Binding
  | .const _ _ name type => [⟨name.spelling, .const type⟩]
  | .var _ _ name type => [⟨name.spelling, .var type⟩]
  | .proc _ _ name inner => inner.bindings ++ [⟨name.spelling, .proc inner.shapes⟩]
  | .func _ _ name inner result =>
    inner.bindings ++ [⟨name.spelling, .func inner.shapes result⟩]

def Formals.bindings : Formals → List Binding
  | .empty _ => []
  | .one _ first => first.bindings
  | .more _ first rest => first.bindings ++ rest.bindings

end

mutual

/-- The bindings of all that is declared in the decorated command, in order. -/
def Command.bindings : Command → List Binding
  | .empty _ => []
  | .assign _ target value => target.bindings ++ value.bindings
  | .call _ _ args => args.bindings
  | .sequence _ first second => first.bindings ++ second.bindings
  | .letIn _ declared body => declared.bindings ++ body.bindings
  | .ifElse _ condition thenBranch elseBranch =>
    condition.bindings ++ (thenBranch.bindings ++ elseBranch.bindings)
  | .whileDo _ condition body => condition.bindings ++ body.bindings
  | .repeatUntil _ body condition => body.bindings ++ condition.bindings
  | .loopWhile _ body condition tail =>
    body.bindings ++ (condition.bindings ++ tail.bindings)

def Expression.bindings : Expression → List Binding
  | .integer .. | .character .. => []
  | .vname _ _ found => found.bindings
  | .call _ _ _ args => args.bindings
  | .ifElse _ _ condition thenBranch elseBranch =>
    condition.bindings ++ (thenBranch.bindings ++ elseBranch.bindings)
  | .letIn _ _ declared body => declared.bindings ++ body.bindings
  | .unary _ _ _ operand => operand.bindings
  | .binary _ _ left _ right => left.bindings ++ right.bindings
  | .array _ _ elements => elements.bindings
  | .record _ _ fields => fields.bindings

def ArrayAggregate.bindings : ArrayAggregate → List Binding
  | .one _ element => element.bindings
  | .more _ element rest => element.bindings ++ rest.bindings

def RecordAggregate.bindings : RecordAggregate → List Binding
  | .one _ _ value => value.bindings
  | .more _ _ value rest => value.bindings ++ rest.bindings

def Vname.bindings : Vname → List Binding
  | .simple .. => []
  | .dot _ _ _ record _ => record.bindings
  | .subscript _ _ _ array index => array.bindings ++ index.bindings

/-- A constant is of the type that its value is decorated with. -/
def Declaration.bindings : Declaration → List Binding
  | .const _ _ name value =>
    value.bindings ++ [⟨name.spelling, .const (value.type.getD .error)⟩]
  | .var _ _ name type => [⟨name.spelling, .var type⟩]
  | .proc _ _ name parameters body =>
    ⟨name.spelling, .proc parameters.shapes⟩ :: (parameters.bindings ++ body.bindings)
  | .func _ _ name parameters result body =>
    ⟨name.spelling, .func parameters.shapes result⟩ :: (parameters.bindings ++ body.bindings)
  | .type _ _ name type => [⟨name.spelling, .type type⟩]
  | .sequence _ first second => first.bindings ++ second.bindings

def Actuals.bindings : Actuals → List Binding
  | .empty _ => []
  | .one _ first => first.bindings
  | .more _ first rest => first.bindings ++ rest.bindings

def Actual.bindings : Actual → List Binding
  | .const _ value => value.bindings
  | .var _ found => found.bindings
  | .proc .. | .func .. => []

end

/-- Nothing is declared in a literal. -/
theorem Expression.bindings_of_integerValue? {expression : Expression} {value : Int}
    (h : expression.integerValue? = some value) : expression.bindings = [] := by
  cases expression with
  | integer => rfl
  | _ => cases h

end TriangleTam
