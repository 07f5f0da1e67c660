import TriangleTam.Proofs.Recast.Tree
import TriangleTam.Proofs.Typing.Steps
import TriangleTam.Proofs.Typing.Table

/-! # Recasting what names stand for

  Signatures, bindings and environments are recast like trees: by their names
  and by the types that they are about. A name in another spelling stands for
  the same binding in the recast environment, with its kind recast.
-/

namespace TriangleTam

/-! ## Signatures -/

mutual

def FormalShape.recast (f : Recast) : FormalShape → FormalShape
  | .const type => .const (type.recast f)
  | .var type => .var (type.recast f)
  | .proc formals => .proc (Signature.recast f formals)
  | .func formals result => .func (Signature.recast f formals) (result.recast f)

def Signature.recast (f : Recast) : List FormalShape → List FormalShape
  | [] => []
  | shape :: others => shape.recast f :: Signature.recast f others

end

section signatures

variable (f : Recast)

mutual

@[simp] theorem FormalShape.equivalent_recast : ∀ a b : FormalShape,
    (a.recast f).equivalent (b.recast f) = a.equivalent b
  | .const _, b | .var _, b => by
    cases b <;> simp [FormalShape.recast, FormalShape.equivalent]
  | .proc formals, b => by
    cases b with
    | proc formals' =>
      simp only [FormalShape.recast, FormalShape.equivalent,
        Signature.equivalent_recast formals formals']
    | _ => rfl
  | .func formals result, b => by
    cases b with
    | func formals' result' =>
      simp only [FormalShape.recast, FormalShape.equivalent,
        Signature.equivalent_recast formals formals', TypeDenoter.equivalent_recast]
    | _ => rfl

@[simp] theorem Signature.equivalent_recast : ∀ a b : List FormalShape,
    Signature.equivalent (Signature.recast f a) (Signature.recast f b) = Signature.equivalent a b
  | [], b => by cases b <;> rfl
  | shape :: others, b => by
    cases b with
    | nil => rfl
    | cons shape' others' =>
      simp only [Signature.recast, Signature.equivalent,
        FormalShape.equivalent_recast shape shape', Signature.equivalent_recast others others']

end

end signatures

/-! ## Bindings -/

def BindingKind.recast (f : Recast) : BindingKind → BindingKind
  | .const denoter => .const (denoter.recast f)
  | .var denoter => .var (denoter.recast f)
  | .proc formals => .proc (Signature.recast f formals)
  | .func formals result => .func (Signature.recast f formals) (result.recast f)
  | .type denoter => .type (denoter.recast f)
  | .unary operand result => .unary (operand.recast f) (result.recast f)
  | .binary left right result => .binary (left.recast f) (right.recast f) (result.recast f)

def Binding.recast (f : Recast) (binding : Binding) : Binding :=
  ⟨f.spelling binding.spelling, binding.kind.recast f⟩

/-! ## Tables -/

section tables

variable (f : Recast)

mutual

@[simp] theorem Formal.shape_recast : ∀ formal : Formal,
    (formal.recast f).shape = formal.shape.recast f
  | .const .. | .var .. => rfl
  | .proc _ _ _ inner | .func _ _ _ inner _ => by
    simp only [Formal.recast, Formal.shape, FormalShape.recast, Formals.shapes_recast inner]

@[simp] theorem Formals.shapes_recast : ∀ formals : Formals,
    (formals.recast f).shapes = Signature.recast f formals.shapes
  | .empty _ => rfl
  | .one _ first => by
    simp only [Formals.recast, Formals.shapes, Signature.recast, Formal.shape_recast first]
  | .more _ first rest => by
    simp only [Formals.recast, Formals.shapes, Signature.recast, Formal.shape_recast first,
      Formals.shapes_recast rest]

end

mutual

theorem Formal.bindings_recast : ∀ formal : Formal,
    (formal.recast f).bindings = formal.bindings.map (Binding.recast f)
  | .const .. | .var .. => rfl
  | .proc _ _ _ inner | .func _ _ _ inner _ => by
    simp [Formal.recast, Formal.bindings, Formals.bindings_recast inner, Binding.recast,
      BindingKind.recast]

theorem Formals.bindings_recast : ∀ formals : Formals,
    (formals.recast f).bindings = formals.bindings.map (Binding.recast f)
  | .empty _ => rfl
  | .one _ first => by
    simp only [Formals.recast, Formals.bindings, Formal.bindings_recast first]
  | .more _ first rest => by
    simp only [Formals.recast, Formals.bindings, Formal.bindings_recast first,
      Formals.bindings_recast rest, List.map_append]

end

mutual

/-- The bindings of a recast command are its bindings, recast. -/
theorem Command.bindings_recast : ∀ command : Command,
    (command.recast f).bindings = command.bindings.map (Binding.recast f)
  | .empty _ => rfl
  | .assign _ target value => by
    simp only [Command.recast, Command.bindings, Vname.bindings_recast target,
      Expression.bindings_recast value, List.map_append]
  | .call _ _ args => by
    simp only [Command.recast, Command.bindings, Actuals.bindings_recast args]
  | .sequence _ first second => by
    simp only [Command.recast, Command.bindings, Command.bindings_recast first,
      Command.bindings_recast second, List.map_append]
  | .letIn _ declared body => by
    simp only [Command.recast, Command.bindings, Declaration.bindings_recast declared,
      Command.bindings_recast body, List.map_append]
  | .ifElse _ condition thenBranch elseBranch => by
    simp only [Command.recast, Command.bindings, Expression.bindings_recast condition,
      Command.bindings_recast thenBranch, Command.bindings_recast elseBranch, List.map_append]
  | .whileDo _ condition body => by
    simp only [Command.recast, Command.bindings, Expression.bindings_recast condition,
      Command.bindings_recast body, List.map_append]
  | .repeatUntil _ body condition => by
    simp only [Command.recast, Command.bindings, Expression.bindings_recast condition,
      Command.bindings_recast body, List.map_append]
  | .loopWhile _ body condition tail => by
    simp only [Command.recast, Command.bindings, Expression.bindings_recast condition,
      Command.bindings_recast body, Command.bindings_recast tail, List.map_append]

theorem Expression.bindings_recast : ∀ expression : Expression,
    (expression.recast f).bindings = expression.bindings.map (Binding.recast f)
  | .integer .. | .character .. => rfl
  | .vname _ _ found => by
    simp only [Expression.recast, Expression.bindings, Vname.bindings_recast found]
  | .call _ _ _ args => by
    simp only [Expression.recast, Expression.bindings, Actuals.bindings_recast args]
  | .ifElse _ _ condition thenBranch elseBranch => by
    simp only [Expression.recast, Expression.bindings, Expression.bindings_recast condition,
      Expression.bindings_recast thenBranch, Expression.bindings_recast elseBranch,
      List.map_append]
  | .letIn _ _ declared body => by
    simp only [Expression.recast, Expression.bindings, Declaration.bindings_recast declared,
      Expression.bindings_recast body, List.map_append]
  | .unary _ _ _ operand => by
    simp only [Expression.recast, Expression.bindings, Expression.bindings_recast operand]
  | .binary _ _ left _ right => by
    simp only [Expression.recast, Expression.bindings, Expression.bindings_recast left,
      Expression.bindings_recast right, List.map_append]
  | .array _ _ elements => by
    simp only [Expression.recast, Expression.bindings, ArrayAggregate.bindings_recast elements]
  | .record _ _ fields => by
    simp only [Expression.recast, Expression.bindings, RecordAggregate.bindings_recast fields]

theorem ArrayAggregate.bindings_recast : ∀ elements : ArrayAggregate,
    (elements.recast f).bindings = elements.bindings.map (Binding.recast f)
  | .one _ element => by
    simp only [ArrayAggregate.recast, ArrayAggregate.bindings,
      Expression.bindings_recast element]
  | .more _ element rest => by
    simp only [ArrayAggregate.recast, ArrayAggregate.bindings,
      Expression.bindings_recast element, ArrayAggregate.bindings_recast rest, List.map_append]

theorem RecordAggregate.bindings_recast : ∀ fields : RecordAggregate,
    (fields.recast f).bindings = fields.bindings.map (Binding.recast f)
  | .one _ _ value => by
    simp only [RecordAggregate.recast, RecordAggregate.bindings,
      Expression.bindings_recast value]
  | .more _ _ value rest => by
    simp only [RecordAggregate.recast, RecordAggregate.bindings,
      Expression.bindings_recast value, RecordAggregate.bindings_recast rest, List.map_append]

theorem Vname.bindings_recast : ∀ vname : Vname,
    (vname.recast f).bindings = vname.bindings.map (Binding.recast f)
  | .simple .. => rfl
  | .dot _ _ _ record _ => by
    simp only [Vname.recast, Vname.bindings, Vname.bindings_recast record]
  | .subscript _ _ _ array index => by
    simp only [Vname.recast, Vname.bindings, Vname.bindings_recast array,
      Expression.bindings_recast index, List.map_append]

theorem Declaration.bindings_recast : ∀ declaration : Declaration,
    (declaration.recast f).bindings = declaration.bindings.map (Binding.recast f)
  | .const _ _ name value => by
    have htype : (value.type.map (·.recast f)).getD .error =
        (value.type.getD .error).recast f := by
      cases value.type <;> rfl
    simp only [Declaration.recast, Declaration.bindings, Expression.bindings_recast value,
      Expression.type_recast, htype, List.map_append]
    rfl
  | .var .. | .type .. => rfl
  | .proc _ _ name parameters body => by
    simp only [Declaration.recast, Declaration.bindings, Formals.shapes_recast,
      Formals.bindings_recast, Command.bindings_recast body, List.map_cons, List.map_append]
    rfl
  | .func _ _ name parameters result body => by
    simp only [Declaration.recast, Declaration.bindings, Formals.shapes_recast,
      Formals.bindings_recast, Expression.bindings_recast body, List.map_cons, List.map_append]
    rfl
  | .sequence _ first second => by
    simp only [Declaration.recast, Declaration.bindings, Declaration.bindings_recast first,
      Declaration.bindings_recast second, List.map_append]

theorem Actuals.bindings_recast : ∀ actuals : Actuals,
    (actuals.recast f).bindings = actuals.bindings.map (Binding.recast f)
  | .empty _ => rfl
  | .one _ first => by
    simp only [Actuals.recast, Actuals.bindings, Actual.bindings_recast first]
  | .more _ first rest => by
    simp only [Actuals.recast, Actuals.bindings, Actual.bindings_recast first,
      Actuals.bindings_recast rest, List.map_append]

theorem Actual.bindings_recast : ∀ actual : Actual,
    (actual.recast f).bindings = actual.bindings.map (Binding.recast f)
  | .const _ value => by
    simp only [Actual.recast, Actual.bindings, Expression.bindings_recast value]
  | .var _ found => by
    simp only [Actual.recast, Actual.bindings, Vname.bindings_recast found]
  | .proc .. | .func .. => rfl

end

end tables

/-! ## Environments -/

namespace Env

def Entry.recast (f : Recast) (entry : Entry) : Entry :=
  (f.spelling entry.1, entry.2.1, entry.2.2.recast f)

def recast (f : Recast) (Γ : Env) : Env :=
  ⟨Γ.innermost.map (Entry.recast f), Γ.outer.map (List.map (Entry.recast f))⟩

variable (f : Recast) (Γ : Env)

@[simp] theorem enter_recast (name : String) (id : BindingId) (kind : BindingKind) :
    (Γ.enter name id kind).recast f = (Γ.recast f).enter (f.spelling name) id (kind.recast f) :=
  rfl

@[simp] theorem enclose_recast : Γ.enclose.recast f = (Γ.recast f).enclose := rfl

@[simp] theorem rebind_recast (id : BindingId) (kind : BindingKind) :
    (Γ.rebind id kind).recast f = (Γ.recast f).rebind id (kind.recast f) := by
  have hentry (entry : Entry) :
      Entry.recast f (entry.1, entry.2.1, if entry.2.1 = id then kind else entry.2.2) =
        let other := Entry.recast f entry
        (other.1, other.2.1, if other.2.1 = id then kind.recast f else other.2.2) := by
    by_cases hid : entry.2.1 = id <;> simp [Entry.recast, hid]
  simp [recast, rebind, Function.comp_def, hentry]

theorem lookup_recast (scope : List Entry) (name : String) :
    (scope.map (Entry.recast f)).lookup (f.spelling name) =
      (scope.lookup name).map fun found => (found.1, found.2.recast f) := by
  induction scope with
  | nil => rfl
  | cons entry others ih =>
    obtain ⟨name', id, kind⟩ := entry
    simp only [List.map_cons, Entry.recast, List.lookup_cons, f.spelling_beq]
    cases name == name' with
    | true => rfl
    | false => exact ih

/-- A name in its other spelling stands for the same binding. -/
theorem find?_recast (name : String) :
    (Γ.recast f).find? (f.spelling name) =
      (Γ.find? name).map fun found => (found.1, found.2.recast f) := by
  have hscopes (scopes : List (List Entry)) :
      (scopes.map (List.map (Entry.recast f))).findSome?
        (fun scope => scope.lookup (f.spelling name)) =
      (scopes.findSome? fun scope => scope.lookup name).map
        fun found => (found.1, found.2.recast f) := by
    induction scopes with
    | nil => rfl
    | cons scope others ih =>
      simp only [List.map_cons, List.findSome?_cons, lookup_recast]
      cases scope.lookup name with
      | none => exact ih
      | some found => rfl
  exact hscopes (Γ.innermost :: Γ.outer)

theorem declares_recast (name : String) :
    (Γ.recast f).Declares (f.spelling name) ↔ Γ.Declares name := by
  constructor
  · intro h
    obtain ⟨entry, hmem, hname⟩ := h
    obtain ⟨other, hother, rfl⟩ := List.mem_map.1 hmem
    exact ⟨other, hother, f.spelling_eq_iff.1 hname⟩
  · intro h
    obtain ⟨entry, hmem, hname⟩ := h
    exact ⟨Entry.recast f entry, List.mem_map_of_mem hmem, congrArg f.spelling hname⟩

end Env

end TriangleTam
