import Mathlib.Data.List.Intervals
import TriangleTam.Proofs.Scoping.Rules

/-! # Binding occurrences

  The names that a phrase introduces, in the order in which checking binds
  them. In a resolved phrase they use up the numbers of the bindings that it
  makes, one after the other, and each has the spelling of its binding. Those
  in arguments that were left unchecked are bound to nothing.
-/

namespace TriangleTam

/-! ## Names that are introduced -/

mutual

def Formal.binders : Formal → List Name
  | .const _ _ name _ | .var _ _ name _ => [name]
  | .proc _ _ name inner | .func _ _ name inner _ => inner.binders ++ [name]

def Formals.binders : Formals → List Name
  | .empty _ => []
  | .one _ first => first.binders
  | .more _ first rest => first.binders ++ rest.binders

end

mutual

/-- The names that are introduced in the command, in the order of their bindings. -/
def Command.binders : Command → List Name
  | .empty _ => []
  | .assign _ target value => target.binders ++ value.binders
  | .call _ _ args => args.binders
  | .sequence _ first second => first.binders ++ second.binders
  | .letIn _ declared body => declared.binders ++ body.binders
  | .ifElse _ condition thenBranch elseBranch =>
    condition.binders ++ (thenBranch.binders ++ elseBranch.binders)
  | .whileDo _ condition body => condition.binders ++ body.binders
  | .repeatUntil _ body condition => body.binders ++ condition.binders
  | .loopWhile _ body condition tail => body.binders ++ (condition.binders ++ tail.binders)

def Expression.binders : Expression → List Name
  | .integer .. | .character .. => []
  | .vname _ _ found => found.binders
  | .call _ _ _ args => args.binders
  | .ifElse _ _ condition thenBranch elseBranch =>
    condition.binders ++ (thenBranch.binders ++ elseBranch.binders)
  | .letIn _ _ declared body => declared.binders ++ body.binders
  | .unary _ _ _ operand => operand.binders
  | .binary _ _ left _ right => left.binders ++ right.binders
  | .array _ _ elements => elements.binders
  | .record _ _ fields => fields.binders

def ArrayAggregate.binders : ArrayAggregate → List Name
  | .one _ element => element.binders
  | .more _ element rest => element.binders ++ rest.binders

def RecordAggregate.binders : RecordAggregate → List Name
  | .one _ _ value => value.binders
  | .more _ _ value rest => value.binders ++ rest.binders

def Vname.binders : Vname → List Name
  | .simple .. => []
  | .dot _ _ _ record _ => record.binders
  | .subscript _ _ _ array index => array.binders ++ index.binders

def Declaration.binders : Declaration → List Name
  | .const _ _ name value => value.binders ++ [name]
  | .var _ _ name _ | .type _ _ name _ => [name]
  | .proc _ _ name parameters body => name :: (parameters.binders ++ body.binders)
  | .func _ _ name parameters _ body => name :: (parameters.binders ++ body.binders)
  | .sequence _ first second => first.binders ++ second.binders

def Actuals.binders : Actuals → List Name
  | .empty _ => []
  | .one _ first => first.binders
  | .more _ first rest => first.binders ++ rest.binders

def Actual.binders : Actual → List Name
  | .const _ value => value.binders
  | .var _ found => found.binders
  | .proc .. | .func .. => []

end

/-! ## Names without links -/

/-- None of the names is linked. -/
def Unlinked (names : List Name) : Prop := ∀ name ∈ names, name.binding = none

namespace Unlinked

variable {names names' : List Name} {name : Name}

theorem nil : Unlinked [] := by
  intro name hmem
  cases hmem

theorem cons (hname : name.binding = none) (h : Unlinked names) : Unlinked (name :: names) :=
  List.forall_mem_cons.2 ⟨hname, h⟩

theorem append (h : Unlinked names) (h' : Unlinked names') : Unlinked (names ++ names') :=
  List.forall_mem_append.2 ⟨h, h'⟩

end Unlinked

mutual

theorem Formal.unlinked_binders : ∀ (parameter : Formal), parameter.Unlinked →
    TriangleTam.Unlinked parameter.binders
  | .const .., h | .var .., h => .cons h .nil
  | .proc _ _ _ inner, ⟨h, hinner⟩ | .func _ _ _ inner _, ⟨h, hinner⟩ =>
    .append (inner.unlinked_binders hinner) (.cons h .nil)

theorem Formals.unlinked_binders : ∀ (parameters : Formals), parameters.Unlinked →
    TriangleTam.Unlinked parameters.binders
  | .empty _, _ => .nil
  | .one _ first, h => first.unlinked_binders h
  | .more _ first rest, ⟨h, h'⟩ => .append (first.unlinked_binders h) (rest.unlinked_binders h')

end

mutual

theorem Command.unlinked_binders : ∀ (command : Command), command.Unlinked →
    TriangleTam.Unlinked command.binders
  | .empty _, _ => .nil
  | .assign _ target value, ⟨h, h'⟩ =>
    .append (target.unlinked_binders h) (value.unlinked_binders h')
  | .call _ _ args, ⟨_, h⟩ => args.unlinked_binders h
  | .sequence _ first second, ⟨h, h'⟩ =>
    .append (first.unlinked_binders h) (second.unlinked_binders h')
  | .letIn _ declared body, ⟨h, h'⟩ =>
    .append (declared.unlinked_binders h) (body.unlinked_binders h')
  | .ifElse _ condition thenBranch elseBranch, ⟨h, h', h''⟩ =>
    .append (condition.unlinked_binders h)
      (.append (thenBranch.unlinked_binders h') (elseBranch.unlinked_binders h''))
  | .whileDo _ condition body, ⟨h, h'⟩ =>
    .append (condition.unlinked_binders h) (body.unlinked_binders h')
  | .repeatUntil _ body condition, ⟨h, h'⟩ =>
    .append (body.unlinked_binders h) (condition.unlinked_binders h')
  | .loopWhile _ body condition tail, ⟨h, h', h''⟩ =>
    .append (body.unlinked_binders h)
      (.append (condition.unlinked_binders h') (tail.unlinked_binders h''))

theorem Expression.unlinked_binders : ∀ (expression : Expression), expression.Unlinked →
    TriangleTam.Unlinked expression.binders
  | .integer .., _ | .character .., _ => .nil
  | .vname _ _ found, h => found.unlinked_binders h
  | .call _ _ _ args, ⟨_, h⟩ => args.unlinked_binders h
  | .ifElse _ _ condition thenBranch elseBranch, ⟨h, h', h''⟩ =>
    .append (condition.unlinked_binders h)
      (.append (thenBranch.unlinked_binders h') (elseBranch.unlinked_binders h''))
  | .letIn _ _ declared body, ⟨h, h'⟩ =>
    .append (declared.unlinked_binders h) (body.unlinked_binders h')
  | .unary _ _ _ operand, ⟨_, h⟩ => operand.unlinked_binders h
  | .binary _ _ left _ right, ⟨h, _, h'⟩ =>
    .append (left.unlinked_binders h) (right.unlinked_binders h')
  | .array _ _ elements, h => elements.unlinked_binders h
  | .record _ _ fields, h => fields.unlinked_binders h

theorem ArrayAggregate.unlinked_binders : ∀ (elements : ArrayAggregate), elements.Unlinked →
    TriangleTam.Unlinked elements.binders
  | .one _ element, h => element.unlinked_binders h
  | .more _ element rest, ⟨h, h'⟩ =>
    .append (element.unlinked_binders h) (rest.unlinked_binders h')

theorem RecordAggregate.unlinked_binders : ∀ (fields : RecordAggregate), fields.Unlinked →
    TriangleTam.Unlinked fields.binders
  | .one _ _ value, h => value.unlinked_binders h
  | .more _ _ value rest, ⟨h, h'⟩ =>
    .append (value.unlinked_binders h) (rest.unlinked_binders h')

theorem Vname.unlinked_binders : ∀ (vname : Vname), vname.Unlinked →
    TriangleTam.Unlinked vname.binders
  | .simple .., _ => .nil
  | .dot _ _ _ record _, h => record.unlinked_binders h
  | .subscript _ _ _ array index, ⟨h, h'⟩ =>
    .append (array.unlinked_binders h) (index.unlinked_binders h')

theorem Declaration.unlinked_binders : ∀ (declaration : Declaration), declaration.Unlinked →
    TriangleTam.Unlinked declaration.binders
  | .const _ _ _ value, ⟨h, h'⟩ => .append (value.unlinked_binders h') (.cons h .nil)
  | .var .., h | .type .., h => .cons h .nil
  | .proc _ _ _ parameters body, ⟨h, h', h''⟩ | .func _ _ _ parameters _ body, ⟨h, h', h''⟩ =>
    .cons h (.append (parameters.unlinked_binders h') (body.unlinked_binders h''))
  | .sequence _ first second, ⟨h, h'⟩ =>
    .append (first.unlinked_binders h) (second.unlinked_binders h')

theorem Actuals.unlinked_binders : ∀ (args : Actuals), args.Unlinked →
    TriangleTam.Unlinked args.binders
  | .empty _, _ => .nil
  | .one _ first, h => first.unlinked_binders h
  | .more _ first rest, ⟨h, h'⟩ => .append (first.unlinked_binders h) (rest.unlinked_binders h')

theorem Actual.unlinked_binders : ∀ (arg : Actual), arg.Unlinked →
    TriangleTam.Unlinked arg.binders
  | .const _ value, h => value.unlinked_binders h
  | .var _ found, h => found.unlinked_binders h
  | .proc .., _ | .func .., _ => .nil

end

/-! ## Names in order -/

/-- The bindings from `n` on, up to `n'`, are each used by one of the names, which has its
    spelling. -/
structure Bindings.Numbers (bindings : Bindings) (n : BindingId) (names : List Name)
    (n' : BindingId) : Prop where
  le      : n ≤ n'
  ids     : names.filterMap (·.binding) = List.Ico n n'
  spelled : ∀ name ∈ names, ∀ id, name.binding = some id →
    ∃ kind, bindings[id]? = some ⟨name.spelling, kind⟩

namespace Bindings.Numbers

variable {bindings : Bindings} {n n' n'' : BindingId} {names names' : List Name}

theorem unlinked (h : Unlinked names) : bindings.Numbers n names n := by
  refine ⟨Nat.le_refl n, ?_, fun name hmem id hid => ?_⟩
  · rw [List.Ico.self_empty, List.filterMap_eq_nil_iff]
    exact h
  · rw [h name hmem] at hid
    cases hid

theorem nil : bindings.Numbers n [] n := unlinked .nil

theorem one {name : Name} {kind : BindingKind}
    (hat : bindings[n]? = some ⟨name.spelling, kind⟩) : bindings.Numbers n [name.link n] (n + 1) := by
  refine ⟨Nat.le_succ n, ?_, fun name' hmem id hid => ?_⟩
  · rw [List.Ico.succ_singleton]
    rfl
  · obtain rfl := List.mem_singleton.1 hmem
    obtain rfl := Option.some.inj hid
    exact ⟨kind, hat⟩

theorem append (h : bindings.Numbers n names n') (h' : bindings.Numbers n' names' n'') :
    bindings.Numbers n (names ++ names') n'' := by
  refine ⟨Nat.le_trans h.le h'.le, ?_, List.forall_mem_append.2 ⟨h.spelled, h'.spelled⟩⟩
  rw [List.filterMap_append, h.ids, h'.ids]
  exact List.Ico.append_consecutive h.le h'.le

end Bindings.Numbers

variable {bindings : Bindings}

mutual

theorem Formal.Scoped.numbers : ∀ {Γ n parameter parameter' Γ' n'},
    Formal.Scoped bindings Γ n parameter parameter' Γ' n' →
      bindings.Numbers n parameter'.binders n'
  | _, _, _, _, _, _, .const _ hat | _, _, _, _, _, _, .var _ hat => .one hat
  | _, _, _, _, _, _, .proc hinner hat | _, _, _, _, _, _, .func _ hinner hat =>
    .append hinner.numbers (.one hat)

theorem Formals.Scoped.numbers : ∀ {Γ n parameters parameters' Γ' n'},
    Formals.Scoped bindings Γ n parameters parameters' Γ' n' →
      bindings.Numbers n parameters'.binders n'
  | _, _, _, _, _, _, .empty => .nil
  | _, _, _, _, _, _, .one hfirst => hfirst.numbers
  | _, _, _, _, _, _, .more hfirst hrest => .append hfirst.numbers hrest.numbers

end

mutual

/-- The names that a resolved command introduces number the bindings that it makes. -/
theorem Command.Scoped.numbers : ∀ {Γ n command command' n'},
    Command.Scoped bindings Γ n command command' n' → bindings.Numbers n command'.binders n'
  | _, _, _, _, _, .empty => .nil
  | _, _, _, _, _, .assign htarget hvalue => .append htarget.numbers hvalue.numbers
  | _, _, _, _, _, .call _ hargs => hargs.numbers
  | _, _, _, _, _, .sequence hfirst hsecond => .append hfirst.numbers hsecond.numbers
  | _, _, _, _, _, .letIn hdeclared hbody => .append hdeclared.numbers hbody.numbers
  | _, _, _, _, _, .ifElse hcondition hthen helse =>
    .append hcondition.numbers (.append hthen.numbers helse.numbers)
  | _, _, _, _, _, .whileDo hcondition hbody => .append hcondition.numbers hbody.numbers
  | _, _, _, _, _, .repeatUntil hbody hcondition => .append hbody.numbers hcondition.numbers
  | _, _, _, _, _, .loopWhile hbody hcondition htail =>
    .append hbody.numbers (.append hcondition.numbers htail.numbers)

theorem Expression.Scoped.numbers : ∀ {Γ n expression expression' n'},
    Expression.Scoped bindings Γ n expression expression' n' →
      bindings.Numbers n expression'.binders n'
  | _, _, _, _, _, .integer | _, _, _, _, _, .character => .nil
  | _, _, _, _, _, .vname hfound => hfound.numbers
  | _, _, _, _, _, .call _ hargs => hargs.numbers
  | _, _, _, _, _, .ifElse hcondition hthen helse =>
    .append hcondition.numbers (.append hthen.numbers helse.numbers)
  | _, _, _, _, _, .letIn hdeclared hbody => .append hdeclared.numbers hbody.numbers
  | _, _, _, _, _, .unary hoperand _ => hoperand.numbers
  | _, _, _, _, _, .binary hleft hright _ => .append hleft.numbers hright.numbers
  | _, _, _, _, _, .array helements => helements.numbers
  | _, _, _, _, _, .record hfields => hfields.numbers

theorem ArrayAggregate.Scoped.numbers : ∀ {Γ n elements elements' n'},
    ArrayAggregate.Scoped bindings Γ n elements elements' n' →
      bindings.Numbers n elements'.binders n'
  | _, _, _, _, _, .one helement => helement.numbers
  | _, _, _, _, _, .more helement hrest => .append helement.numbers hrest.numbers

theorem RecordAggregate.Scoped.numbers : ∀ {Γ n fields fields' n'},
    RecordAggregate.Scoped bindings Γ n fields fields' n' → bindings.Numbers n fields'.binders n'
  | _, _, _, _, _, .one hvalue => hvalue.numbers
  | _, _, _, _, _, .more hvalue hrest => .append hvalue.numbers hrest.numbers

theorem Vname.Scoped.numbers : ∀ {Γ n vname vname' n'},
    Vname.Scoped bindings Γ n vname vname' n' → bindings.Numbers n vname'.binders n'
  | _, _, _, _, _, .simple _ => .nil
  | _, _, _, _, _, .dot hrecord => hrecord.numbers
  | _, _, _, _, _, .subscript harray hindex => .append harray.numbers hindex.numbers

theorem Declaration.Scoped.numbers : ∀ {Γ n declaration declaration' Γ' n'},
    Declaration.Scoped bindings Γ n declaration declaration' Γ' n' →
      bindings.Numbers n declaration'.binders n'
  | _, _, _, _, _, _, .const hvalue hat => .append hvalue.numbers (.one hat)
  | _, _, _, _, _, _, .var _ hat | _, _, _, _, _, _, .type _ hat => .one hat
  | _, _, _, _, _, _, .proc hat hparameters hbody
  | _, _, _, _, _, _, .func _ hat hparameters hbody =>
    .append (.one hat) (.append hparameters.numbers hbody.numbers)
  | _, _, _, _, _, _, .sequence hfirst hsecond => .append hfirst.numbers hsecond.numbers

theorem Actuals.Scoped.numbers : ∀ {Γ n args args' n'},
    Actuals.Scoped bindings Γ n args args' n' → bindings.Numbers n args'.binders n'
  | _, _, _, _, _, .left hunlinked => .unlinked (Actuals.unlinked_binders _ hunlinked)
  | _, _, _, _, _, .one hfirst => hfirst.numbers
  | _, _, _, _, _, .more hfirst hrest => .append hfirst.numbers hrest.numbers

theorem Actual.Scoped.numbers : ∀ {Γ n arg arg' n'},
    Actual.Scoped bindings Γ n arg arg' n' → bindings.Numbers n arg'.binders n'
  | _, _, _, _, _, .const hvalue => hvalue.numbers
  | _, _, _, _, _, .var hfound => hfound.numbers
  | _, _, _, _, _, .proc _ | _, _, _, _, _, .func _ => .nil

end

end TriangleTam
