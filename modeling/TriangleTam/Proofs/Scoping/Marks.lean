import TriangleTam.Proofs.Scoping.Rules

/-! # Marks of names

  Whatever introduces a name carries a **mark**, which checking sets if it
  repeats a name of its scope. The declarations of one `let` make a scope, and
  so do the parameters of one routine, whether it is declared or is itself a
  parameter. What stands further inside belongs to scopes of its own.

  The marks of a scope are **exact** if those are set that repeat a name of the
  same scope. They **prevail** over earlier ones with the same name: after them
  a use of the name goes to the last.
-/

namespace TriangleTam

/-- A name that is introduced, and whether it is marked as a duplicate. -/
structure Mark where
  name       : Name
  duplicated : Bool

/-! ## Scopes of a tree -/

def Formal.duplicated : Formal → Bool
  | .const _ duplicated _ _ | .var _ duplicated _ _ | .proc _ duplicated _ _
  | .func _ duplicated _ _ _ => duplicated

def Formal.mark (parameter : Formal) : Mark := ⟨parameter.name, parameter.duplicated⟩

/-- The scope of the parameters of one routine, in order. -/
def Formals.marks : Formals → List Mark
  | .empty _ => []
  | .one _ first => [first.mark]
  | .more _ first rest => first.mark :: rest.marks

/-- A sequence of declarations introduces no name of its own, and is never marked. -/
def Declaration.duplicated : Declaration → Bool
  | .const _ duplicated _ _ | .var _ duplicated _ _ | .proc _ duplicated _ _ _
  | .func _ duplicated _ _ _ _ | .type _ duplicated _ _ => duplicated
  | .sequence .. => false

/-- What the declarations introduce in the scope that they stand in, in order. -/
def Declaration.marks : Declaration → List Mark
  | .const _ duplicated name _ | .var _ duplicated name _ | .proc _ duplicated name _ _
  | .func _ duplicated name _ _ _ | .type _ duplicated name _ => [⟨name, duplicated⟩]
  | .sequence _ first second => first.marks ++ second.marks

mutual

/-- The scopes of the parameters of a routine that is itself a parameter, and those inside. -/
def Formal.scopes : Formal → List (List Mark)
  | .const .. | .var .. => []
  | .proc _ _ _ inner | .func _ _ _ inner _ => inner.marks :: inner.scopes

def Formals.scopes : Formals → List (List Mark)
  | .empty _ => []
  | .one _ first => first.scopes
  | .more _ first rest => first.scopes ++ rest.scopes

end

/-- How many parameters a call has to have arguments for. -/
def BindingKind.arity : BindingKind → Nat
  | .proc shapes | .func shapes _ => shapes.length
  | .const _ | .var _ | .type _ | .unary .. | .binary .. => 0

/-- The same for a call of what the name is linked to. -/
def Bindings.arity (bindings : Bindings) (callee : Name) : Nat :=
  match callee.binding.bind (bindings[·]?) with
  | some binding => binding.kind.arity
  | none => 0

section Scopes

variable (bindings : Bindings)

mutual

/-- The scopes in the command, but for those in arguments that checking does not come to: the
    arguments of a call that is not linked to a routine, and where their number is not that of its
    parameters, the last of the shorter list and all after it. -/
def Command.scopes : Command → List (List Mark)
  | .empty _ => []
  | .assign _ target value => target.scopes ++ value.scopes
  | .call _ callee args => args.scopes (bindings.arity callee)
  | .sequence _ first second => first.scopes ++ second.scopes
  | .letIn _ declared body => declared.marks :: (declared.scopes ++ body.scopes)
  | .ifElse _ condition thenBranch elseBranch =>
    condition.scopes ++ thenBranch.scopes ++ elseBranch.scopes
  | .whileDo _ condition body => condition.scopes ++ body.scopes
  | .repeatUntil _ body condition => body.scopes ++ condition.scopes
  | .loopWhile _ body condition tail => body.scopes ++ condition.scopes ++ tail.scopes

def Expression.scopes : Expression → List (List Mark)
  | .integer .. | .character .. => []
  | .vname _ _ found => found.scopes
  | .call _ _ callee args => args.scopes (bindings.arity callee)
  | .ifElse _ _ condition thenBranch elseBranch =>
    condition.scopes ++ thenBranch.scopes ++ elseBranch.scopes
  | .letIn _ _ declared body => declared.marks :: (declared.scopes ++ body.scopes)
  | .unary _ _ _ operand => operand.scopes
  | .binary _ _ left _ right => left.scopes ++ right.scopes
  | .array _ _ elements => elements.scopes
  | .record _ _ fields => fields.scopes

def ArrayAggregate.scopes : ArrayAggregate → List (List Mark)
  | .one _ element => element.scopes
  | .more _ element rest => element.scopes ++ rest.scopes

def RecordAggregate.scopes : RecordAggregate → List (List Mark)
  | .one _ _ value => value.scopes
  | .more _ _ value rest => value.scopes ++ rest.scopes

def Vname.scopes : Vname → List (List Mark)
  | .simple .. => []
  | .dot _ _ _ record _ => record.scopes
  | .subscript _ _ _ array index => array.scopes ++ index.scopes

/-- The scopes inside of the declarations. -/
def Declaration.scopes : Declaration → List (List Mark)
  | .const _ _ _ value => value.scopes
  | .var .. | .type .. => []
  | .proc _ _ _ parameters body | .func _ _ _ parameters _ body =>
    parameters.marks :: (parameters.scopes ++ body.scopes)
  | .sequence _ first second => first.scopes ++ second.scopes

/-- The scopes in arguments for so many parameters. -/
def Actuals.scopes : Actuals → Nat → List (List Mark)
  | .one _ first, 1 => first.scopes
  | .more _ first rest, n + 2 => first.scopes ++ rest.scopes (n + 1)
  | .empty _, _ | .one .., _ | .more .., _ => []

def Actual.scopes : Actual → List (List Mark)
  | .const _ value => value.scopes
  | .var _ found => found.scopes
  | .proc .. | .func .. => []

end

end Scopes

theorem Bindings.arity_link {bindings : Bindings} {id : BindingId} {binding : Binding}
    (hat : bindings[id]? = some binding) (callee : Name) :
    bindings.arity (callee.link id) = binding.kind.arity := by
  show (match bindings[id]? with
    | some binding => binding.kind.arity
    | none => 0) = _
  rw [hat]

/-- Nothing is visited in a call of a name that is not linked. -/
theorem Actuals.scopes_unlinked (bindings : Bindings) {callee : Name}
    (hcallee : callee.binding = none) (args : Actuals) :
    args.scopes bindings (bindings.arity callee) = [] := by
  have harity : bindings.arity callee = 0 := by
    rw [Bindings.arity, hcallee]
    rfl
  rw [harity]
  cases args <;> rfl

/-! ## Exact marks -/

namespace Mark

/-- In one scope, those marks are set whose spelling is that of an earlier one. -/
def Exact (marks : List Mark) : Prop :=
  ∀ before mark after, marks = before ++ mark :: after →
    (mark.duplicated = true ↔ ∃ earlier ∈ before, earlier.name.spelling = mark.name.spelling)

/-- The marks are exact in an innermost scope that has names already. -/
def ExactIn (Γ : Scopes) (marks : List Mark) : Prop :=
  ∀ before mark after, marks = before ++ mark :: after →
    (mark.duplicated = true ↔ Γ.declares mark.name.spelling = true ∨
      ∃ earlier ∈ before, earlier.name.spelling = mark.name.spelling)

/-- Entering the names of the marks, with their bindings, leads from the first scopes to the
    second. -/
inductive Entered : Scopes → List Mark → Scopes → Prop
  | nil {Γ} : Entered Γ [] Γ
  | cons {Γ Γ' mark marks id} :
      mark.name.binding = some id →
      Entered (Γ.enter mark.name.spelling id) marks Γ' →
      Entered Γ (mark :: marks) Γ'

/-- After the marks, a use of one of the names goes to the last mark with its spelling, if it may be
    used in that role, and to nothing otherwise. This holds inside of further scopes too, unless
    they have the name. -/
def Prevail (bindings : Bindings) (marks : List Mark) (Γ : Scopes) : Prop :=
  ∀ before mark after, marks = before ++ mark :: after →
    (∀ later ∈ after, later.name.spelling ≠ mark.name.spelling) →
    ∃ id, mark.name.binding = some id ∧
      ∀ (Δ : Scopes) (inner : List Scope),
        Δ.innermost :: Δ.outer = inner ++ Γ.innermost :: Γ.outer →
        (∀ scope ∈ inner, ∀ entry ∈ scope, entry.1 ≠ mark.name.spelling) →
        Δ.Sees mark.name.spelling id ∧
          ∀ roles use use', use.spelling = mark.name.spelling →
            Name.Linked bindings Δ roles use use' →
              use' = use.link id ∨ use' = use.unlinked ∧
                ∀ binding, bindings[id]? = some binding → binding.kind.role ∉ roles

end Mark

theorem Scopes.declares_enter {Γ : Scopes} {name spelling : String} {id : BindingId} :
    (Γ.enter name id).declares spelling = true ↔
      name = spelling ∨ Γ.declares spelling = true := by
  unfold declares enter
  rw [List.lookup_cons]
  by_cases heq : spelling = name
  · subst heq
    simp
  · rw [beq_false_of_ne heq]
    exact (or_iff_right (Ne.symm heq)).symm

namespace Mark

variable {Γ Γ' Γ'' : Scopes} {marks marks' : List Mark} {spelling : String} {id : BindingId}

namespace Entered

theorem one (name : Name) (duplicated : Bool) :
    Entered Γ [⟨name.link id, duplicated⟩] (Γ.enter name.spelling id) :=
  .cons rfl .nil

theorem append (h : Entered Γ marks Γ') (h' : Entered Γ' marks' Γ'') :
    Entered Γ (marks ++ marks') Γ'' := by
  induction h with
  | nil => exact h'
  | cons hbinding _ ih => exact .cons hbinding (ih h')

theorem split (h : Entered Γ (marks ++ marks') Γ'') :
    ∃ Γ', Entered Γ marks Γ' ∧ Entered Γ' marks' Γ'' := by
  induction marks generalizing Γ with
  | nil => exact ⟨Γ, .nil, h⟩
  | cons mark others ih =>
    obtain ⟨_, hbinding, hothers⟩ : ∃ id, mark.name.binding = some id ∧
        Entered (Γ.enter mark.name.spelling id) (others ++ marks') Γ'' := by
      cases h with
      | cons hbinding hothers => exact ⟨_, hbinding, hothers⟩
    obtain ⟨Γ', hfirst, hsecond⟩ := ih hothers
    exact ⟨Γ', .cons hbinding hfirst, hsecond⟩

theorem outer (h : Entered Γ marks Γ') : Γ'.outer = Γ.outer := by
  induction h with
  | nil => rfl
  | cons _ _ ih => exact ih

/-- Afterwards the scope has the names of the marks as well. -/
theorem declares_iff (h : Entered Γ marks Γ') :
    Γ'.declares spelling = true ↔
      Γ.declares spelling = true ∨ ∃ mark ∈ marks, mark.name.spelling = spelling := by
  induction h with
  | nil => simp
  | cons _ _ ih =>
    simp only [List.mem_cons, or_and_right, exists_or, exists_eq_left]
    rw [ih, Scopes.declares_enter, or_assoc, or_left_comm]

/-- Other names keep their latest binding. -/
theorem latest (h : Entered Γ marks Γ') (hne : ∀ mark ∈ marks, mark.name.spelling ≠ spelling)
    (hlatest : Scope.Latest Γ.innermost spelling id) :
    Scope.Latest Γ'.innermost spelling id := by
  induction h with
  | nil => exact hlatest
  | @cons _ _ mark _ other _ _ ih =>
    obtain ⟨hmark, hothers⟩ := List.forall_mem_cons.1 hne
    obtain ⟨newer, older, hscope, hnewer⟩ := hlatest
    refine ih hothers ⟨(mark.name.spelling, other) :: newer, older, ?_, ?_⟩
    · exact congrArg (List.cons (mark.name.spelling, other)) hscope
    · exact List.forall_mem_cons.2 ⟨hmark, hnewer⟩

/-- The last mark with a spelling is the latest entry. -/
theorem prevail (h : Entered Γ marks Γ') (bindings : Bindings) : Prevail bindings marks Γ' := by
  intro before mark after heq hafter
  rw [heq] at h
  obtain ⟨Γ₁, -, hrest⟩ := h.split
  cases hrest with
  | @cons _ _ _ _ id hbinding hothers =>
    have hlatest : Scope.Latest Γ'.innermost mark.name.spelling id :=
      hothers.latest hafter ⟨[], Γ₁.innermost, rfl, nofun⟩
    refine ⟨id, hbinding, fun Δ inner hΔ hinner => ?_⟩
    have hsees : Δ.Sees mark.name.spelling id := ⟨inner, _, _, hΔ, hinner, hlatest⟩
    refine ⟨hsees, fun roles use use' hspelling hlinked => ?_⟩
    rw [← hspelling] at hsees
    cases hlinked with
    | seen hsees' _ _ =>
      obtain rfl := hsees.unique hsees'
      exact .inl rfl
    | unseen hroles => exact .inr ⟨rfl, fun binding => hroles id binding hsees⟩

end Entered

/-! ## One scope after the other -/

theorem ExactIn.nil : ExactIn Γ [] := by
  intro before mark after heq
  cases before <;> cases heq

theorem ExactIn.one (name : Name) : ExactIn Γ [⟨name, Γ.declares name.spelling⟩] := by
  intro before mark after heq
  cases before with
  | nil =>
    obtain ⟨rfl, -⟩ := List.cons.inj heq
    simp
  | cons other before => cases before <;> cases heq

/-- The names of the first marks are there when the second are made. -/
theorem ExactIn.append (h : ExactIn Γ marks) (hentered : Entered Γ marks Γ')
    (h' : ExactIn Γ' marks') : ExactIn Γ (marks ++ marks') := by
  intro before mark after heq
  rcases List.append_eq_append_iff.1 heq with ⟨between, rfl, hsecond⟩ | ⟨between, hfirst, hrest⟩
  · -- the mark is one of the second
    rw [h' between mark after hsecond, hentered.declares_iff]
    simp only [List.mem_append, or_and_right, exists_or, or_assoc]
  · cases between with
    | nil =>
      rw [List.append_nil] at hfirst
      subst hfirst
      rw [h' [] mark after hrest.symm, hentered.declares_iff]
      simp
    | cons other between =>
      -- it is one of the first
      obtain ⟨rfl, -⟩ := List.cons.inj hrest
      exact h before mark between hfirst

/-- In a new scope only the marks themselves count. -/
theorem ExactIn.enclosed (h : ExactIn Γ.enclose marks) : Exact marks := by
  intro before mark after heq
  rw [h before mark after heq]
  exact or_iff_right Bool.false_ne_true

end Mark

/-! ## Names that are resolved -/

section Scoped

variable {bindings : Bindings} {Γ Γ' : Scopes} {n n' : BindingId}

theorem Formal.Scoped.entered {parameter parameter' : Formal} :
    Formal.Scoped bindings Γ n parameter parameter' Γ' n' →
    Mark.Entered Γ [parameter'.mark] Γ'
  | .const .. | .var .. | .proc .. | .func .. => .one _ _

theorem Formals.Scoped.entered {Γ Γ' : Scopes} {n n' : BindingId}
    {parameters parameters' : Formals} :
    Formals.Scoped bindings Γ n parameters parameters' Γ' n' →
    Mark.Entered Γ parameters'.marks Γ'
  | .empty => .nil
  | .one hfirst => hfirst.entered
  | .more hfirst hrest => hfirst.entered.append hrest.entered

/-- The names of the declarations that are entered are those that they mark. -/
theorem Declaration.Scoped.entered {Γ Γ' : Scopes} {n n' : BindingId}
    {declaration declaration' : Declaration} :
    Declaration.Scoped bindings Γ n declaration declaration' Γ' n' →
    Mark.Entered Γ declaration'.marks Γ'
  | .const .. | .var .. | .proc .. | .func .. | .type .. => .one _ _
  | .sequence hfirst hsecond => hfirst.entered.append hsecond.entered

end Scoped

end TriangleTam
