import TriangleTam.Fold
import TriangleTam.Proofs.Typing.Known
import TriangleTam.Proofs.Typing.Table

/-! # Folding keeps programs well typed

  Where an operation on literals is replaced by a literal, the operator is a
  standard one, because it is known by its binding: no other binding has the
  number of a standard declaration. So the literal has the type that the
  operation had, and a folded decoration is a decoration again, of a program
  that was written with the literals in the first place.
-/

namespace TriangleTam

/-! ## Standard bindings -/

/-- What has the number of a standard declaration is what that declares. -/
def Env.KeepsStandard (Γ : Env) : Prop :=
  ∀ entry ∈ Γ.entries, ∀ declaration, Standard.declaration? entry.2.1 = some declaration →
    entry.2.2 = declaration.shape.kind

/-- The entries of `Γ'` are those of `Γ` and entries of new bindings. -/
def Env.Extends (Γ : Env) (s : Supply) (Γ' : Env) : Prop :=
  ∀ entry ∈ Γ'.entries, entry ∈ Γ.entries ∨ s.bindings ≤ entry.2.1

namespace Env

variable {Γ Γ' Γ'' : Env} {s s' : Supply}

theorem Extends.refl (Γ : Env) (s : Supply) : Γ.Extends s Γ := fun _ hmem => .inl hmem

theorem Extends.enter (h : Γ.Extends s Γ') {id : BindingId} (hid : s.bindings ≤ id)
    (name : String) (kind : BindingKind) : Γ.Extends s (Γ'.enter name id kind) := by
  intro entry hmem
  rcases List.mem_cons.1 hmem with rfl | hmem
  · exact .inr hid
  · exact h entry hmem

theorem Extends.enclose (h : Γ.Extends s Γ') : Γ.Extends s Γ'.enclose := by
  simpa only [Extends, entries_enclose] using h

theorem Extends.trans (h : Γ.Extends s Γ') (hbefore : s.Before s') (h' : Γ'.Extends s' Γ'') :
    Γ.Extends s Γ'' := by
  intro entry hmem
  rcases h' entry hmem with hmem | hnew
  · exact h entry hmem
  · exact .inr (Nat.le_trans hbefore.bindings hnew)

/-- A new binding has no number of a standard declaration. -/
theorem KeepsStandard.extend (hΓ : Γ.KeepsStandard)
    (hs : Standard.declarations.length ≤ s.bindings) (h : Γ.Extends s Γ') : Γ'.KeepsStandard := by
  intro entry hmem declaration hat
  rcases h entry hmem with hmem | hnew
  · exact hΓ entry hmem declaration hat
  · have hlt := (List.getElem?_eq_some_iff.1 hat).1
    exact absurd hlt (Nat.not_lt.2 (Nat.le_trans hs hnew))

theorem KeepsStandard.enclose (hΓ : Γ.KeepsStandard) : Γ.enclose.KeepsStandard := by
  simpa only [KeepsStandard, entries_enclose] using hΓ

theorem keepsStandard_standard : standard.KeepsStandard := by
  intro entry hmem declaration hat
  simp only [standard, entries, List.flatten_nil, List.append_nil, List.mem_reverse,
    List.mem_map] at hmem
  obtain ⟨⟨declaration', id⟩, hmem, rfl⟩ := hmem
  have hat' : Standard.declarations[id]? = some declaration' := List.mem_zipIdx_iff_getElem?.1 hmem
  have heq : declaration' = declaration := Option.some.inj (hat'.symm.trans hat)
  rw [heq]

/-- A binary operator that folds is on integers, and so is its result. -/
theorem KeepsStandard.result_eq (hΓ : Γ.KeepsStandard) {name : String} {id : BindingId}
    {left right result : TypeDenoter} (hfind : Γ.find? name = some (id, .binary left right result))
    {p : Primitive} (hfolds : Standard.arithmetic? id = some p) : result = .integer := by
  unfold Standard.arithmetic? at hfolds
  split at hfolds
  · next hat =>
    have hkind := hΓ _ (mem_entries_of_find? hfind) _ hat
    exact (BindingKind.binary.inj hkind).2.2
  · cases hfolds

end Env

mutual

theorem Formal.Typed.extends {Γ Γ' : Env} {s s' : Supply} {formal formal' : Formal}
    {shape : FormalShape} : Formal.Typed Γ s formal formal' shape Γ' s' → Γ.Extends s Γ'
  | .const htype _ | .var htype _ => (Env.Extends.refl Γ s).enter htype.before.bindings _ _
  | .proc hinner _ => (Env.Extends.refl Γ s).enter hinner.before.bindings _ _
  | .func hresult hinner _ =>
    (Env.Extends.refl Γ s).enter (hresult.before.trans hinner.before).bindings _ _

theorem Formals.Typed.extends {Γ Γ' : Env} {s s' : Supply} {formals formals' : Formals}
    {shapes : Signature} : Formals.Typed Γ s formals formals' shapes Γ' s' → Γ.Extends s Γ'
  | .empty => .refl Γ s
  | .one hfirst => hfirst.extends
  | .more hfirst hrest => hfirst.extends.trans hfirst.before hrest.extends

theorem Declaration.Typed.extends {Γ Γ' : Env} {s s' : Supply}
    {declaration declaration' : Declaration} :
    Declaration.Typed Γ s declaration declaration' Γ' s' → Γ.Extends s Γ'
  | .const hvalue _ => (Env.Extends.refl Γ s).enter hvalue.before.bindings _ _
  | .var htype _ | .type htype _ => (Env.Extends.refl Γ s).enter htype.before.bindings _ _
  | .proc _ _ _ => (Env.Extends.refl Γ s).enter (Nat.le_refl _) _ _
  | .func hresult _ _ _ _ => (Env.Extends.refl Γ s).enter hresult.before.bindings _ _
  | .sequence hfirst hsecond => hfirst.extends.trans hfirst.before hsecond.extends

end

/-- What the body of a routine sees. -/
theorem Formals.Typed.keepsStandard {Γ Γ' : Env} {s s' : Supply} {name : String}
    {kind : BindingKind} {formals formals' : Formals} {shapes : Signature}
    (h : Formals.Typed (Γ.enter name s.bindings kind).enclose s.bind formals formals' shapes Γ' s')
    (hΓ : Γ.KeepsStandard) (hs : Standard.declarations.length ≤ s.bindings) :
    Γ'.KeepsStandard := by
  have henter : Γ.Extends s (Γ.enter name s.bindings kind) :=
    (Env.Extends.refl Γ s).enter (Nat.le_refl _) name kind
  exact (hΓ.extend hs henter).enclose.extend (Nat.le_succ_of_le hs) h.extends

/-! ## Folding -/

namespace Fold

/-- Whatever the step returns satisfies `P`, however much was folded before. -/
def Gives {α : Type} (m : Fold α) (P : α → Prop) : Prop := ∀ n, P (m.run n).1

namespace Gives

variable {α β : Type}

theorem pure {a : α} {P : α → Prop} (h : P a) : (pure a : Fold α).Gives P := fun _ => h

theorem bind {m : Fold α} {f : α → Fold β} {P : α → Prop} {Q : β → Prop} (hm : m.Gives P)
    (hf : ∀ a, P a → (f a).Gives Q) : (m >>= f).Gives Q := fun n => hf _ (hm n) _

end Gives

/-- An operation folds if both operands are integer literals and the operator is a standard one. -/
theorem of_value? {left right : Expression} {operator : Name} {value : Int}
    (h : value? left operator right = some value) :
    (∃ a, left.integerValue? = some a) ∧ (∃ b, right.integerValue? = some b) ∧
      ∃ id p, operator.binding = some id ∧ Standard.arithmetic? id = some p := by
  unfold value? at h
  simp only [bind, Option.bind_eq_some_iff] at h
  obtain ⟨a, hleft, b, hright, p, ⟨id, hbinding, hfolds⟩, -⟩ := h
  exact ⟨⟨a, hleft⟩, ⟨b, hright⟩, id, p, hbinding, hfolds⟩

end Fold

/-- The literal of an operation that folds has the operation's type. -/
theorem Expression.Typed.literal_of_folds {Γ : Env} {s s₁ s' : Supply}
    {left left' right right' : Expression} {leftType rightType : TypeDenoter}
    (hleft : Expression.Typed Γ s left left' leftType s₁)
    (hright : Expression.Typed Γ s₁ right right' rightType s') (hΓ : Γ.KeepsStandard)
    {operator : Name} {id : BindingId} {expected expected' result : TypeDenoter}
    (hfind : Γ.find? operator.spelling = some (id, .binary expected expected' result)) {value : Int}
    (hvalue : Fold.value? left' (operator.link id) right' = some value) :
    ∃ source, Expression.Typed Γ s source (Fold.literal left'.span value) result s' := by
  obtain ⟨⟨a, hleftValue⟩, ⟨b, hrightValue⟩, _, p, hbinding, hfolds⟩ := Fold.of_value? hvalue
  obtain rfl : id = _ := Option.some.inj hbinding
  have hs₁ := hleft.eq_of_literalValue? (Expression.literalValue?_of_integerValue? hleftValue)
  have hs' := hright.eq_of_literalValue? (Expression.literalValue?_of_integerValue? hrightValue)
  rw [hΓ.result_eq hfind hfolds, hs', hs₁]
  exact ⟨.integer _ none _, .integer⟩

/-- Nothing is declared in an operation that is folded, nor in the literal for it. -/
theorem Fold.bindings_of_value? {left right : Expression} {operator : Name} {value : Int}
    (hvalue : value? left operator right = some value) :
    (literal left.span value).bindings = left.bindings ++ right.bindings := by
  obtain ⟨⟨a, hleft⟩, ⟨b, hright⟩, -⟩ := Fold.of_value? hvalue
  rw [Expression.bindings_of_integerValue? hleft, Expression.bindings_of_integerValue? hright]
  rfl

/-- Folding an operation gives what the operation gave, a literal or an operation. -/
theorem Fold.binary_gives {span : Span} {type : Option TypeDenoter} {left right : Expression}
    {operator : Name} {P : Expression → Prop} (hsame : P (.binary span type left operator right))
    (hfolds : ∀ value, value? left operator right = some value → P (literal left.span value)) :
    Fold.Gives (match value? left operator right with
      | some value => do
        modify fun count => count + 1
        return literal left.span value
      | none => return .binary span type left operator right) P := by
  cases hvalue : value? left operator right with
  | some value => exact fun _ => hfolds value hvalue
  | none => exact .pure hsame

open Fold.Gives in
mutual

theorem Command.Typed.folds {Γ : Env} {s s' : Supply} {command command' : Command}
    (hΓ : Γ.KeepsStandard) (hs : Standard.declarations.length ≤ s.bindings) :
    Command.Typed Γ s command command' s' →
    (Fold.command command').Gives fun folded => folded.bindings = command'.bindings ∧
      ∃ source, Command.Typed Γ s source folded s'
  | .empty => by
    rw [Fold.command]
    exact pure ⟨rfl, _, .empty⟩
  | .assign htarget hvalue hvariable hequivalent => by
    have hs₁ := Nat.le_trans hs htarget.before.bindings
    rw [Fold.command]
    refine bind (htarget.folds hΓ hs) fun target ⟨htable₁, hsame, _, htarget'⟩ => ?_
    refine bind (hvalue.folds hΓ hs₁) fun value ⟨htable₂, _, hvalue'⟩ => ?_
    refine pure ⟨?_, _, .assign htarget' hvalue' (hsame.trans hvariable) hequivalent⟩
    simp only [Command.bindings, htable₁, htable₂]
  | .call hfind hargs => by
    rw [Fold.command]
    refine bind (hargs.folds hΓ hs) fun args ⟨htable₁, _, hargs'⟩ => ?_
    exact pure ⟨htable₁, _, .call hfind hargs'⟩
  | .sequence hfirst hsecond => by
    have hs₁ := Nat.le_trans hs hfirst.before.bindings
    rw [Fold.command]
    refine bind (hfirst.folds hΓ hs) fun first ⟨htable₁, _, hfirst'⟩ => ?_
    refine bind (hsecond.folds hΓ hs₁) fun second ⟨htable₂, _, hsecond'⟩ => ?_
    refine pure ⟨?_, _, .sequence hfirst' hsecond'⟩
    simp only [Command.bindings, htable₁, htable₂]
  | .letIn hdeclared hbody => by
    have hs₁ := Nat.le_trans hs hdeclared.before.bindings
    rw [Fold.command]
    refine bind (hdeclared.folds hΓ.enclose hs) fun declared ⟨htable₁, _, hdeclared'⟩ => ?_
    have hΓ' := hΓ.enclose.extend hs hdeclared.extends
    refine bind (hbody.folds hΓ' hs₁) fun body ⟨htable₂, _, hbody'⟩ => ?_
    refine pure ⟨?_, _, .letIn hdeclared' hbody'⟩
    simp only [Command.bindings, htable₁, htable₂]
  | .ifElse hcondition hthen helse => by
    have hs₁ := Nat.le_trans hs hcondition.before.bindings
    have hs₂ := Nat.le_trans hs₁ hthen.before.bindings
    rw [Fold.command]
    refine bind (hcondition.folds hΓ hs) fun condition ⟨htable₁, _, hcondition'⟩ => ?_
    refine bind (hthen.folds hΓ hs₁) fun thenBranch ⟨htable₂, _, hthen'⟩ => ?_
    refine bind (helse.folds hΓ hs₂) fun elseBranch ⟨htable₃, _, helse'⟩ => ?_
    refine pure ⟨?_, _, .ifElse hcondition' hthen' helse'⟩
    simp only [Command.bindings, htable₁, htable₂, htable₃]
  | .whileDo hcondition hbody => by
    have hs₁ := Nat.le_trans hs hcondition.before.bindings
    rw [Fold.command]
    refine bind (hcondition.folds hΓ hs) fun condition ⟨htable₁, _, hcondition'⟩ => ?_
    refine bind (hbody.folds hΓ hs₁) fun body ⟨htable₂, _, hbody'⟩ => ?_
    refine pure ⟨?_, _, .whileDo hcondition' hbody'⟩
    simp only [Command.bindings, htable₁, htable₂]
  | .repeatUntil hbody hcondition => by
    have hs₁ := Nat.le_trans hs hbody.before.bindings
    rw [Fold.command]
    refine bind (hcondition.folds hΓ hs₁) fun condition ⟨htable₁, _, hcondition'⟩ => ?_
    refine bind (hbody.folds hΓ hs) fun body ⟨htable₂, _, hbody'⟩ => ?_
    refine pure ⟨?_, _, .repeatUntil hbody' hcondition'⟩
    simp only [Command.bindings, htable₁, htable₂]
  | .loopWhile hbody hcondition htail => by
    have hs₁ := Nat.le_trans hs hbody.before.bindings
    have hs₂ := Nat.le_trans hs₁ hcondition.before.bindings
    rw [Fold.command]
    refine bind (hbody.folds hΓ hs) fun body ⟨htable₁, _, hbody'⟩ => ?_
    refine bind (hcondition.folds hΓ hs₁) fun condition ⟨htable₂, _, hcondition'⟩ => ?_
    refine bind (htail.folds hΓ hs₂) fun tail ⟨htable₃, _, htail'⟩ => ?_
    refine pure ⟨?_, _, .loopWhile hbody' hcondition' htail'⟩
    simp only [Command.bindings, htable₁, htable₂, htable₃]

theorem Expression.Typed.folds {Γ : Env} {s s' : Supply} {expression expression' : Expression}
    {type : TypeDenoter} (hΓ : Γ.KeepsStandard)
    (hs : Standard.declarations.length ≤ s.bindings) :
    Expression.Typed Γ s expression expression' type s' →
    (Fold.expression expression').Gives fun folded => folded.bindings = expression'.bindings ∧
      ∃ source, Expression.Typed Γ s source folded type s'
  | .integer => by
    rw [Fold.expression]
    exact pure ⟨rfl, .integer _ none _, .integer⟩
  | .character => by
    rw [Fold.expression]
    exact pure ⟨rfl, .character _ none _, .character⟩
  | .vname hfound => by
    rw [Fold.expression]
    refine bind (hfound.folds hΓ hs) fun found ⟨htable₁, _, _, hfound'⟩ => ?_
    exact pure ⟨htable₁, .vname _ none _, .vname hfound'⟩
  | .call hfind hargs => by
    rw [Fold.expression]
    refine bind (hargs.folds hΓ hs) fun args ⟨htable₁, _, hargs'⟩ => ?_
    exact pure ⟨htable₁, .call _ none _ _, .call hfind hargs'⟩
  | .ifElse hcondition hthen helse hequivalent => by
    have hs₁ := Nat.le_trans hs hcondition.before.bindings
    have hs₂ := Nat.le_trans hs₁ hthen.before.bindings
    rw [Fold.expression]
    refine bind (hcondition.folds hΓ hs) fun condition ⟨htable₁, _, hcondition'⟩ => ?_
    refine bind (hthen.folds hΓ hs₁) fun thenBranch ⟨htable₂, _, hthen'⟩ => ?_
    refine bind (helse.folds hΓ hs₂) fun elseBranch ⟨htable₃, _, helse'⟩ => ?_
    refine pure ⟨?_, .ifElse _ none _ _ _, .ifElse hcondition' hthen' helse' hequivalent⟩
    simp only [Expression.bindings, htable₁, htable₂, htable₃]
  | .letIn hdeclared hbody => by
    have hs₁ := Nat.le_trans hs hdeclared.before.bindings
    rw [Fold.expression]
    refine bind (hdeclared.folds hΓ.enclose hs) fun declared ⟨htable₁, _, hdeclared'⟩ => ?_
    have hΓ' := hΓ.enclose.extend hs hdeclared.extends
    refine bind (hbody.folds hΓ' hs₁) fun body ⟨htable₂, _, hbody'⟩ => ?_
    refine pure ⟨?_, .letIn _ none _ _, .letIn hdeclared' hbody'⟩
    simp only [Expression.bindings, htable₁, htable₂]
  | .unary hoperand hfind hequivalent => by
    rw [Fold.expression]
    refine bind (hoperand.folds hΓ hs) fun operand ⟨htable₁, _, hoperand'⟩ => ?_
    exact pure ⟨htable₁, .unary _ none _ _, .unary hoperand' hfind hequivalent⟩
  | .binary hleft hright hfind hequivalent hequivalent' => by
    have hs₁ := Nat.le_trans hs hleft.before.bindings
    rw [Fold.expression]
    refine bind (hleft.folds hΓ hs) fun left ⟨htable₁, _, hleft'⟩ => ?_
    refine bind (hright.folds hΓ hs₁) fun right ⟨htable₂, _, hright'⟩ => ?_
    refine Fold.binary_gives ?_ fun value hvalue => ?_
    · refine ⟨?_, .binary _ none _ _ _, .binary hleft' hright' hfind hequivalent hequivalent'⟩
      simp only [Expression.bindings, htable₁, htable₂]
    · refine ⟨?_, hleft'.literal_of_folds hright' hΓ hfind hvalue⟩
      rw [Expression.bindings, ← htable₁, ← htable₂, Fold.bindings_of_value? hvalue]
  | .equality hleft hright hfind hequivalent => by
    have hs₁ := Nat.le_trans hs hleft.before.bindings
    rw [Fold.expression]
    refine bind (hleft.folds hΓ hs) fun left ⟨htable₁, _, hleft'⟩ => ?_
    refine bind (hright.folds hΓ hs₁) fun right ⟨htable₂, _, hright'⟩ => ?_
    refine Fold.binary_gives ?_ fun value hvalue => ?_
    · refine ⟨?_, .binary _ none _ _ _, .equality hleft' hright' hfind hequivalent⟩
      simp only [Expression.bindings, htable₁, htable₂]
    · refine ⟨?_, hleft'.literal_of_folds hright' hΓ hfind hvalue⟩
      rw [Expression.bindings, ← htable₁, ← htable₂, Fold.bindings_of_value? hvalue]
  | .array helements => by
    rw [Fold.expression]
    refine bind (helements.folds hΓ hs) fun elements ⟨htable₁, hcount, source, helements'⟩ => ?_
    have hcount' : source.count = _ := (helements'.count_eq.trans hcount).trans
      helements.count_eq.symm
    rw [← hcount']
    exact pure ⟨htable₁, .array _ none _, .array helements'⟩
  | .record hfields => by
    rw [Fold.expression]
    refine bind (hfields.folds hΓ hs) fun fields ⟨htable₁, _, hfields'⟩ => ?_
    exact pure ⟨htable₁, .record _ none _, .record hfields'⟩

theorem ArrayAggregate.Typed.folds {Γ : Env} {s s' : Supply}
    {elements elements' : ArrayAggregate} {type : TypeDenoter} (hΓ : Γ.KeepsStandard)
    (hs : Standard.declarations.length ≤ s.bindings) :
    ArrayAggregate.Typed Γ s elements elements' type s' →
    (Fold.arrayAggregate elements').Gives fun folded => folded.bindings = elements'.bindings ∧
      folded.count = elements'.count ∧
      ∃ source, ArrayAggregate.Typed Γ s source folded type s'
  | .one helement => by
    rw [Fold.arrayAggregate]
    refine bind (helement.folds hΓ hs) fun element ⟨htable₁, _, helement'⟩ => ?_
    exact pure ⟨htable₁, rfl, _, .one helement'⟩
  | .more helement hrest hequivalent => by
    have hs₁ := Nat.le_trans hs helement.before.bindings
    rw [Fold.arrayAggregate]
    refine bind (helement.folds hΓ hs) fun element ⟨htable₁, _, helement'⟩ => ?_
    refine bind (hrest.folds hΓ hs₁) fun rest ⟨htable₂, hcount, _, hrest'⟩ => ?_
    refine pure ⟨?_, congrArg (· + 1) hcount, _, .more helement' hrest' hequivalent⟩
    simp only [ArrayAggregate.bindings, htable₁, htable₂]

theorem RecordAggregate.Typed.folds {Γ : Env} {s s' : Supply}
    {fields fields' : RecordAggregate} {types : Fields} (hΓ : Γ.KeepsStandard)
    (hs : Standard.declarations.length ≤ s.bindings) :
    RecordAggregate.Typed Γ s fields fields' types s' →
    (Fold.recordAggregate fields').Gives fun folded => folded.bindings = fields'.bindings ∧
      ∃ source, RecordAggregate.Typed Γ s source folded types s'
  | .one hvalue => by
    rw [Fold.recordAggregate]
    refine bind (hvalue.folds hΓ hs) fun value ⟨htable₁, _, hvalue'⟩ => ?_
    exact pure ⟨htable₁, _, .one hvalue'⟩
  | .more hvalue hrest hdistinct => by
    have hs₁ := Nat.le_trans hs hvalue.before.bindings
    rw [Fold.recordAggregate]
    refine bind (hvalue.folds hΓ hs) fun value ⟨htable₁, _, hvalue'⟩ => ?_
    refine bind (hrest.folds hΓ hs₁) fun rest ⟨htable₂, _, hrest'⟩ => ?_
    refine pure ⟨?_, _, .more hvalue' hrest' hdistinct⟩
    simp only [RecordAggregate.bindings, htable₁, htable₂]

theorem Vname.Typed.folds {Γ : Env} {s s' : Supply} {vname vname' : Vname}
    {type : TypeDenoter} (hΓ : Γ.KeepsStandard)
    (hs : Standard.declarations.length ≤ s.bindings) :
    Vname.Typed Γ s vname vname' type s' →
    (Fold.vname vname').Gives fun folded => folded.bindings = vname'.bindings ∧
      folded.isVariable = vname'.isVariable ∧
      ∃ source, Vname.Typed Γ s source folded type s'
  | .const hfind => by
    rw [Fold.vname]
    exact pure ⟨rfl, rfl, .simple _ none false _, .const hfind⟩
  | .var hfind => by
    rw [Fold.vname]
    exact pure ⟨rfl, rfl, .simple _ none false _, .var hfind⟩
  | .dot hrecord hfind => by
    rw [Fold.vname]
    refine bind (hrecord.folds hΓ hs) fun record ⟨htable₁, hsame, _, hrecord'⟩ => ?_
    rw [← hsame]
    exact pure ⟨htable₁, rfl, .dot _ none false _ _, .dot hrecord' hfind⟩
  | .subscript harray hindex => by
    have hs₁ := Nat.le_trans hs harray.before.bindings
    rw [Fold.vname]
    refine bind (harray.folds hΓ hs) fun array ⟨htable₁, hsame, _, harray'⟩ => ?_
    refine bind (hindex.folds hΓ hs₁) fun index ⟨htable₂, _, hindex'⟩ => ?_
    rw [← hsame]
    refine pure ⟨?_, rfl, .subscript _ none false _ _, .subscript harray' hindex'⟩
    simp only [Vname.bindings, htable₁, htable₂]

theorem Declaration.Typed.folds {Γ Γ' : Env} {s s' : Supply}
    {declaration declaration' : Declaration} (hΓ : Γ.KeepsStandard)
    (hs : Standard.declarations.length ≤ s.bindings) :
    Declaration.Typed Γ s declaration declaration' Γ' s' →
    (Fold.declaration declaration').Gives fun folded => folded.bindings = declaration'.bindings ∧
      ∃ source, Declaration.Typed Γ s source folded Γ' s'
  | .const hvalue hnew => by
    rw [Fold.declaration]
    refine bind (hvalue.folds hΓ hs) fun value ⟨htable₁, _, hvalue'⟩ => ?_
    refine pure ⟨?_, .const _ false _ _, .const hvalue' hnew⟩
    simp only [Declaration.bindings, htable₁, hvalue.type_eq, hvalue'.type_eq]
  | .var htype hnew => by
    rw [Fold.declaration]
    exact pure ⟨rfl, .var _ false _ _, .var htype hnew⟩
  | .proc hnew hparameters hbody => by
    have hs₁ : Standard.declarations.length ≤ _ :=
      Nat.le_trans (Nat.le_succ_of_le hs) hparameters.before.bindings
    rw [Fold.declaration]
    refine bind (hbody.folds (hparameters.keepsStandard hΓ hs) hs₁) fun body ⟨htable₁, _, hbody'⟩ => ?_
    refine pure ⟨?_, .proc _ false _ _ _, .proc hnew hparameters hbody'⟩
    simp only [Declaration.bindings, htable₁]
  | .func hresult hnew hparameters hbody hequivalent => by
    have hs₁ := Nat.le_trans hs hresult.before.bindings
    have hs₂ : Standard.declarations.length ≤ _ :=
      Nat.le_trans (Nat.le_succ_of_le hs₁) hparameters.before.bindings
    rw [Fold.declaration]
    refine bind (hbody.folds (hparameters.keepsStandard hΓ hs₁) hs₂) fun body ⟨htable₁, _, hbody'⟩ => ?_
    refine pure ⟨?_, .func _ false _ _ _ _, .func hresult hnew hparameters hbody' hequivalent⟩
    simp only [Declaration.bindings, htable₁]
  | .type htype hnew => by
    rw [Fold.declaration]
    exact pure ⟨rfl, .type _ false _ _, .type htype hnew⟩
  | .sequence hfirst hsecond => by
    have hs₁ := Nat.le_trans hs hfirst.before.bindings
    rw [Fold.declaration]
    refine bind (hfirst.folds hΓ hs) fun first ⟨htable₁, _, hfirst'⟩ => ?_
    refine bind (hsecond.folds (hΓ.extend hs hfirst.extends) hs₁) fun second ⟨htable₂, _, hsecond'⟩ => ?_
    refine pure ⟨?_, _, .sequence hfirst' hsecond'⟩
    simp only [Declaration.bindings, htable₁, htable₂]

theorem Actuals.Typed.folds {Γ : Env} {s s' : Supply} {actuals actuals' : Actuals}
    {shapes : Signature} (hΓ : Γ.KeepsStandard)
    (hs : Standard.declarations.length ≤ s.bindings) :
    Actuals.Typed Γ s actuals shapes actuals' s' →
    (Fold.actuals actuals').Gives fun folded => folded.bindings = actuals'.bindings ∧
      ∃ source, Actuals.Typed Γ s source shapes folded s'
  | .empty => by
    rw [Fold.actuals]
    exact pure ⟨rfl, _, .empty⟩
  | .one hfirst => by
    rw [Fold.actuals]
    refine bind (hfirst.folds hΓ hs) fun first ⟨htable₁, _, hfirst'⟩ => ?_
    exact pure ⟨htable₁, _, .one hfirst'⟩
  | .more hfirst hrest => by
    have hs₁ := Nat.le_trans hs hfirst.before.bindings
    rw [Fold.actuals]
    refine bind (hfirst.folds hΓ hs) fun first ⟨htable₁, _, hfirst'⟩ => ?_
    refine bind (hrest.folds hΓ hs₁) fun rest ⟨htable₂, _, hrest'⟩ => ?_
    refine pure ⟨?_, _, .more hfirst' hrest'⟩
    simp only [Actuals.bindings, htable₁, htable₂]

theorem Actual.Typed.folds {Γ : Env} {s s' : Supply} {actual actual' : Actual}
    {shape : FormalShape} (hΓ : Γ.KeepsStandard)
    (hs : Standard.declarations.length ≤ s.bindings) :
    Actual.Typed Γ s actual shape actual' s' →
    (Fold.actual actual').Gives fun folded => folded.bindings = actual'.bindings ∧
      ∃ source, Actual.Typed Γ s source shape folded s'
  | .const hvalue hequivalent => by
    rw [Fold.actual]
    refine bind (hvalue.folds hΓ hs) fun value ⟨htable₁, _, hvalue'⟩ => ?_
    exact pure ⟨htable₁, _, .const hvalue' hequivalent⟩
  | .var hfound hvariable hequivalent => by
    rw [Fold.actual]
    refine bind (hfound.folds hΓ hs) fun found ⟨htable₁, hsame, _, hfound'⟩ => ?_
    exact pure ⟨htable₁, _, .var hfound' (hsame.trans hvariable) hequivalent⟩
  | .proc hfind hequivalent => by
    rw [Fold.actual]
    exact pure ⟨rfl, _, .proc hfind hequivalent⟩
  | .func hfind hequivalent hequivalent' => by
    rw [Fold.actual]
    exact pure ⟨rfl, _, .func hfind hequivalent hequivalent'⟩

end

/-- Folding keeps a program well typed. -/
theorem Program.Typed.fold {program decorated : Program} (h : program.Typed decorated)
    (journal : Journal) : ∃ source, Program.Typed source (decorated.fold journal).program := by
  cases h with
  | @command command span serials command' s' htyped =>
    obtain ⟨-, source, hfolded⟩ := htyped.folds Env.keepsStandard_standard (Nat.le_refl _) 0
    exact ⟨⟨source, span, serials⟩, .command hfolded⟩

end TriangleTam
