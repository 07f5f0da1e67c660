import TriangleTam.Proofs.Rechecking.Settled

/-! # Typing decorated trees again

  A decoration is typed where its tree was, up to serials. By induction on the
  derivation for the tree there is one for the decoration: its rules are the
  same, every name is found with a kind that differs in serials alone, and
  equivalence does not look at serials. The decoration that it leads to is the
  one that was there before, up to serials.
-/

namespace TriangleTam

open Recast (unnumbered)

/-! ## Formal parameters -/

mutual

/-- Parameters give no name to a type. -/
theorem Formal.Typed.names {Γ Γ' : Env} {s s' : Supply} {formal formal' : Formal}
    {shape : FormalShape} {P : TypeDenoter → Prop} (hΓ : Γ.NamesIn P) :
    Formal.Typed Γ s formal formal' shape Γ' s' → Γ'.NamesIn P
  | .const .. | .var .. | .proc .. | .func .. => hΓ.enter (by simp)

theorem Formals.Typed.names {Γ Γ' : Env} {s s' : Supply} {formals formals' : Formals}
    {shapes : Signature} {P : TypeDenoter → Prop} (hΓ : Γ.NamesIn P) :
    Formals.Typed Γ s formals formals' shapes Γ' s' → Γ'.NamesIn P
  | .empty => hΓ
  | .one hfirst => hfirst.names hΓ
  | .more hfirst hrest => hrest.names (hfirst.names hΓ)

end

/-- What a decorated parameter is decorated with again, from the supply `s₂` on. It is the same
    for all environments that renew the first: a routine is in the environment of its own
    parameters, with their shapes. -/
structure Formal.Again (Γ : Env) (s : Supply) (formal : Formal) (shape : FormalShape) (Γ' : Env)
    (s' s₂ : Supply) (formal₂ : Formal) (shape₂ : FormalShape) (s₂' : Supply) : Prop where
  same     : formal₂.recast unnumbered = formal.recast unnumbered
  shape    : shape₂.recast unnumbered = shape.recast unnumbered
  bindings : s₂'.bindings = s'.bindings
  typed    : ∀ {Γ₂}, Γ.Renews s Γ₂ s₂ →
    ∃ Γ₂', Formal.Typed Γ₂ s₂ formal formal₂ shape₂ Γ₂' s₂' ∧ Γ'.Renews s' Γ₂' s₂'

/-- The same of a list of parameters. -/
structure Formals.Again (Γ : Env) (s : Supply) (formals : Formals) (shapes : Signature) (Γ' : Env)
    (s' s₂ : Supply) (formals₂ : Formals) (shapes₂ : Signature) (s₂' : Supply) : Prop where
  same     : formals₂.recast unnumbered = formals.recast unnumbered
  shapes   : Signature.recast unnumbered shapes₂ = Signature.recast unnumbered shapes
  bindings : s₂'.bindings = s'.bindings
  typed    : ∀ {Γ₂}, Γ.Renews s Γ₂ s₂ →
    ∃ Γ₂', Formals.Typed Γ₂ s₂ formals formals₂ shapes₂ Γ₂' s₂' ∧ Γ'.Renews s' Γ₂' s₂'

/-- A name that is linked again is linked to the last binding. -/
@[simp] theorem Name.link_link (name : Name) (id id' : BindingId) :
    (name.link id).link id' = name.link id' := rfl

@[simp] theorem Name.spelling_link (name : Name) (id : BindingId) :
    (name.link id).spelling = name.spelling := rfl

mutual

theorem Formal.Typed.again {Γ Γ' : Env} {s s' : Supply} {formal formal' : Formal}
    {shape : FormalShape} (s₂ : Supply) (hΓ : Γ.NamesIn TypeDenoter.Settled)
    (hs : s₂.bindings = s.bindings) : Formal.Typed Γ s formal formal' shape Γ' s' →
    ∃ formal₂ shape₂ s₂', Formal.Again Γ s formal' shape Γ' s' s₂ formal₂ shape₂ s₂'
  | @Formal.Typed.const _ _ span _ name _ _ _ htype hnew => by
    obtain ⟨type₂, s₂', htyped, hsame, hbindings⟩ := htype.again hΓ hs
    refine ⟨.const span false (name.link s₂'.bindings) type₂, .const type₂, s₂'.bind, ?_, ?_,
      congrArg (· + 1) hbindings, fun {Γ₂} h => ?_⟩
    · simp [Formal.recast, hsame, hbindings]
    · simp [FormalShape.recast, hsame]
    · refine ⟨_, .const (htyped Γ₂) (h.not_declares hnew), ?_⟩
      exact (h.later hbindings).enter _ (by simp [BindingKind.recast, hsame]) nofun
  | @Formal.Typed.var _ _ span _ name _ _ _ htype hnew => by
    obtain ⟨type₂, s₂', htyped, hsame, hbindings⟩ := htype.again hΓ hs
    refine ⟨.var span false (name.link s₂'.bindings) type₂, .var type₂, s₂'.bind, ?_, ?_,
      congrArg (· + 1) hbindings, fun {Γ₂} h => ?_⟩
    · simp [Formal.recast, hsame, hbindings]
    · simp [FormalShape.recast, hsame]
    · refine ⟨_, .var (htyped Γ₂) (h.not_declares hnew), ?_⟩
      exact (h.later hbindings).enter _ (by simp [BindingKind.recast, hsame]) nofun
  | @Formal.Typed.proc _ _ span _ name _ _ _ _ _ hinner hnew => by
    obtain ⟨inner₂, shapes₂, s₂', hagain⟩ := hinner.again s₂ hΓ.enclose hs
    refine ⟨.proc span false (name.link s₂'.bindings) inner₂, .proc shapes₂, s₂'.bind, ?_, ?_,
      congrArg (· + 1) hagain.bindings, fun {Γ₂} h => ?_⟩
    · simp [Formal.recast, hagain.same, hagain.bindings]
    · simp [FormalShape.recast, hagain.shapes]
    · -- only the outer environment matters behind the scope of the inner parameters
      obtain ⟨_, htyped, -⟩ := hagain.typed h.enclose
      refine ⟨_, .proc htyped (h.not_declares hnew), ?_⟩
      exact (h.later hagain.bindings).enter _ (by simp [BindingKind.recast, hagain.shapes]) nofun
  | @Formal.Typed.func _ _ span _ name _ _ _ _ _ _ _ _ hresult hinner hnew => by
    obtain ⟨result₂, s₂₁, hresult₂, hsame, hbindings⟩ := hresult.again hΓ hs
    obtain ⟨inner₂, shapes₂, s₂', hagain⟩ := hinner.again s₂₁ hΓ.enclose hbindings
    refine ⟨.func span false (name.link s₂'.bindings) inner₂ result₂, .func shapes₂ result₂,
      s₂'.bind, ?_, ?_, congrArg (· + 1) hagain.bindings, fun {Γ₂} h => ?_⟩
    · simp [Formal.recast, hsame, hagain.same, hagain.bindings]
    · simp [FormalShape.recast, hsame, hagain.shapes]
    · obtain ⟨_, htyped, -⟩ := hagain.typed (h.later hbindings).enclose
      refine ⟨_, .func (hresult₂ Γ₂) htyped (h.not_declares hnew), ?_⟩
      exact (h.later hagain.bindings).enter _
        (by simp [BindingKind.recast, hsame, hagain.shapes]) nofun

theorem Formals.Typed.again {Γ Γ' : Env} {s s' : Supply} {formals formals' : Formals}
    {shapes : Signature} (s₂ : Supply) (hΓ : Γ.NamesIn TypeDenoter.Settled)
    (hs : s₂.bindings = s.bindings) : Formals.Typed Γ s formals formals' shapes Γ' s' →
    ∃ formals₂ shapes₂ s₂', Formals.Again Γ s formals' shapes Γ' s' s₂ formals₂ shapes₂ s₂'
  | @Formals.Typed.empty _ _ span =>
    ⟨.empty span, [], s₂, rfl, rfl, hs, fun h => ⟨_, .empty, h⟩⟩
  | @Formals.Typed.one _ _ span _ _ _ _ _ hfirst => by
    obtain ⟨first₂, shape₂, s₂', hagain⟩ := hfirst.again s₂ hΓ hs
    refine ⟨.one span first₂, [shape₂], s₂', ?_, ?_, hagain.bindings, fun h => ?_⟩
    · simp [Formals.recast, hagain.same]
    · simp [Signature.recast, hagain.shape]
    · obtain ⟨Γ₂', htyped, h'⟩ := hagain.typed h
      exact ⟨Γ₂', .one htyped, h'⟩
  | @Formals.Typed.more _ _ span _ _ _ _ _ _ _ _ _ _ hfirst hrest => by
    obtain ⟨first₂, shape₂, s₂₁, hagain⟩ := hfirst.again s₂ hΓ hs
    obtain ⟨rest₂, shapes₂, s₂', hagain'⟩ := hrest.again s₂₁ (hfirst.names hΓ) hagain.bindings
    refine ⟨.more span first₂ rest₂, shape₂ :: shapes₂, s₂', ?_, ?_, hagain'.bindings,
      fun h => ?_⟩
    · simp [Formals.recast, hagain.same, hagain'.same]
    · simp [Signature.recast, hagain.shape, hagain'.shapes]
    · obtain ⟨Γ₂₁, htyped, h₁⟩ := hagain.typed h
      obtain ⟨Γ₂', htyped', h'⟩ := hagain'.typed h₁
      exact ⟨Γ₂', .more htyped htyped', h'⟩

end

/-! ## Commands, expressions and declarations -/

mutual

/-- The decoration of a command is typed again, and differs from its own decoration in serials
    alone. -/
theorem Command.Typed.again {Γ Γ₂ : Env} {s s' s₂ : Supply} {command command' : Command}
    (h : Γ.Renews s Γ₂ s₂) : Command.Typed Γ s command command' s' →
    ∃ command₂ s₂', Command.Typed Γ₂ s₂ command' command₂ s₂' ∧
      command₂.recast unnumbered = command'.recast unnumbered ∧ s₂'.bindings = s'.bindings
  | .empty => ⟨_, s₂, .empty, rfl, h.bindings⟩
  | .assign htarget hvalue hvariable hequivalent => by
    obtain ⟨target₂, targetType₂, s₂₁, htarget₂, hsame, htype, hs₁⟩ := htarget.again h
    obtain ⟨value₂, valueType₂, s₂', hvalue₂, hsame', htype', hs'⟩ := hvalue.again (h.later hs₁)
    have hvariable₂ := (Vname.isVariable_congr hsame).trans hvariable
    -- equivalence does not look at serials
    have hequivalent₂ := (TypeDenoter.equivalent_congr htype htype').trans hequivalent
    refine ⟨_, s₂', .assign htarget₂ hvalue₂ hvariable₂ hequivalent₂, ?_, hs'⟩
    simp [Command.recast, hsame, hsame']
  | .call hfind hargs => by
    obtain ⟨kind₂, hfind₂, hkind⟩ := h.find? hfind
    cases kind₂ with
    | proc shapes₂ =>
      obtain ⟨args₂, s₂', hargs₂, hsame, hs'⟩ := hargs.again h (BindingKind.proc.inj hkind)
      refine ⟨_, s₂', .call hfind₂ hargs₂, ?_, hs'⟩
      simp [Command.recast, hsame]
    -- in the renewed environment the name is of the same kind
    | _ => cases hkind
  | .sequence hfirst hsecond => by
    obtain ⟨first₂, s₂₁, hfirst₂, hsame, hs₁⟩ := hfirst.again h
    obtain ⟨second₂, s₂', hsecond₂, hsame', hs'⟩ := hsecond.again (h.later hs₁)
    refine ⟨_, s₂', .sequence hfirst₂ hsecond₂, ?_, hs'⟩
    simp [Command.recast, hsame, hsame']
  | .letIn hdeclared hbody => by
    obtain ⟨declared₂, Γ₂', s₂₁, hdeclared₂, hsame, h'⟩ := hdeclared.again h.enclose
    obtain ⟨body₂, s₂', hbody₂, hsame', hs'⟩ := hbody.again h'
    refine ⟨_, s₂', .letIn hdeclared₂ hbody₂, ?_, hs'⟩
    simp [Command.recast, hsame, hsame']
  | .ifElse hcondition hthen helse => by
    obtain ⟨condition₂, type₂, s₂₁, hcondition₂, hsame, htype, hs₁⟩ := hcondition.again h
    -- `Boolean` has no serial, so the condition has the very same type
    obtain rfl := TypeDenoter.eq_boolean htype
    obtain ⟨then₂, s₂₂, hthen₂, hsame₁, hs₂⟩ := hthen.again (h.later hs₁)
    obtain ⟨else₂, s₂', helse₂, hsame₂, hs'⟩ := helse.again (h.later hs₂)
    refine ⟨_, s₂', .ifElse hcondition₂ hthen₂ helse₂, ?_, hs'⟩
    simp [Command.recast, hsame, hsame₁, hsame₂]
  | .whileDo hcondition hbody => by
    obtain ⟨condition₂, type₂, s₂₁, hcondition₂, hsame, htype, hs₁⟩ := hcondition.again h
    obtain rfl := TypeDenoter.eq_boolean htype
    obtain ⟨body₂, s₂', hbody₂, hsame', hs'⟩ := hbody.again (h.later hs₁)
    refine ⟨_, s₂', .whileDo hcondition₂ hbody₂, ?_, hs'⟩
    simp [Command.recast, hsame, hsame']
  | .repeatUntil hbody hcondition => by
    obtain ⟨body₂, s₂₁, hbody₂, hsame, hs₁⟩ := hbody.again h
    obtain ⟨condition₂, type₂, s₂', hcondition₂, hsame', htype, hs'⟩ :=
      hcondition.again (h.later hs₁)
    obtain rfl := TypeDenoter.eq_boolean htype
    refine ⟨_, s₂', .repeatUntil hbody₂ hcondition₂, ?_, hs'⟩
    simp [Command.recast, hsame, hsame']
  | .loopWhile hbody hcondition htail => by
    obtain ⟨body₂, s₂₁, hbody₂, hsame, hs₁⟩ := hbody.again h
    obtain ⟨condition₂, type₂, s₂₂, hcondition₂, hsame₁, htype, hs₂⟩ :=
      hcondition.again (h.later hs₁)
    obtain rfl := TypeDenoter.eq_boolean htype
    obtain ⟨tail₂, s₂', htail₂, hsame₂, hs'⟩ := htail.again (h.later hs₂)
    refine ⟨_, s₂', .loopWhile hbody₂ hcondition₂ htail₂, ?_, hs'⟩
    simp [Command.recast, hsame, hsame₁, hsame₂]

theorem Expression.Typed.again {Γ Γ₂ : Env} {s s' s₂ : Supply}
    {expression expression' : Expression} {type : TypeDenoter} (h : Γ.Renews s Γ₂ s₂) :
    Expression.Typed Γ s expression expression' type s' →
    ∃ expression₂ type₂ s₂', Expression.Typed Γ₂ s₂ expression' expression₂ type₂ s₂' ∧
      expression₂.recast unnumbered = expression'.recast unnumbered ∧
      type₂.recast unnumbered = type.recast unnumbered ∧ s₂'.bindings = s'.bindings
  | .integer => ⟨_, _, s₂, .integer, rfl, rfl, h.bindings⟩
  | .character => ⟨_, _, s₂, .character, rfl, rfl, h.bindings⟩
  | .vname hfound => by
    obtain ⟨found₂, type₂, s₂', hfound₂, hsame, htype, hs'⟩ := hfound.again h
    refine ⟨_, type₂, s₂', .vname hfound₂, ?_, htype, hs'⟩
    simp [Expression.recast, hsame, htype]
  | .call hfind hargs => by
    obtain ⟨kind₂, hfind₂, hkind⟩ := h.find? hfind
    cases kind₂ with
    | func shapes₂ result₂ =>
      obtain ⟨hshapes, hresult⟩ := BindingKind.func.inj hkind
      obtain ⟨args₂, s₂', hargs₂, hsame, hs'⟩ := hargs.again h hshapes
      refine ⟨_, result₂, s₂', .call hfind₂ hargs₂, ?_, hresult, hs'⟩
      simp [Expression.recast, hsame, hresult]
    | _ => cases hkind
  | .ifElse hcondition hthen helse hequivalent => by
    obtain ⟨condition₂, type₂, s₂₁, hcondition₂, hsame, htype, hs₁⟩ := hcondition.again h
    obtain rfl := TypeDenoter.eq_boolean htype
    obtain ⟨then₂, thenType₂, s₂₂, hthen₂, hsame₁, htype₁, hs₂⟩ := hthen.again (h.later hs₁)
    obtain ⟨else₂, elseType₂, s₂', helse₂, hsame₂, htype₂, hs'⟩ := helse.again (h.later hs₂)
    have hequivalent₂ := (TypeDenoter.equivalent_congr htype₁ htype₂).trans hequivalent
    refine ⟨_, thenType₂, s₂', .ifElse hcondition₂ hthen₂ helse₂ hequivalent₂, ?_, htype₁, hs'⟩
    simp [Expression.recast, hsame, hsame₁, hsame₂, htype₁]
  | .letIn hdeclared hbody => by
    obtain ⟨declared₂, Γ₂', s₂₁, hdeclared₂, hsame, h'⟩ := hdeclared.again h.enclose
    obtain ⟨body₂, type₂, s₂', hbody₂, hsame', htype, hs'⟩ := hbody.again h'
    refine ⟨_, type₂, s₂', .letIn hdeclared₂ hbody₂, ?_, htype, hs'⟩
    simp [Expression.recast, hsame, hsame', htype]
  | .unary hoperand hfind hequivalent => by
    obtain ⟨operand₂, operandType₂, s₂', hoperand₂, hsame, htype, hs'⟩ := hoperand.again h
    obtain ⟨kind₂, hfind₂, hkind⟩ := h.find? hfind
    cases kind₂ with
    | unary expected₂ result₂ =>
      obtain ⟨hexpected, hresult⟩ := BindingKind.unary.inj hkind
      have hequivalent₂ := (TypeDenoter.equivalent_congr hexpected htype).trans hequivalent
      refine ⟨_, result₂, s₂', .unary hoperand₂ hfind₂ hequivalent₂, ?_, hresult, hs'⟩
      simp [Expression.recast, hsame, hresult]
    | _ => cases hkind
  | .binary hleft hright hfind hequivalent hequivalent' => by
    obtain ⟨left₂, leftType₂, s₂₁, hleft₂, hsame, htype, hs₁⟩ := hleft.again h
    obtain ⟨right₂, rightType₂, s₂', hright₂, hsame', htype', hs'⟩ :=
      hright.again (h.later hs₁)
    obtain ⟨kind₂, hfind₂, hkind⟩ := h.find? hfind
    cases kind₂ with
    | binary expected₂ expected₂' result₂ =>
      obtain ⟨hexpected, hexpected', hresult⟩ := BindingKind.binary.inj hkind
      have hequivalent₂ := (TypeDenoter.equivalent_congr hexpected htype).trans hequivalent
      -- both operands are still what the operator expects
      have hequivalent₂' := (TypeDenoter.equivalent_congr hexpected' htype').trans hequivalent'
      refine ⟨_, result₂, s₂', .binary hleft₂ hright₂ hfind₂ hequivalent₂ hequivalent₂', ?_,
        hresult, hs'⟩
      simp [Expression.recast, hsame, hsame', hresult]
    | _ => cases hkind
  | .equality hleft hright hfind hequivalent => by
    obtain ⟨left₂, leftType₂, s₂₁, hleft₂, hsame, htype, hs₁⟩ := hleft.again h
    obtain ⟨right₂, rightType₂, s₂', hright₂, hsame', htype', hs'⟩ :=
      hright.again (h.later hs₁)
    obtain ⟨kind₂, hfind₂, hkind⟩ := h.find? hfind
    cases kind₂ with
    | binary expected₂ expected₂' result₂ =>
      obtain ⟨hany, -, hresult⟩ := BindingKind.binary.inj hkind
      -- an equality is one in both environments, since `any` has no serial
      obtain rfl := TypeDenoter.eq_any hany
      have hequivalent₂ := (TypeDenoter.equivalent_congr htype htype').trans hequivalent
      refine ⟨_, result₂, s₂', .equality hleft₂ hright₂ hfind₂ hequivalent₂, ?_, hresult, hs'⟩
      simp [Expression.recast, hsame, hsame', hresult]
    | _ => cases hkind
  | .array helements => by
    obtain ⟨elements₂, element₂, s₂', helements₂, hsame, htype, hs'⟩ := helements.again h
    refine ⟨_, _, _, .array helements₂, ?_, ?_, hs'⟩
    · -- the new type of the aggregate is as long as the old one
      simp [Expression.recast, TypeDenoter.recast, hsame, htype, helements.count_eq]
    · simp [TypeDenoter.recast, htype, helements.count_eq]
  | .record hfields => by
    obtain ⟨fields₂, types₂, s₂', hfields₂, hsame, htypes, hs'⟩ := hfields.again h
    refine ⟨_, _, _, .record hfields₂, ?_, ?_, hs'⟩
    · simp [Expression.recast, TypeDenoter.recast, hsame, htypes]
    · simp [TypeDenoter.recast, htypes]

theorem ArrayAggregate.Typed.again {Γ Γ₂ : Env} {s s' s₂ : Supply}
    {elements elements' : ArrayAggregate} {type : TypeDenoter} (h : Γ.Renews s Γ₂ s₂) :
    ArrayAggregate.Typed Γ s elements elements' type s' →
    ∃ elements₂ type₂ s₂', ArrayAggregate.Typed Γ₂ s₂ elements' elements₂ type₂ s₂' ∧
      elements₂.recast unnumbered = elements'.recast unnumbered ∧
      type₂.recast unnumbered = type.recast unnumbered ∧ s₂'.bindings = s'.bindings
  | .one helement => by
    obtain ⟨element₂, type₂, s₂', helement₂, hsame, htype, hs'⟩ := helement.again h
    refine ⟨_, type₂, s₂', .one helement₂, ?_, htype, hs'⟩
    simp [ArrayAggregate.recast, hsame]
  | .more helement hrest hequivalent => by
    obtain ⟨element₂, type₂, s₂₁, helement₂, hsame, htype, hs₁⟩ := helement.again h
    obtain ⟨rest₂, restType₂, s₂', hrest₂, hsame', htype', hs'⟩ := hrest.again (h.later hs₁)
    have hequivalent₂ := (TypeDenoter.equivalent_congr htype htype').trans hequivalent
    refine ⟨_, type₂, s₂', .more helement₂ hrest₂ hequivalent₂, ?_, htype, hs'⟩
    simp [ArrayAggregate.recast, hsame, hsame']

theorem RecordAggregate.Typed.again {Γ Γ₂ : Env} {s s' s₂ : Supply}
    {fields fields' : RecordAggregate} {types : Fields} (h : Γ.Renews s Γ₂ s₂) :
    RecordAggregate.Typed Γ s fields fields' types s' →
    ∃ fields₂ types₂ s₂', RecordAggregate.Typed Γ₂ s₂ fields' fields₂ types₂ s₂' ∧
      fields₂.recast unnumbered = fields'.recast unnumbered ∧
      types₂.recast unnumbered = types.recast unnumbered ∧ s₂'.bindings = s'.bindings
  | .one hvalue => by
    obtain ⟨value₂, type₂, s₂', hvalue₂, hsame, htype, hs'⟩ := hvalue.again h
    refine ⟨_, _, s₂', .one hvalue₂, ?_, ?_, hs'⟩
    · simp [RecordAggregate.recast, hsame]
    · simp [Fields.recast, htype]
  | .more hvalue hrest hdistinct => by
    obtain ⟨value₂, type₂, s₂₁, hvalue₂, hsame, htype, hs₁⟩ := hvalue.again h
    obtain ⟨rest₂, types₂, s₂', hrest₂, hsame', htypes, hs'⟩ := hrest.again (h.later hs₁)
    have hdistinct₂ := Fields.find?_none_congr htypes hdistinct
    refine ⟨_, _, s₂', .more hvalue₂ hrest₂ hdistinct₂, ?_, ?_, hs'⟩
    · simp [RecordAggregate.recast, hsame, hsame']
    · simp [Fields.recast, htype, htypes]

theorem Vname.Typed.again {Γ Γ₂ : Env} {s s' s₂ : Supply} {vname vname' : Vname}
    {type : TypeDenoter} (h : Γ.Renews s Γ₂ s₂) : Vname.Typed Γ s vname vname' type s' →
    ∃ vname₂ type₂ s₂', Vname.Typed Γ₂ s₂ vname' vname₂ type₂ s₂' ∧
      vname₂.recast unnumbered = vname'.recast unnumbered ∧
      type₂.recast unnumbered = type.recast unnumbered ∧ s₂'.bindings = s'.bindings
  | .const hfind => by
    obtain ⟨kind₂, hfind₂, hkind⟩ := h.find? hfind
    cases kind₂ with
    | const type₂ =>
      have htype := BindingKind.const.inj hkind
      refine ⟨_, type₂, s₂, .const hfind₂, ?_, htype, h.bindings⟩
      simp [Vname.recast, htype]
    | _ => cases hkind
  | .var hfind => by
    obtain ⟨kind₂, hfind₂, hkind⟩ := h.find? hfind
    cases kind₂ with
    | var type₂ =>
      have htype := BindingKind.var.inj hkind
      refine ⟨_, type₂, s₂, .var hfind₂, ?_, htype, h.bindings⟩
      simp [Vname.recast, htype]
    | _ => cases hkind
  | .dot hrecord hfield => by
    obtain ⟨record₂, recordType₂, s₂', hrecord₂, hsame, htype, hs'⟩ := hrecord.again h
    cases recordType₂ with
    | record serial₂ span₂ fields₂ =>
      obtain ⟨-, -, hfields⟩ := TypeDenoter.record.inj htype
      obtain ⟨type₂, hfield₂, htype₂⟩ := Fields.find?_some_congr hfields hfield
      refine ⟨_, type₂, s₂', .dot hrecord₂ hfield₂, ?_, htype₂, hs'⟩
      simp [Vname.recast, hsame, htype₂, Vname.isVariable_congr hsame]
    | _ => cases htype
  | .subscript harray hindex => by
    obtain ⟨array₂, arrayType₂, s₂₁, harray₂, hsame, htype, hs₁⟩ := harray.again h
    obtain ⟨index₂, indexType₂, s₂', hindex₂, hsame', htype', hs'⟩ := hindex.again (h.later hs₁)
    obtain rfl := TypeDenoter.eq_integer htype'
    cases arrayType₂ with
    | array serial₂ span₂ length₂ element₂ =>
      obtain ⟨-, -, -, helement⟩ := TypeDenoter.array.inj htype
      refine ⟨_, element₂, s₂', .subscript harray₂ hindex₂, ?_, helement, hs'⟩
      simp [Vname.recast, hsame, hsame', helement, Vname.isVariable_congr hsame]
    | _ => cases htype

theorem Declaration.Typed.again {Γ Γ' Γ₂ : Env} {s s' s₂ : Supply}
    {declaration declaration' : Declaration} (h : Γ.Renews s Γ₂ s₂) :
    Declaration.Typed Γ s declaration declaration' Γ' s' →
    ∃ declaration₂ Γ₂' s₂', Declaration.Typed Γ₂ s₂ declaration' declaration₂ Γ₂' s₂' ∧
      declaration₂.recast unnumbered = declaration'.recast unnumbered ∧ Γ'.Renews s' Γ₂' s₂'
  | .const hvalue hnew => by
    obtain ⟨value₂, type₂, s₂', hvalue₂, hsame, htype, hs'⟩ := hvalue.again h
    refine ⟨_, _, _, .const hvalue₂ (h.not_declares hnew), ?_,
      (h.later hs').enter _ (by simp [BindingKind.recast, htype]) nofun⟩
    simp [Declaration.recast, hsame, hs']
  | .var htype hnew => by
    obtain ⟨type₂, s₂', htype₂, hsame, hs'⟩ := htype.again h.settled h.bindings
    refine ⟨_, _, _, .var (htype₂ Γ₂) (h.not_declares hnew), ?_,
      (h.later hs').enter _ (by simp [BindingKind.recast, hsame]) nofun⟩
    simp [Declaration.recast, hsame, hs']
  | @Declaration.Typed.proc _ _ _ _ name _ _ _ _ _ _ _ _ hnew hparameters hbody => by
    obtain ⟨parameters₂, shapes₂, s₂₁, hagain⟩ := hparameters.again s₂.bind
      h.settled.enter_proc.enclose (congrArg (· + 1) h.bindings)
    -- the body sees the procedure with a signature that differs in serials alone
    have hrenews := h.enter_proc name.spelling hagain.shapes
    obtain ⟨Γ₂', hparameters₂, h'⟩ := hagain.typed hrenews.enclose
    obtain ⟨body₂, s₂', hbody₂, hsame, hs'⟩ := hbody.again h'
    refine ⟨_, _, s₂', .proc (h.not_declares hnew) hparameters₂ hbody₂, ?_, hrenews.later hs'⟩
    simp [Declaration.recast, hagain.same, hsame, h.bindings]
  | @Declaration.Typed.func _ _ _ _ name _ _ _ _ _ _ _ _ _ _ _ _ hresult hnew hparameters hbody
      hequivalent => by
    obtain ⟨result₂, s₂₁, hresult₂, hsame, hs₁⟩ := hresult.again h.settled h.bindings
    obtain ⟨parameters₂, shapes₂, s₂₂, hagain⟩ := hparameters.again s₂₁.bind
      h.settled.enter_func.enclose (congrArg (· + 1) hs₁)
    -- the body sees the function with a signature and a result that differ in serials alone
    have hrenews := (h.later hs₁).enter_func name.spelling hagain.shapes hsame
    obtain ⟨Γ₂', hparameters₂, h'⟩ := hagain.typed hrenews.enclose
    obtain ⟨body₂, bodyType₂, s₂', hbody₂, hsame', htype, hs'⟩ := hbody.again h'
    have hequivalent₂ := (TypeDenoter.equivalent_congr hsame htype).trans hequivalent
    refine ⟨_, _, s₂',
      .func (hresult₂ Γ₂) (h.not_declares hnew) hparameters₂ hbody₂ hequivalent₂, ?_,
      hrenews.later hs'⟩
    simp [Declaration.recast, hagain.same, hsame, hsame', hs₁]
  | .type htype hnew => by
    obtain ⟨type₂, s₂', htype₂, hsame, hs'⟩ := htype.again h.settled h.bindings
    -- a type that has a name has to be settled, as it may be denoted again
    have hsettled := htype.settled h.settled
    refine ⟨_, _, _, .type (htype₂ Γ₂) (h.not_declares hnew), ?_,
      (h.later hs').enter _ (by simp [BindingKind.recast, hsame]) fun _ heq => ?_⟩
    · simp [Declaration.recast, hsame, hs']
    · rwa [← BindingKind.type.inj heq]
  | .sequence hfirst hsecond => by
    obtain ⟨first₂, Γ₂₁, s₂₁, hfirst₂, hsame, h₁⟩ := hfirst.again h
    obtain ⟨second₂, Γ₂', s₂', hsecond₂, hsame', h'⟩ := hsecond.again h₁
    refine ⟨_, Γ₂', s₂', .sequence hfirst₂ hsecond₂, ?_, h'⟩
    simp [Declaration.recast, hsame, hsame']

theorem Actuals.Typed.again {Γ Γ₂ : Env} {s s' s₂ : Supply} {actuals actuals' : Actuals}
    {shapes shapes₂ : Signature} (h : Γ.Renews s Γ₂ s₂)
    (hshapes : Signature.recast unnumbered shapes₂ = Signature.recast unnumbered shapes) :
    Actuals.Typed Γ s actuals shapes actuals' s' →
    ∃ actuals₂ s₂', Actuals.Typed Γ₂ s₂ actuals' shapes₂ actuals₂ s₂' ∧
      actuals₂.recast unnumbered = actuals'.recast unnumbered ∧ s₂'.bindings = s'.bindings
  | .empty => by
    cases shapes₂ with
    | nil => exact ⟨_, s₂, .empty, rfl, h.bindings⟩
    | cons => cases hshapes
  | .one hfirst => by
    cases shapes₂ with
    | nil => cases hshapes
    | cons shape₂ others₂ =>
      obtain ⟨hshape, hothers⟩ := List.cons.inj hshapes
      cases others₂ with
      | nil =>
        obtain ⟨first₂, s₂', hfirst₂, hsame, hs'⟩ := hfirst.again h hshape
        refine ⟨_, s₂', .one hfirst₂, ?_, hs'⟩
        simp [Actuals.recast, hsame]
      | cons => cases hothers
  | .more hfirst hrest => by
    cases shapes₂ with
    | nil => cases hshapes
    | cons shape₂ others₂ =>
      obtain ⟨hshape, hothers⟩ := List.cons.inj hshapes
      obtain ⟨first₂, s₂₁, hfirst₂, hsame, hs₁⟩ := hfirst.again h hshape
      obtain ⟨rest₂, s₂', hrest₂, hsame', hs'⟩ := hrest.again (h.later hs₁) hothers
      cases others₂ with
      | nil => cases hothers
      | cons =>
        refine ⟨_, s₂', .more hfirst₂ hrest₂, ?_, hs'⟩
        simp [Actuals.recast, hsame, hsame']

theorem Actual.Typed.again {Γ Γ₂ : Env} {s s' s₂ : Supply} {actual actual' : Actual}
    {shape shape₂ : FormalShape} (h : Γ.Renews s Γ₂ s₂)
    (hshape : shape₂.recast unnumbered = shape.recast unnumbered) :
    Actual.Typed Γ s actual shape actual' s' →
    ∃ actual₂ s₂', Actual.Typed Γ₂ s₂ actual' shape₂ actual₂ s₂' ∧
      actual₂.recast unnumbered = actual'.recast unnumbered ∧ s₂'.bindings = s'.bindings
  | .const hvalue hequivalent => by
    obtain ⟨value₂, type₂, s₂', hvalue₂, hsame, htype, hs'⟩ := hvalue.again h
    cases shape₂ with
    | const expected₂ =>
      have hexpected := FormalShape.const.inj hshape
      have hequivalent₂ := (TypeDenoter.equivalent_congr hexpected htype).trans hequivalent
      refine ⟨_, s₂', .const hvalue₂ hequivalent₂, ?_, hs'⟩
      simp [Actual.recast, hsame]
    | _ => cases hshape
  | .var hfound hvariable hequivalent => by
    obtain ⟨found₂, type₂, s₂', hfound₂, hsame, htype, hs'⟩ := hfound.again h
    cases shape₂ with
    | var expected₂ =>
      have hexpected := FormalShape.var.inj hshape
      have hvariable₂ := (Vname.isVariable_congr hsame).trans hvariable
      have hequivalent₂ := (TypeDenoter.equivalent_congr hexpected htype).trans hequivalent
      refine ⟨_, s₂', .var hfound₂ hvariable₂ hequivalent₂, ?_, hs'⟩
      simp [Actual.recast, hsame]
    | _ => cases hshape
  | .proc hfind hequivalent => by
    obtain ⟨kind₂, hfind₂, hkind⟩ := h.find? hfind
    cases kind₂ with
    | proc shapes₂ =>
      cases shape₂ with
      | proc expected₂ =>
        have hequivalent₂ := (Signature.equivalent_congr (FormalShape.proc.inj hshape)
          (BindingKind.proc.inj hkind)).trans hequivalent
        exact ⟨_, s₂, .proc hfind₂ hequivalent₂, rfl, h.bindings⟩
      | _ => cases hshape
    | _ => cases hkind
  | .func hfind hequivalent hequivalent' => by
    obtain ⟨kind₂, hfind₂, hkind⟩ := h.find? hfind
    cases kind₂ with
    | func shapes₂ result₂ =>
      cases shape₂ with
      | func expected₂ expectedResult₂ =>
        obtain ⟨hexpected, hresult⟩ := FormalShape.func.inj hshape
        obtain ⟨hshapes, hresult'⟩ := BindingKind.func.inj hkind
        have hequivalent₂ := (Signature.equivalent_congr hexpected hshapes).trans hequivalent
        have hequivalent₂' := (TypeDenoter.equivalent_congr hresult hresult').trans hequivalent'
        exact ⟨_, s₂, .func hfind₂ hequivalent₂ hequivalent₂', rfl, h.bindings⟩
      | _ => cases hshape
    | _ => cases hkind

end

end TriangleTam
