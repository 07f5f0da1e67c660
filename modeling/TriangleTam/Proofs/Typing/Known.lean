import TriangleTam.Proofs.Text.Numeral
import TriangleTam.Proofs.Typing.Decoration

/-! # Types of decorated trees

  What is made in the course of a derivation stays made, and the decoration it
  leads to has known types only: in an environment that is about known types,
  every expression and vname gets a known type, and so does every name that is
  declared. In particular no decoration contains `error`, `any` or a type
  identifier.
-/

namespace TriangleTam

/-! ## What was made before -/

mutual

theorem TypeDenoter.Typed.before {Γ : Env} {s s' : Supply} {type type' : TypeDenoter} :
    TypeDenoter.Typed Γ s type type' s' → s.Before s'
  | .boolean | .character | .integer | .named _ => .refl _
  | .array _ helement => helement.before.add _
  | .record hfields => hfields.before.add _

theorem Fields.Typed.before {Γ : Env} {s s' : Supply} {fields fields' : Fields} :
    Fields.Typed Γ s fields fields' s' → s.Before s'
  | .one htype => htype.before
  | .more htype hrest => htype.before.trans hrest.before

end

mutual

theorem Formal.Typed.before {Γ Γ' : Env} {s s' : Supply} {formal formal' : Formal}
    {shape : FormalShape} : Formal.Typed Γ s formal formal' shape Γ' s' → s.Before s'
  | .const htype _ | .var htype _ => htype.before.bind
  | .proc hinner _ => hinner.before.bind
  | .func hresult hinner _ => (hresult.before.trans hinner.before).bind

theorem Formals.Typed.before {Γ Γ' : Env} {s s' : Supply} {formals formals' : Formals}
    {shapes : Signature} : Formals.Typed Γ s formals formals' shapes Γ' s' → s.Before s'
  | .empty => .refl _
  | .one hfirst => hfirst.before
  | .more hfirst hrest => hfirst.before.trans hrest.before

end

theorem Supply.before_bind (s : Supply) : s.Before s.bind := (Supply.Before.refl s).bind

theorem Supply.before_add (s : Supply) (type : TypeDenoter) : s.Before (s.add type) :=
  (Supply.Before.refl s).add type

mutual

theorem Command.Typed.before {Γ : Env} {s s' : Supply} {command command' : Command} :
    Command.Typed Γ s command command' s' → s.Before s'
  | .empty => .refl _
  | .assign htarget hvalue _ _ => htarget.before.trans hvalue.before
  | .call _ hargs => hargs.before
  | .sequence hfirst hsecond => hfirst.before.trans hsecond.before
  | .letIn hdeclared hbody => hdeclared.before.trans hbody.before
  | .ifElse hcondition hthen helse =>
    hcondition.before.trans (hthen.before.trans helse.before)
  | .whileDo hcondition hbody => hcondition.before.trans hbody.before
  | .repeatUntil hbody hcondition => hbody.before.trans hcondition.before
  | .loopWhile hbody hcondition htail =>
    hbody.before.trans (hcondition.before.trans htail.before)

theorem Expression.Typed.before {Γ : Env} {s s' : Supply} {expression expression' : Expression}
    {type : TypeDenoter} : Expression.Typed Γ s expression expression' type s' → s.Before s'
  | .integer | .character => .refl _
  | .vname hfound => hfound.before
  | .call _ hargs => hargs.before
  | .ifElse hcondition hthen helse _ =>
    hcondition.before.trans (hthen.before.trans helse.before)
  | .letIn hdeclared hbody => hdeclared.before.trans hbody.before
  | .unary hoperand _ _ => hoperand.before
  | .binary hleft hright _ _ _ | .equality hleft hright _ _ => hleft.before.trans hright.before
  | .array helements => helements.before.add _
  | .record hfields => hfields.before.add _

theorem ArrayAggregate.Typed.before {Γ : Env} {s s' : Supply}
    {elements elements' : ArrayAggregate} {type : TypeDenoter} :
    ArrayAggregate.Typed Γ s elements elements' type s' → s.Before s'
  | .one helement => helement.before
  | .more helement hrest _ => helement.before.trans hrest.before

theorem RecordAggregate.Typed.before {Γ : Env} {s s' : Supply}
    {fields fields' : RecordAggregate} {types : Fields} :
    RecordAggregate.Typed Γ s fields fields' types s' → s.Before s'
  | .one hvalue => hvalue.before
  | .more hvalue hrest _ => hvalue.before.trans hrest.before

theorem Vname.Typed.before {Γ : Env} {s s' : Supply} {vname vname' : Vname}
    {type : TypeDenoter} : Vname.Typed Γ s vname vname' type s' → s.Before s'
  | .const _ | .var _ => .refl _
  | .dot hrecord _ => hrecord.before
  | .subscript harray hindex => harray.before.trans hindex.before

theorem Declaration.Typed.before {Γ Γ' : Env} {s s' : Supply}
    {declaration declaration' : Declaration} :
    Declaration.Typed Γ s declaration declaration' Γ' s' → s.Before s'
  | .const hvalue _ => hvalue.before.bind
  | .var htype _ | .type htype _ => htype.before.bind
  | .proc _ hparameters hbody =>
    s.before_bind.trans (hparameters.before.trans hbody.before)
  | .func hresult _ hparameters hbody _ =>
    hresult.before.bind.trans (hparameters.before.trans hbody.before)
  | .sequence hfirst hsecond => hfirst.before.trans hsecond.before

theorem Actuals.Typed.before {Γ : Env} {s s' : Supply} {actuals actuals' : Actuals}
    {shapes : Signature} : Actuals.Typed Γ s actuals shapes actuals' s' → s.Before s'
  | .empty => .refl _
  | .one hfirst => hfirst.before
  | .more hfirst hrest => hfirst.before.trans hrest.before

theorem Actual.Typed.before {Γ : Env} {s s' : Supply} {actual actual' : Actual}
    {shape : FormalShape} : Actual.Typed Γ s actual shape actual' s' → s.Before s'
  | .const hvalue _ => hvalue.before
  | .var hfound _ _ => hfound.before
  | .proc _ _ | .func _ _ _ => .refl _

end

/-! ## Known types -/

/-- The denoter is known to the supply. -/
def Supply.Knows (s : Supply) : TypeDenoter → Prop := TypeDenoter.Known s.denoters

namespace Supply.Before

variable {s s' : Supply}

theorem knows (h : s.Before s') (type : TypeDenoter) : s.Knows type → s'.Knows type :=
  TypeDenoter.Known.mono h.denoters

theorem finds (h : s.Before s') (type : Option TypeDenoter) :
    Finds s.Knows type → Finds s'.Knows type :=
  Finds.mono h.knows

end Supply.Before

theorem Env.TypesIn.later {Γ : Env} {s s' : Supply} (h : Γ.TypesIn s.Knows)
    (hbefore : s.Before s') : Γ.TypesIn s'.Knows :=
  h.mono hbefore.knows

theorem Env.NamesIn.later {Γ : Env} {s s' : Supply} (h : Γ.NamesIn s.Knows)
    (hbefore : s.Before s') : Γ.NamesIn s'.Knows :=
  h.mono hbefore.knows

/-- A denoter is known once it is made of known parts. -/
theorem Supply.knows_array {s : Supply} {span : Span} {length : IntegerLiteral}
    {element : TypeDenoter} (hlength : 0 ≤ length.value) (h : s.Knows element) :
    (s.add (.array s.denoters.length span length element)).Knows
      (.array s.denoters.length span length element) :=
  ⟨by simp [Supply.add], hlength, h.mono (List.prefix_append _ _)⟩

theorem Supply.knows_record {s : Supply} {span : Span} {fields : Fields}
    (h : fields.Known s.denoters) :
    (s.add (.record s.denoters.length span fields)).Knows
      (.record s.denoters.length span fields) :=
  ⟨by simp [Supply.add], h.mono (List.prefix_append _ _)⟩

mutual

theorem TypeDenoter.Typed.known {Γ : Env} {s s' : Supply} {type type' : TypeDenoter}
    (hΓ : Γ.NamesIn s.Knows) : TypeDenoter.Typed Γ s type type' s' → s'.Knows type'
  | .boolean | .character | .integer => trivial
  | .named hfind => hΓ _ (Env.mem_entries_of_find? hfind) _ rfl
  | .array hlength helement => Supply.knows_array (Int.le_of_lt hlength) (helement.known hΓ)
  | .record hfields => Supply.knows_record (hfields.known hΓ)

theorem Fields.Typed.known {Γ : Env} {s s' : Supply} {fields fields' : Fields}
    (hΓ : Γ.NamesIn s.Knows) : Fields.Typed Γ s fields fields' s' → fields'.Known s'.denoters
  | .one htype => htype.known hΓ
  | .more htype hrest =>
    ⟨hrest.before.knows _ (htype.known hΓ), hrest.known (hΓ.later htype.before)⟩

end

/-- A formal parameter is entered with its shape. -/
theorem Formal.Typed.env_typesIn {Γ Γ' : Env} {s s' : Supply} {formal formal' : Formal}
    {shape : FormalShape} {P : TypeDenoter → Prop}
    (h : Formal.Typed Γ s formal formal' shape Γ' s') (hshape : shape.TypesIn P)
    (hΓ : Γ.TypesIn P) : Γ'.TypesIn P := by
  cases h with
  | const => exact hΓ.enter hshape
  | var => exact hΓ.enter hshape
  | proc => exact hΓ.enter hshape
  | func => exact hΓ.enter hshape

/-- The same of a list of formal parameters. -/
theorem Formals.Typed.env_typesIn {Γ Γ' : Env} {s s' : Supply} {formals formals' : Formals}
    {shapes : Signature} {P : TypeDenoter → Prop}
    (h : Formals.Typed Γ s formals formals' shapes Γ' s')
    (hshapes : Signature.TypesIn P shapes) (hΓ : Γ.TypesIn P) : Γ'.TypesIn P :=
  match h with
  | .empty => hΓ
  | .one hfirst => hfirst.env_typesIn hshapes.1 hΓ
  | .more hfirst hrest => hrest.env_typesIn hshapes.2 (hfirst.env_typesIn hshapes.1 hΓ)

/-- What the derivation for a formal parameter leads to is about known types.
    Only type identifiers matter to it: a routine is in the environment of its
    own parameters, but their types are not known before. -/
structure Formal.KnownTo (s : Supply) (formal : Formal) (shape : FormalShape) (Γ' : Env) :
    Prop where
  all   : formal.All s.Knows
  shape : shape.TypesIn s.Knows
  names : Γ'.NamesIn s.Knows

/-- The same of a list of formal parameters. -/
structure Formals.KnownTo (s : Supply) (formals : Formals) (shapes : Signature) (Γ' : Env) :
    Prop where
  all   : formals.All s.Knows
  shape : Signature.TypesIn s.Knows shapes
  names : Γ'.NamesIn s.Knows

mutual

theorem Formal.Typed.known {Γ Γ' : Env} {s s' : Supply} {formal formal' : Formal}
    {shape : FormalShape} (hΓ : Γ.NamesIn s.Knows) :
    Formal.Typed Γ s formal formal' shape Γ' s' → formal'.KnownTo s' shape Γ'
  | .const htype _ => by
    have hknown := htype.known hΓ
    exact ⟨hknown, hknown, (hΓ.later htype.before.bind).enter nofun⟩
  | .var htype _ => by
    have hknown := htype.known hΓ
    exact ⟨hknown, hknown, (hΓ.later htype.before.bind).enter nofun⟩
  | .proc hinner _ => by
    have hknown := hinner.known hΓ.enclose
    exact ⟨hknown.all, hknown.shape, (hΓ.later hinner.before.bind).enter nofun⟩
  | .func hresult hinner _ => by
    have hknown := hinner.known (hΓ.later hresult.before).enclose
    have htype := hinner.before.knows _ (hresult.known hΓ)
    have hbefore := (hresult.before.trans hinner.before).bind
    exact ⟨⟨hknown.all, htype⟩, ⟨hknown.shape, htype⟩, (hΓ.later hbefore).enter nofun⟩

theorem Formals.Typed.known {Γ Γ' : Env} {s s' : Supply} {formals formals' : Formals}
    {shapes : Signature} (hΓ : Γ.NamesIn s.Knows) :
    Formals.Typed Γ s formals formals' shapes Γ' s' → formals'.KnownTo s' shapes Γ'
  | .empty => ⟨trivial, trivial, hΓ⟩
  | .one hfirst => by
    have hknown := hfirst.known hΓ
    exact ⟨hknown.all, ⟨hknown.shape, trivial⟩, hknown.names⟩
  | .more hfirst hrest => by
    have hknown := hfirst.known hΓ
    have hknown' := hrest.known hknown.names
    exact ⟨⟨hknown.all.mono hrest.before.knows, hknown'.all⟩,
      ⟨hknown.shape.mono hrest.before.knows, hknown'.shape⟩, hknown'.names⟩

end

/-- The parameters of a routine are known, and so is what its body sees, once the routine's own
    kind is about known types. -/
theorem Formals.Typed.known_of_routine {Γ Γ' : Env} {s s' : Supply} {name : String}
    {kind : BindingKind} {formals formals' : Formals} {shapes : Signature}
    (h : Formals.Typed (Γ.enter name s.bindings kind).enclose s.bind formals formals' shapes Γ' s')
    (hΓ : Γ.TypesIn s.Knows) (hno : ∀ type, kind ≠ .type type)
    (hkind : Signature.TypesIn s'.Knows shapes → kind.TypesIn s'.Knows) :
    formals'.KnownTo s' shapes Γ' ∧ Γ'.TypesIn s'.Knows := by
  have hnames : (Γ.enter name s.bindings kind).NamesIn s.bind.Knows :=
    (hΓ.later s.before_bind).names.enter fun type heq => absurd heq (hno type)
  have hknown := h.known hnames.enclose
  have hΓ' := hΓ.later (s.before_bind.trans h.before)
  exact ⟨hknown, h.env_typesIn hknown.shape (hΓ'.enter (hkind hknown.shape)).enclose⟩

/-! ## Commands, expressions and declarations -/

theorem ArrayAggregate.Typed.count_eq {Γ : Env} {s s' : Supply}
    {elements elements' : ArrayAggregate} {type : TypeDenoter} :
    ArrayAggregate.Typed Γ s elements elements' type s' → elements.count = elements'.count
  | .one _ => rfl
  | .more _ hrest _ => congrArg (· + 1) hrest.count_eq

/-- The node carries the type of the judgement. -/
theorem Expression.Typed.type_eq {Γ : Env} {s s' : Supply} {expression expression' : Expression}
    {type : TypeDenoter} (h : Expression.Typed Γ s expression expression' type s') :
    expression'.type = some type := by
  cases h <;> rfl

theorem Vname.Typed.type_eq {Γ : Env} {s s' : Supply} {vname vname' : Vname}
    {type : TypeDenoter} (h : Vname.Typed Γ s vname vname' type s') :
    vname'.type = some type := by
  cases h <;> rfl

/-- Literals create nothing. -/
theorem Expression.Typed.eq_of_literalValue? {Γ : Env} {s s' : Supply}
    {expression expression' : Expression} {type : TypeDenoter}
    (h : Expression.Typed Γ s expression expression' type s') {value : Int}
    (hliteral : expression'.literalValue? = some value) : s' = s := by
  cases h with
  | integer | character => rfl
  | _ => cases hliteral

theorem Expression.literalValue?_of_integerValue? {expression : Expression} {value : Int}
    (h : expression.integerValue? = some value) : expression.literalValue? = some value := by
  cases expression with
  | integer => exact h
  | _ => cases h

theorem Finds.some {P : TypeDenoter → Prop} {type : TypeDenoter} (h : P type) :
    Finds P (some type) :=
  ⟨type, rfl, h⟩

mutual

theorem Command.Typed.known {Γ : Env} {s s' : Supply} {command command' : Command}
    (hΓ : Γ.TypesIn s.Knows) :
    Command.Typed Γ s command command' s' → command'.All s'.Knows (Finds s'.Knows)
  | .empty => trivial
  | .assign htarget hvalue _ _ => by
    have hbefore := hvalue.before
    have htarget' := (htarget.known hΓ).1
    have hvalue' := (hvalue.known (hΓ.later htarget.before)).1
    exact ⟨htarget'.mono hbefore.knows hbefore.finds, hvalue'⟩
  | .call _ hargs => hargs.known hΓ
  | .sequence hfirst hsecond => by
    have hbefore := hsecond.before
    have hfirst' := hfirst.known hΓ
    have hsecond' := hsecond.known (hΓ.later hfirst.before)
    exact ⟨hfirst'.mono hbefore.knows hbefore.finds, hsecond'⟩
  | .letIn hdeclared hbody => by
    have hbefore := hbody.before
    obtain ⟨hdeclared', hΓ'⟩ := hdeclared.known hΓ.enclose
    exact ⟨hdeclared'.mono hbefore.knows hbefore.finds, hbody.known hΓ'⟩
  | .ifElse hcondition hthen helse => by
    have hΓ₁ := hΓ.later hcondition.before
    have hcondition' := (hcondition.known hΓ).1
    have hthen' := hthen.known hΓ₁
    have helse' := helse.known (hΓ₁.later hthen.before)
    have hbefore := hthen.before.trans helse.before
    exact ⟨hcondition'.mono hbefore.knows hbefore.finds,
      hthen'.mono helse.before.knows helse.before.finds, helse'⟩
  | .whileDo hcondition hbody => by
    have hbefore := hbody.before
    have hcondition' := (hcondition.known hΓ).1
    exact ⟨hcondition'.mono hbefore.knows hbefore.finds,
      hbody.known (hΓ.later hcondition.before)⟩
  | .repeatUntil hbody hcondition => by
    have hbefore := hcondition.before
    have hbody' := hbody.known hΓ
    exact ⟨hbody'.mono hbefore.knows hbefore.finds,
      (hcondition.known (hΓ.later hbody.before)).1⟩
  | .loopWhile hbody hcondition htail => by
    have hΓ₁ := hΓ.later hbody.before
    have hbody' := hbody.known hΓ
    have hcondition' := (hcondition.known hΓ₁).1
    have htail' := htail.known (hΓ₁.later hcondition.before)
    have hbefore := hcondition.before.trans htail.before
    exact ⟨hbody'.mono hbefore.knows hbefore.finds,
      hcondition'.mono htail.before.knows htail.before.finds, htail'⟩

theorem Expression.Typed.known {Γ : Env} {s s' : Supply} {expression expression' : Expression}
    {type : TypeDenoter} (hΓ : Γ.TypesIn s.Knows) :
    Expression.Typed Γ s expression expression' type s' →
      expression'.All s'.Knows (Finds s'.Knows) ∧ s'.Knows type
  | .integer | .character => ⟨.some trivial, trivial⟩
  | .vname hfound => by
    obtain ⟨hfound', htype⟩ := hfound.known hΓ
    exact ⟨⟨.some htype, hfound'⟩, htype⟩
  | .call hfind hargs => by
    have hresult := hargs.before.knows _ (hΓ.find? hfind).2
    exact ⟨⟨.some hresult, hargs.known hΓ⟩, hresult⟩
  | .ifElse hcondition hthen helse _ => by
    have hΓ₁ := hΓ.later hcondition.before
    have hcondition' := (hcondition.known hΓ).1
    obtain ⟨hthen', htype⟩ := hthen.known hΓ₁
    have helse' := (helse.known (hΓ₁.later hthen.before)).1
    have hbefore := hthen.before.trans helse.before
    have htype' := helse.before.knows _ htype
    exact ⟨⟨.some htype', hcondition'.mono hbefore.knows hbefore.finds,
      hthen'.mono helse.before.knows helse.before.finds, helse'⟩, htype'⟩
  | .letIn hdeclared hbody => by
    have hbefore := hbody.before
    obtain ⟨hdeclared', hΓ'⟩ := hdeclared.known hΓ.enclose
    obtain ⟨hbody', htype⟩ := hbody.known hΓ'
    exact ⟨⟨.some htype, hdeclared'.mono hbefore.knows hbefore.finds, hbody'⟩, htype⟩
  | .unary hoperand hfind _ => by
    have hresult := hoperand.before.knows _ (hΓ.find? hfind).2
    exact ⟨⟨.some hresult, (hoperand.known hΓ).1⟩, hresult⟩
  | .binary hleft hright hfind _ _ | .equality hleft hright hfind _ => by
    have hbefore := hright.before
    have hleft' := (hleft.known hΓ).1
    have hright' := (hright.known (hΓ.later hleft.before)).1
    have hresult := (hleft.before.trans hbefore).knows _ (hΓ.find? hfind).2
    exact ⟨⟨.some hresult, hleft'.mono hbefore.knows hbefore.finds, hright'⟩, hresult⟩
  | .array helements => by
    obtain ⟨helements', helement⟩ := helements.known hΓ
    refine ⟨⟨.some ?_, ?_⟩, ?_⟩
    · exact Supply.knows_array (IntegerLiteral.value_ofNat_nonneg _ _) helement
    · exact helements'.mono (Supply.before_add _ _).knows (Supply.before_add _ _).finds
    · exact Supply.knows_array (IntegerLiteral.value_ofNat_nonneg _ _) helement
  | .record hfields => by
    obtain ⟨hfields', htypes⟩ := hfields.known hΓ
    refine ⟨⟨.some ?_, ?_⟩, ?_⟩
    · exact Supply.knows_record htypes
    · exact hfields'.mono (Supply.before_add _ _).knows (Supply.before_add _ _).finds
    · exact Supply.knows_record htypes

theorem ArrayAggregate.Typed.known {Γ : Env} {s s' : Supply}
    {elements elements' : ArrayAggregate} {type : TypeDenoter} (hΓ : Γ.TypesIn s.Knows) :
    ArrayAggregate.Typed Γ s elements elements' type s' →
      elements'.All s'.Knows (Finds s'.Knows) ∧ s'.Knows type
  | .one helement => helement.known hΓ
  | .more helement hrest _ => by
    have hbefore := hrest.before
    obtain ⟨helement', htype⟩ := helement.known hΓ
    have hrest' := (hrest.known (hΓ.later helement.before)).1
    exact ⟨⟨helement'.mono hbefore.knows hbefore.finds, hrest'⟩, hbefore.knows _ htype⟩

theorem RecordAggregate.Typed.known {Γ : Env} {s s' : Supply}
    {fields fields' : RecordAggregate} {types : Fields} (hΓ : Γ.TypesIn s.Knows) :
    RecordAggregate.Typed Γ s fields fields' types s' →
      fields'.All s'.Knows (Finds s'.Knows) ∧ types.Known s'.denoters
  | .one hvalue => hvalue.known hΓ
  | .more hvalue hrest _ => by
    have hbefore := hrest.before
    obtain ⟨hvalue', htype⟩ := hvalue.known hΓ
    obtain ⟨hrest', htypes⟩ := hrest.known (hΓ.later hvalue.before)
    exact ⟨⟨hvalue'.mono hbefore.knows hbefore.finds, hrest'⟩,
      ⟨hbefore.knows _ htype, htypes⟩⟩

theorem Vname.Typed.known {Γ : Env} {s s' : Supply} {vname vname' : Vname}
    {type : TypeDenoter} (hΓ : Γ.TypesIn s.Knows) :
    Vname.Typed Γ s vname vname' type s' →
      vname'.All s'.Knows (Finds s'.Knows) ∧ s'.Knows type
  | .const hfind | .var hfind => ⟨.some (hΓ.find? hfind), hΓ.find? hfind⟩
  | .dot hrecord hfind => by
    obtain ⟨hrecord', -, hfields⟩ := hrecord.known hΓ
    have hfield := hfields.find? hfind
    exact ⟨⟨.some hfield, hrecord'⟩, hfield⟩
  | .subscript harray hindex => by
    have hbefore := hindex.before
    obtain ⟨harray', -, -, helement⟩ := harray.known hΓ
    have hindex' := (hindex.known (hΓ.later harray.before)).1
    have helement' := hbefore.knows _ helement
    exact ⟨⟨.some helement', harray'.mono hbefore.knows hbefore.finds, hindex'⟩, helement'⟩

theorem Declaration.Typed.known {Γ Γ' : Env} {s s' : Supply}
    {declaration declaration' : Declaration} (hΓ : Γ.TypesIn s.Knows) :
    Declaration.Typed Γ s declaration declaration' Γ' s' →
      declaration'.All s'.Knows (Finds s'.Knows) ∧ Γ'.TypesIn s'.Knows
  | .const hvalue _ => by
    obtain ⟨hvalue', htype⟩ := hvalue.known hΓ
    refine ⟨?_, (hΓ.later hvalue.before.bind).enter htype⟩
    exact hvalue'.mono (Supply.before_bind _).knows (Supply.before_bind _).finds
  | .var htype _ | .type htype _ => by
    have htype' := htype.known hΓ.names
    exact ⟨htype', (hΓ.later htype.before.bind).enter htype'⟩
  | .proc _ hparameters hbody => by
    obtain ⟨hparameters', hΓ'⟩ := hparameters.known_of_routine hΓ nofun id
    have hbefore := hbody.before
    refine ⟨⟨hparameters'.all.mono hbefore.knows, hbody.known hΓ'⟩, ?_⟩
    have hΓ₁ := hΓ.later (s.before_bind.trans (hparameters.before.trans hbefore))
    exact hΓ₁.enter_proc (hparameters'.shape.mono hbefore.knows)
  | .func hresult _ hparameters hbody _ => by
    have hresult' :=
      ((Supply.before_bind _).trans hparameters.before).knows _ (hresult.known hΓ.names)
    obtain ⟨hparameters', hΓ'⟩ := hparameters.known_of_routine (hΓ.later hresult.before) nofun
      fun hshapes => ⟨hshapes, hresult'⟩
    have hbefore := hbody.before
    refine ⟨⟨hparameters'.all.mono hbefore.knows, hbefore.knows _ hresult',
      (hbody.known hΓ').1⟩, ?_⟩
    have hΓ₁ := hΓ.later (hresult.before.bind.trans (hparameters.before.trans hbefore))
    exact hΓ₁.enter_func (hparameters'.shape.mono hbefore.knows) (hbefore.knows _ hresult')
  | .sequence hfirst hsecond => by
    have hbefore := hsecond.before
    obtain ⟨hfirst', hΓ₁⟩ := hfirst.known hΓ
    obtain ⟨hsecond', hΓ₂⟩ := hsecond.known hΓ₁
    exact ⟨⟨hfirst'.mono hbefore.knows hbefore.finds, hsecond'⟩, hΓ₂⟩

theorem Actuals.Typed.known {Γ : Env} {s s' : Supply} {actuals actuals' : Actuals}
    {shapes : Signature} (hΓ : Γ.TypesIn s.Knows) :
    Actuals.Typed Γ s actuals shapes actuals' s' → actuals'.All s'.Knows (Finds s'.Knows)
  | .empty => trivial
  | .one hfirst => hfirst.known hΓ
  | .more hfirst hrest => by
    have hbefore := hrest.before
    exact ⟨(hfirst.known hΓ).mono hbefore.knows hbefore.finds,
      hrest.known (hΓ.later hfirst.before)⟩

theorem Actual.Typed.known {Γ : Env} {s s' : Supply} {actual actual' : Actual}
    {shape : FormalShape} (hΓ : Γ.TypesIn s.Knows) :
    Actual.Typed Γ s actual shape actual' s' → actual'.All s'.Knows (Finds s'.Knows)
  | .const hvalue _ => (hvalue.known hΓ).1
  | .var hfound _ _ => (hfound.known hΓ).1
  | .proc _ _ | .func _ _ _ => trivial

end

end TriangleTam
