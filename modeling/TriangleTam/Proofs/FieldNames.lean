import TriangleTam.Proofs.TypeEquivalence
import TriangleTam.Proofs.Typing.Exact

/-! # Names of fields

  A record type comes into a tree in one of two ways: it is written there, or
  it is the type of a record aggregate. Selecting a field takes the first one
  of the name, in the type as in its layout, so that the others of that name
  are out of reach. Checking complains about an aggregate that repeats a name.
  It does not complain about a written type that does, and neither does
  anything behind it: the types left in the tree of an accepted program repeat
  names just where those written in it do.
-/

namespace TriangleTam

/-! ## Names and places -/

namespace Fields

/-- The names of fields, in the order of the chain. -/
def names : Fields → List String
  | .one _ name _ => [name.spelling]
  | .more _ name _ rest => name.spelling :: rest.names

theorem find?_eq_none_iff {name : String} {fields : Fields} :
    fields.find? name = none ↔ name ∉ fields.names := by
  cases fields with
  | one _ field => simp [find?, names, eq_comm]
  | more _ field _ rest =>
    have ih : rest.find? name = none ↔ name ∉ rest.names := find?_eq_none_iff
    by_cases hname : field.spelling = name
    · simp [find?, names, hname]
    · simp [find?, names, hname, Ne.symm hname, ih]

/-- A name stands for the first field that has it, with its type and its offset. -/
theorem reached {k : Nat} {name : String} {type : TypeDenoter} : ∀ {fields : Fields} {offset : Int},
    fields.names[k]? = some name → fields.types[k]? = some type → name ∉ fields.names.take k →
    fields.find? name = some type ∧
      fields.offset? name offset =
        some (Entity.offsetBehind offset ((fields.entities offset).take k)) := by
  induction k with
  | zero =>
    intro fields offset hname htype _
    cases fields <;>
    · obtain rfl := Option.some.inj hname
      obtain rfl := Option.some.inj htype
      exact ⟨if_pos rfl, if_pos rfl⟩
  | succ k ih =>
    intro fields offset hname htype hfirst
    cases fields with
    | one => cases hname
    | more span field first rest =>
      obtain ⟨hne, hfirst⟩ := not_or.1 (mt List.mem_cons.2 hfirst)
      -- the rest of the chain starts behind the first field
      obtain ⟨hfind, hoffset⟩ := ih hname htype hfirst
      exact ⟨(if_neg (Ne.symm hne)).trans hfind, (if_neg (Ne.symm hne)).trans hoffset⟩

end Fields

/-! ## Records in types -/

section records

variable (P : List String → Prop)

mutual

/-- The names of the fields of each record in the denoter satisfy `P`. -/
def TypeDenoter.Records : TypeDenoter → Prop
  | .array _ _ _ element => element.Records
  | .record _ _ fields => P fields.names ∧ fields.Records
  | _ => True

def Fields.Records : Fields → Prop
  | .one _ _ type => type.Records
  | .more _ _ type rest => type.Records ∧ rest.Records

end

end records

variable {P : List String → Prop}

theorem Fields.Records.find? {name : String} {type : TypeDenoter} : ∀ {fields : Fields},
    fields.Records P → fields.find? name = some type → type.Records P
  | .one .., h, hfind => by
    rw [Fields.find?] at hfind
    split at hfind
    · exact Option.some.inj hfind ▸ h
    · cases hfind
  | .more .., ⟨hfirst, hrest⟩, hfind => by
    rw [Fields.find?] at hfind
    split at hfind
    · exact Option.some.inj hfind ▸ hfirst
    · exact hrest.find? hfind

/-- There is no record in the standard environment. -/
theorem Env.standard_records : Env.standard.TypesIn (TypeDenoter.Records P) := by
  intro entry hmem
  refine (Env.standard_typesIn entry hmem).mono fun type (hknown : type.Known []) => ?_
  cases type with
  | array => exact absurd hknown.1 nofun
  | record => exact absurd hknown.1 nofun
  | _ => trivial

/-! ## Written types -/

theorem Fields.Typed.names_eq {Γ : Env} {s s' : Supply} {fields fields' : Fields}
    (h : Fields.Typed Γ s fields fields' s') : fields'.names = fields.names := by
  cases fields with
  | one =>
    cases h
    rfl
  | more =>
    cases h with
    | more _ hrest => exact congrArg (_ :: ·) hrest.names_eq
termination_by structural fields

mutual

theorem TypeDenoter.Typed.records {Γ : Env} {s s' : Supply} {type type' : TypeDenoter}
    (hΓ : Γ.NamesIn (TypeDenoter.Records P)) :
    TypeDenoter.Typed Γ s type type' s' → type.Records P → type'.Records P
  | .boolean, h | .character, h | .integer, h => h
  | .named hfind, _ => hΓ _ (Env.mem_entries_of_find? hfind) _ rfl
  | .array _ helement, h =>
    have helement' := helement.records hΓ
    helement' h
  | .record hfields, ⟨hnames, h⟩ => ⟨hfields.names_eq.symm ▸ hnames, hfields.records hΓ h⟩

theorem Fields.Typed.records {Γ : Env} {s s' : Supply} {fields fields' : Fields}
    (hΓ : Γ.NamesIn (TypeDenoter.Records P)) :
    Fields.Typed Γ s fields fields' s' → fields.Records P → fields'.Records P
  | .one htype, h => htype.records hΓ h
  | .more htype hrest, ⟨h, h'⟩ => ⟨htype.records hΓ h, hrest.records hΓ h'⟩

end

mutual

/-- What is written stays in the tree, but for type identifiers. -/
theorem TypeDenoter.Typed.records_written {Γ : Env} {s s' : Supply} {type type' : TypeDenoter} :
    TypeDenoter.Typed Γ s type type' s' → type'.Records P → type.Records P
  | .boolean, h | .character, h | .integer, h => h
  | .named _, _ => trivial
  | .array _ helement, h =>
    have helement' := helement.records_written
    helement' h
  | .record hfields, ⟨hnames, h⟩ => ⟨hfields.names_eq ▸ hnames, hfields.records_written h⟩

theorem Fields.Typed.records_written {Γ : Env} {s s' : Supply} {fields fields' : Fields} :
    Fields.Typed Γ s fields fields' s' → fields'.Records P → fields.Records P
  | .one htype, h => htype.records_written h
  | .more htype hrest, ⟨h, h'⟩ => ⟨htype.records_written h, hrest.records_written h'⟩

end

mutual

theorem Formal.Typed.records {Γ Γ' : Env} {s s' : Supply} {formal formal' : Formal}
    {shape : FormalShape} (hΓ : Γ.NamesIn (TypeDenoter.Records P)) :
    Formal.Typed Γ s formal formal' shape Γ' s' → formal.All (TypeDenoter.Records P) →
      formal'.All (TypeDenoter.Records P) ∧ shape.TypesIn (TypeDenoter.Records P) ∧
        Γ'.NamesIn (TypeDenoter.Records P)
  | .const htype _, h | .var htype _, h => by
    have htype' := htype.records hΓ h
    exact ⟨htype', htype', hΓ.enter nofun⟩
  | .proc hinner _, h => by
    obtain ⟨hinner', hshapes, -⟩ := hinner.records hΓ.enclose h
    exact ⟨hinner', hshapes, hΓ.enter nofun⟩
  | .func hresult hinner _, ⟨h, h'⟩ => by
    have hresult' := hresult.records hΓ h'
    obtain ⟨hinner', hshapes, -⟩ := hinner.records hΓ.enclose h
    exact ⟨⟨hinner', hresult'⟩, ⟨hshapes, hresult'⟩, hΓ.enter nofun⟩

theorem Formals.Typed.records {Γ Γ' : Env} {s s' : Supply} {formals formals' : Formals}
    {shapes : Signature} (hΓ : Γ.NamesIn (TypeDenoter.Records P)) :
    Formals.Typed Γ s formals formals' shapes Γ' s' → formals.All (TypeDenoter.Records P) →
      formals'.All (TypeDenoter.Records P) ∧ Signature.TypesIn (TypeDenoter.Records P) shapes ∧
        Γ'.NamesIn (TypeDenoter.Records P)
  | .empty, _ => ⟨trivial, trivial, hΓ⟩
  | .one hfirst, h => by
    obtain ⟨hfirst', hshape, hΓ'⟩ := hfirst.records hΓ h
    exact ⟨hfirst', ⟨hshape, trivial⟩, hΓ'⟩
  | .more hfirst hrest, ⟨h, h'⟩ => by
    obtain ⟨hfirst', hshape, hΓ₁⟩ := hfirst.records hΓ h
    obtain ⟨hrest', hshapes, hΓ₂⟩ := hrest.records hΓ₁ h'
    exact ⟨⟨hfirst', hrest'⟩, ⟨hshape, hshapes⟩, hΓ₂⟩

end

mutual

theorem Formal.Typed.records_written {Γ Γ' : Env} {s s' : Supply} {formal formal' : Formal}
    {shape : FormalShape} :
    Formal.Typed Γ s formal formal' shape Γ' s' → formal'.All (TypeDenoter.Records P) →
      formal.All (TypeDenoter.Records P)
  | .const htype _, h | .var htype _, h => htype.records_written h
  | .proc hinner _, h => hinner.records_written h
  | .func hresult hinner _, ⟨h, h'⟩ => ⟨hinner.records_written h, hresult.records_written h'⟩

theorem Formals.Typed.records_written {Γ Γ' : Env} {s s' : Supply} {formals formals' : Formals}
    {shapes : Signature} :
    Formals.Typed Γ s formals formals' shapes Γ' s' → formals'.All (TypeDenoter.Records P) →
      formals.All (TypeDenoter.Records P)
  | .empty, _ => trivial
  | .one hfirst, h => hfirst.records_written h
  | .more hfirst hrest, ⟨h, h'⟩ => ⟨hfirst.records_written h, hrest.records_written h'⟩

end

/-- The parameters of a routine, what is declared with it and what its body sees. -/
theorem Formals.Typed.records_of_routine {Γ Γ' : Env} {s s' : Supply} {id : BindingId}
    {name : String} {kind : BindingKind} {formals formals' : Formals} {shapes : Signature}
    (h : Formals.Typed (Γ.enter name id kind).enclose s formals formals' shapes Γ' s')
    (hΓ : Γ.TypesIn (TypeDenoter.Records P)) (hno : ∀ type, kind ≠ .type type)
    (hkind : Signature.TypesIn (TypeDenoter.Records P) shapes →
      kind.TypesIn (TypeDenoter.Records P))
    (hformals : formals.All (TypeDenoter.Records P)) :
    formals'.All (TypeDenoter.Records P) ∧
      (Γ.enter name id kind).TypesIn (TypeDenoter.Records P) ∧
        Γ'.TypesIn (TypeDenoter.Records P) := by
  -- the parameters see the routine, whose own types are not known before theirs are
  have hnames : (Γ.enter name id kind).NamesIn (TypeDenoter.Records P) :=
    hΓ.names.enter fun type heq => absurd heq (hno type)
  obtain ⟨hformals', hshapes, -⟩ := h.records hnames.enclose hformals
  have henter : (Γ.enter name id kind).TypesIn (TypeDenoter.Records P) :=
    hΓ.enter (hkind hshapes)
  exact ⟨hformals', henter, h.env_typesIn hshapes henter.enclose⟩

/-! ## Types that are found -/

section found

-- aggregates give their records distinct names
variable (hP : ∀ names : List String, names.Nodup → P names) {found : Option TypeDenoter → Prop}

include hP

-- each theorem of the block needs `hP` for its calls of the others
set_option linter.unusedSectionVars false

mutual

/-- The records found in a tree are written there, or those of aggregates. -/
theorem Command.Typed.records {Γ : Env} {s s' : Supply} {command command' : Command}
    (hΓ : Γ.TypesIn (TypeDenoter.Records P)) :
    Command.Typed Γ s command command' s' → command.All (TypeDenoter.Records P) found →
      command'.All (TypeDenoter.Records P) (Finds (TypeDenoter.Records P))
  | .empty, _ => trivial
  | .assign htarget hvalue _ _, ⟨h, h'⟩ => ⟨(htarget.records hΓ h).1, (hvalue.records hΓ h').1⟩
  | .call _ hargs, h => hargs.records hΓ h
  | .sequence hfirst hsecond, ⟨h, h'⟩ => ⟨hfirst.records hΓ h, hsecond.records hΓ h'⟩
  | .letIn hdeclared hbody, ⟨h, h'⟩ => by
    obtain ⟨hdeclared', hΓ'⟩ := hdeclared.records hΓ.enclose h
    exact ⟨hdeclared', hbody.records hΓ' h'⟩
  | .ifElse hcondition hthen helse, ⟨h, h', h''⟩ =>
    ⟨(hcondition.records hΓ h).1, hthen.records hΓ h', helse.records hΓ h''⟩
  | .whileDo hcondition hbody, ⟨h, h'⟩ => ⟨(hcondition.records hΓ h).1, hbody.records hΓ h'⟩
  | .repeatUntil hbody hcondition, ⟨h, h'⟩ => ⟨hbody.records hΓ h, (hcondition.records hΓ h').1⟩
  | .loopWhile hbody hcondition htail, ⟨h, h', h''⟩ =>
    ⟨hbody.records hΓ h, (hcondition.records hΓ h').1, htail.records hΓ h''⟩

theorem Expression.Typed.records {Γ : Env} {s s' : Supply} {expression expression' : Expression}
    {type : TypeDenoter} (hΓ : Γ.TypesIn (TypeDenoter.Records P)) :
    Expression.Typed Γ s expression expression' type s' →
      expression.All (TypeDenoter.Records P) found →
      expression'.All (TypeDenoter.Records P) (Finds (TypeDenoter.Records P)) ∧ type.Records P
  | .integer, _ | .character, _ => ⟨.some trivial, trivial⟩
  | .vname hfound, ⟨_, h⟩ => by
    obtain ⟨hfound', htype⟩ := hfound.records hΓ h
    exact ⟨⟨.some htype, hfound'⟩, htype⟩
  | .call hfind hargs, ⟨_, h⟩ => by
    -- the result is a type of the environment
    have hresult := (hΓ.find? hfind).2
    exact ⟨⟨.some hresult, hargs.records hΓ h⟩, hresult⟩
  | .ifElse hcondition hthen helse _, ⟨_, h, h', h''⟩ => by
    obtain ⟨hthen', htype⟩ := hthen.records hΓ h'
    exact ⟨⟨.some htype, (hcondition.records hΓ h).1, hthen', (helse.records hΓ h'').1⟩, htype⟩
  | .letIn hdeclared hbody, ⟨_, h, h'⟩ => by
    obtain ⟨hdeclared', hΓ'⟩ := hdeclared.records hΓ.enclose h
    obtain ⟨hbody', htype⟩ := hbody.records hΓ' h'
    exact ⟨⟨.some htype, hdeclared', hbody'⟩, htype⟩
  | .unary hoperand hfind _, ⟨_, h⟩ => by
    have hresult := (hΓ.find? hfind).2
    exact ⟨⟨.some hresult, (hoperand.records hΓ h).1⟩, hresult⟩
  | .binary hleft hright hfind _ _, ⟨_, h, h'⟩ | .equality hleft hright hfind _, ⟨_, h, h'⟩ => by
    have hresult := (hΓ.find? hfind).2
    exact ⟨⟨.some hresult, (hleft.records hΓ h).1, (hright.records hΓ h').1⟩, hresult⟩
  | .array helements, ⟨_, h⟩ => by
    obtain ⟨helements', helement⟩ := helements.records hΓ h
    exact ⟨⟨.some helement, helements'⟩, helement⟩
  | .record hfields, ⟨_, h⟩ => by
    obtain ⟨hfields', hnames, htypes⟩ := hfields.records hΓ h
    -- the only new record is that of the aggregate, whose field names were told apart
    exact ⟨⟨.some ⟨hP _ hnames, htypes⟩, hfields'⟩, hP _ hnames, htypes⟩

theorem ArrayAggregate.Typed.records {Γ : Env} {s s' : Supply}
    {elements elements' : ArrayAggregate} {type : TypeDenoter}
    (hΓ : Γ.TypesIn (TypeDenoter.Records P)) :
    ArrayAggregate.Typed Γ s elements elements' type s' →
      elements.All (TypeDenoter.Records P) found →
      elements'.All (TypeDenoter.Records P) (Finds (TypeDenoter.Records P)) ∧ type.Records P
  | .one helement, h => helement.records hΓ h
  | .more helement hrest _, ⟨h, h'⟩ => by
    obtain ⟨helement', htype⟩ := helement.records hΓ h
    exact ⟨⟨helement', (hrest.records hΓ h').1⟩, htype⟩

/-- The names of an aggregate are distinct. -/
theorem RecordAggregate.Typed.records {Γ : Env} {s s' : Supply}
    {fields fields' : RecordAggregate} {types : Fields} (hΓ : Γ.TypesIn (TypeDenoter.Records P)) :
    RecordAggregate.Typed Γ s fields fields' types s' →
      fields.All (TypeDenoter.Records P) found →
      fields'.All (TypeDenoter.Records P) (Finds (TypeDenoter.Records P)) ∧
        types.names.Nodup ∧ types.Records P
  | .one hvalue, h => by
    obtain ⟨hvalue', htype⟩ := hvalue.records hΓ h
    exact ⟨hvalue', List.nodup_singleton _, htype⟩
  | .more hvalue hrest hnew, ⟨h, h'⟩ => by
    obtain ⟨hvalue', htype⟩ := hvalue.records hΓ h
    obtain ⟨hrest', hnames, htypes⟩ := hrest.records hΓ h'
    -- the name was looked for among those behind it
    exact ⟨⟨hvalue', hrest'⟩, List.nodup_cons.2 ⟨Fields.find?_eq_none_iff.1 hnew, hnames⟩,
      htype, htypes⟩

theorem Vname.Typed.records {Γ : Env} {s s' : Supply} {vname vname' : Vname}
    {type : TypeDenoter} (hΓ : Γ.TypesIn (TypeDenoter.Records P)) :
    Vname.Typed Γ s vname vname' type s' → vname.All (TypeDenoter.Records P) found →
      vname'.All (TypeDenoter.Records P) (Finds (TypeDenoter.Records P)) ∧ type.Records P
  | .const hfind, _ | .var hfind, _ => ⟨.some (hΓ.find? hfind), hΓ.find? hfind⟩
  | .dot hrecord hfind, ⟨_, h⟩ => by
    obtain ⟨hrecord', -, hfields⟩ := hrecord.records hΓ h
    have hfield := hfields.find? hfind
    exact ⟨⟨.some hfield, hrecord'⟩, hfield⟩
  | .subscript harray hindex, ⟨_, h, h'⟩ => by
    obtain ⟨harray', helement⟩ := harray.records hΓ h
    exact ⟨⟨.some helement, harray', (hindex.records hΓ h').1⟩, helement⟩

theorem Declaration.Typed.records {Γ Γ' : Env} {s s' : Supply}
    {declaration declaration' : Declaration} (hΓ : Γ.TypesIn (TypeDenoter.Records P)) :
    Declaration.Typed Γ s declaration declaration' Γ' s' →
      declaration.All (TypeDenoter.Records P) found →
      declaration'.All (TypeDenoter.Records P) (Finds (TypeDenoter.Records P)) ∧
        Γ'.TypesIn (TypeDenoter.Records P)
  | .const hvalue _, h => by
    obtain ⟨hvalue', htype⟩ := hvalue.records hΓ h
    exact ⟨hvalue', hΓ.enter htype⟩
  | .var htype _, h | .type htype _, h => by
    have htype' := htype.records hΓ.names h
    exact ⟨htype', hΓ.enter htype'⟩
  | .proc _ hparameters hbody, ⟨h, h'⟩ => by
    obtain ⟨hparameters', henter, hΓ'⟩ := hparameters.records_of_routine hΓ nofun id h
    exact ⟨⟨hparameters', hbody.records hΓ' h'⟩, henter⟩
  | .func hresult _ hparameters hbody _, ⟨h, h', h''⟩ => by
    have hresult' := hresult.records hΓ.names h'
    obtain ⟨hparameters', henter, hΓ'⟩ :=
      hparameters.records_of_routine hΓ nofun (fun hshapes => ⟨hshapes, hresult'⟩) h
    exact ⟨⟨hparameters', hresult', (hbody.records hΓ' h'').1⟩, henter⟩
  | .sequence hfirst hsecond, ⟨h, h'⟩ => by
    obtain ⟨hfirst', hΓ₁⟩ := hfirst.records hΓ h
    obtain ⟨hsecond', hΓ₂⟩ := hsecond.records hΓ₁ h'
    exact ⟨⟨hfirst', hsecond'⟩, hΓ₂⟩

theorem Actuals.Typed.records {Γ : Env} {s s' : Supply} {actuals actuals' : Actuals}
    {shapes : Signature} (hΓ : Γ.TypesIn (TypeDenoter.Records P)) :
    Actuals.Typed Γ s actuals shapes actuals' s' → actuals.All (TypeDenoter.Records P) found →
      actuals'.All (TypeDenoter.Records P) (Finds (TypeDenoter.Records P))
  | .empty, _ => trivial
  | .one hfirst, h => hfirst.records hΓ h
  | .more hfirst hrest, ⟨h, h'⟩ => ⟨hfirst.records hΓ h, hrest.records hΓ h'⟩

theorem Actual.Typed.records {Γ : Env} {s s' : Supply} {actual actual' : Actual}
    {shape : FormalShape} (hΓ : Γ.TypesIn (TypeDenoter.Records P)) :
    Actual.Typed Γ s actual shape actual' s' → actual.All (TypeDenoter.Records P) found →
      actual'.All (TypeDenoter.Records P) (Finds (TypeDenoter.Records P))
  | .const hvalue _, h => (hvalue.records hΓ h).1
  | .var hfound _ _, h => (hfound.records hΓ h).1
  | .proc _ _, _ | .func _ _ _, _ => trivial

end

end found

section written

variable {found : Option TypeDenoter → Prop}

mutual

/-- The records written in a tree are left there. -/
theorem Command.Typed.records_written {Γ : Env} {s s' : Supply} {command command' : Command} :
    Command.Typed Γ s command command' s' → command'.All (TypeDenoter.Records P) found →
      command.All (TypeDenoter.Records P) fun _ => True
  | .empty, _ => trivial
  | .assign htarget hvalue _ _, ⟨h, h'⟩ => ⟨htarget.records_written h, hvalue.records_written h'⟩
  | .call _ hargs, h => hargs.records_written h
  | .sequence hfirst hsecond, ⟨h, h'⟩ => ⟨hfirst.records_written h, hsecond.records_written h'⟩
  | .letIn hdeclared hbody, ⟨h, h'⟩ => ⟨hdeclared.records_written h, hbody.records_written h'⟩
  | .ifElse hcondition hthen helse, ⟨h, h', h''⟩ =>
    ⟨hcondition.records_written h, hthen.records_written h', helse.records_written h''⟩
  | .whileDo hcondition hbody, ⟨h, h'⟩ => ⟨hcondition.records_written h, hbody.records_written h'⟩
  | .repeatUntil hbody hcondition, ⟨h, h'⟩ =>
    ⟨hbody.records_written h, hcondition.records_written h'⟩
  | .loopWhile hbody hcondition htail, ⟨h, h', h''⟩ =>
    ⟨hbody.records_written h, hcondition.records_written h', htail.records_written h''⟩

theorem Expression.Typed.records_written {Γ : Env} {s s' : Supply}
    {expression expression' : Expression} {type : TypeDenoter} :
    Expression.Typed Γ s expression expression' type s' →
      expression'.All (TypeDenoter.Records P) found →
      expression.All (TypeDenoter.Records P) fun _ => True
  | .integer, _ | .character, _ => trivial
  | .vname hfound, ⟨_, h⟩ => ⟨trivial, hfound.records_written h⟩
  | .call _ hargs, ⟨_, h⟩ => ⟨trivial, hargs.records_written h⟩
  | .ifElse hcondition hthen helse _, ⟨_, h, h', h''⟩ =>
    ⟨trivial, hcondition.records_written h, hthen.records_written h', helse.records_written h''⟩
  | .letIn hdeclared hbody, ⟨_, h, h'⟩ =>
    ⟨trivial, hdeclared.records_written h, hbody.records_written h'⟩
  | .unary hoperand _ _, ⟨_, h⟩ => ⟨trivial, hoperand.records_written h⟩
  | .binary hleft hright _ _ _, ⟨_, h, h'⟩ | .equality hleft hright _ _, ⟨_, h, h'⟩ =>
    ⟨trivial, hleft.records_written h, hright.records_written h'⟩
  | .array helements, ⟨_, h⟩ => ⟨trivial, helements.records_written h⟩
  | .record hfields, ⟨_, h⟩ => ⟨trivial, hfields.records_written h⟩

theorem ArrayAggregate.Typed.records_written {Γ : Env} {s s' : Supply}
    {elements elements' : ArrayAggregate} {type : TypeDenoter} :
    ArrayAggregate.Typed Γ s elements elements' type s' →
      elements'.All (TypeDenoter.Records P) found →
      elements.All (TypeDenoter.Records P) fun _ => True
  | .one helement, h => helement.records_written h
  | .more helement hrest _, ⟨h, h'⟩ => ⟨helement.records_written h, hrest.records_written h'⟩

theorem RecordAggregate.Typed.records_written {Γ : Env} {s s' : Supply}
    {fields fields' : RecordAggregate} {types : Fields} :
    RecordAggregate.Typed Γ s fields fields' types s' →
      fields'.All (TypeDenoter.Records P) found → fields.All (TypeDenoter.Records P) fun _ => True
  | .one hvalue, h => hvalue.records_written h
  | .more hvalue hrest _, ⟨h, h'⟩ => ⟨hvalue.records_written h, hrest.records_written h'⟩

theorem Vname.Typed.records_written {Γ : Env} {s s' : Supply} {vname vname' : Vname}
    {type : TypeDenoter} :
    Vname.Typed Γ s vname vname' type s' → vname'.All (TypeDenoter.Records P) found →
      vname.All (TypeDenoter.Records P) fun _ => True
  | .const _, _ | .var _, _ => trivial
  | .dot hrecord _, ⟨_, h⟩ => ⟨trivial, hrecord.records_written h⟩
  | .subscript harray hindex, ⟨_, h, h'⟩ =>
    ⟨trivial, harray.records_written h, hindex.records_written h'⟩

theorem Declaration.Typed.records_written {Γ Γ' : Env} {s s' : Supply}
    {declaration declaration' : Declaration} :
    Declaration.Typed Γ s declaration declaration' Γ' s' →
      declaration'.All (TypeDenoter.Records P) found →
      declaration.All (TypeDenoter.Records P) fun _ => True
  | .const hvalue _, h => hvalue.records_written h
  | .var htype _, h | .type htype _, h => htype.records_written h
  | .proc _ hparameters hbody, ⟨h, h'⟩ =>
    ⟨hparameters.records_written h, hbody.records_written h'⟩
  | .func hresult _ hparameters hbody _, ⟨h, h', h''⟩ =>
    ⟨hparameters.records_written h, hresult.records_written h', hbody.records_written h''⟩
  | .sequence hfirst hsecond, ⟨h, h'⟩ => ⟨hfirst.records_written h, hsecond.records_written h'⟩

theorem Actuals.Typed.records_written {Γ : Env} {s s' : Supply} {actuals actuals' : Actuals}
    {shapes : Signature} :
    Actuals.Typed Γ s actuals shapes actuals' s' → actuals'.All (TypeDenoter.Records P) found →
      actuals.All (TypeDenoter.Records P) fun _ => True
  | .empty, _ => trivial
  | .one hfirst, h => hfirst.records_written h
  | .more hfirst hrest, ⟨h, h'⟩ => ⟨hfirst.records_written h, hrest.records_written h'⟩

theorem Actual.Typed.records_written {Γ : Env} {s s' : Supply} {actual actual' : Actual}
    {shape : FormalShape} :
    Actual.Typed Γ s actual shape actual' s' → actual'.All (TypeDenoter.Records P) found →
      actual.All (TypeDenoter.Records P) fun _ => True
  | .const hvalue _, h => hvalue.records_written h
  | .var hfound _ _, h => hfound.records_written h
  | .proc _ _, _ | .func _ _ _, _ => trivial

end

end written

/-- In the decoration of a program, all records are as those written in the program. -/
theorem Program.Typed.records_iff {program decorated : Program} (h : program.Typed decorated)
    (hP : ∀ names : List String, names.Nodup → P names) :
    decorated.command.All (TypeDenoter.Records P) (Finds (TypeDenoter.Records P)) ↔
      program.command.All (TypeDenoter.Records P) fun _ => True := by
  obtain ⟨htyped⟩ := h
  exact ⟨htyped.records_written, htyped.records hP Env.standard_records⟩

/-! ## Selecting fields -/

namespace Check

/-- A vname is given the type that is found of it. -/
theorem type_vname (found : Vname) (s : Checker) :
    ((vname found).exec s).1.1.type = some ((vname found).exec s).1.2 := by
  cases found with
  | simple span type isVariable name =>
    rw [vname, exec_bind]
    -- whatever was found, the same type is noted and returned
    generalize (lookup? name.spelling).exec s = looked
    obtain ⟨_ | ⟨id, kind⟩, s'⟩ := looked
    · rfl
    · cases kind <;> rfl
  | dot span before isVariable record field =>
    rw [vname, exec_bind]
    generalize (vname record).exec s = result
    obtain ⟨⟨record', recordType⟩, s'⟩ := result
    cases recordType with
    | record serial recordSpan fields =>
      dsimp only
      cases fields.find? field.spelling <;> rfl
    | _ => rfl
  | subscript span before isVariable array index =>
    rw [vname, exec_bind]
    generalize (vname array).exec s = result
    obtain ⟨⟨array', arrayType⟩, s'⟩ := result
    dsimp only
    rw [exec_bind]
    generalize (expression index).exec s' = result
    obtain ⟨⟨index', indexType⟩, s''⟩ := result
    cases arrayType with
    | array serial arraySpan length element =>
      dsimp only
      cases indexType.compatible .integer <;> rfl
    | _ => rfl

end Check

/-- However a record with the fields was found, its field of the name is found without a report:
    it is of the type, and encoding finds it at the offset. -/
def Fields.Selects (fields : Fields) (name : String) (type : TypeDenoter) (offset : Int) : Prop :=
  ∀ (record record' : Vname) (s s' : Checker) (serial : Nat) (recordSpan : Span),
    (Check.vname record).exec s = ((record', .record serial recordSpan fields), s') →
    ∀ (span : Span) (before : Option TypeDenoter) (isVariable : Bool) (field : Name),
      field.spelling = name →
      (Check.vname (.dot span before isVariable record field)).exec s =
          ((.dot span (some type) record'.isVariable record' field, type), s') ∧
        ∀ e : Encoder, ((Encode.fieldOffset record' field).exec e).1 = .ok offset

namespace Fields

/-- What the type and its layout find for the name is what selecting the name finds. -/
theorem selects {fields : Fields} {name : String} {type : TypeDenoter} {offset : Int}
    (hfind : fields.find? name = some type) (hoffset : fields.offset? name 0 = some offset) :
    fields.Selects name type offset := by
  rintro record record' s s' serial recordSpan hrecord span before isVariable field rfl
  refine ⟨?_, fun e => ?_⟩
  · rw [Check.vname, Check.exec_bind, hrecord]
    dsimp only
    rw [hfind]
    rfl
  · have htype : record'.type = some (.record serial recordSpan fields) := by
      have h := Check.type_vname record s
      rwa [hrecord] at h
    exact (Encode.fieldOffset_eq_ok_iff htype field offset e).2 hoffset

/-- The offset of the field at a place in the chain. -/
def offsetAt (fields : Fields) (k : Nat) : Int :=
  Entity.offsetBehind 0 ((fields.entities 0).take k)

/-- Selecting a name finds the first field that has it. -/
theorem selects_first {fields : Fields} {k : Nat} {name : String} {type : TypeDenoter}
    (hname : fields.names[k]? = some name) (htype : fields.types[k]? = some type)
    (hfirst : name ∉ fields.names.take k) : fields.Selects name type (fields.offsetAt k) := by
  obtain ⟨hfind, hoffset⟩ := reached hname htype hfirst
  exact selects hfind hoffset

/-- Among distinct names, each is the first of its kind. -/
theorem not_mem_take_of_nodup {fields : Fields} (h : fields.names.Nodup) {k : Nat} {name : String}
    (hname : fields.names[k]? = some name) : name ∉ fields.names.take k := by
  intro hmem
  obtain ⟨j, hlt, hj⟩ := List.mem_take_iff_getElem.1 hmem
  obtain ⟨hk, rfl⟩ := List.getElem?_eq_some_iff.1 hname
  exact absurd ((h.getElem_inj_iff).1 hj) (by omega)

theorem length_types (fields : Fields) : fields.types.length = fields.names.length := by
  cases fields with
  | one => rfl
  | more _ _ _ rest => exact congrArg (· + 1) rest.length_types

/-- A name of a field has a first place. -/
theorem exists_first {fields : Fields} {name : String} (h : name ∈ fields.names) :
    ∃ k type, fields.names[k]? = some name ∧ fields.types[k]? = some type ∧
      name ∉ fields.names.take k := by
  obtain ⟨earlier, later, hnames, hnew⟩ := List.eq_append_cons_of_mem h
  have hat : fields.names[earlier.length]? = some name := by simp [hnames]
  have hlt : earlier.length < fields.types.length := by
    rw [length_types]
    exact (List.getElem?_eq_some_iff.1 hat).1
  exact ⟨earlier.length, _, hat, List.getElem?_eq_getElem hlt, by simpa [hnames] using hnew⟩

end Fields

/-! ## The theorem -/

/-- Checking finds no fault in the names of written record types. In an accepted program they are
    left as they are, and all other record types have distinct names: so the record types in the
    decorated tree have distinct names if and only if those that are written do. Where names are
    distinct, each field is selected by its name, with its own type and offset. In any case a name
    selects the first field that has it. -/
theorem Program.check_fields {text : String} {program : Program}
    (hparse : Program.parse text = .ok program) (journal : Journal)
    (hquiet : (program.check journal).journal.diagnostics = journal.diagnostics) :
    let decorated := (program.check journal).program
    (decorated.command.All (TypeDenoter.Records List.Nodup)
        (Finds (TypeDenoter.Records List.Nodup)) ↔
      program.command.All (TypeDenoter.Records List.Nodup) fun _ => True) ∧
    (∀ P : List String → Prop, (∀ names, names.Nodup → P names) →
      (decorated.command.All (TypeDenoter.Records P) (Finds (TypeDenoter.Records P)) ↔
        program.command.All (TypeDenoter.Records P) fun _ => True)) ∧
    (∀ (fields : Fields) (k : Nat) (name : String) (type : TypeDenoter), fields.names.Nodup →
      fields.names[k]? = some name → fields.types[k]? = some type →
      fields.Selects name type (fields.offsetAt k)) ∧
    ∀ (fields : Fields) (name : String), name ∈ fields.names →
      ∃ k type, fields.names[k]? = some name ∧ fields.types[k]? = some type ∧
        name ∉ fields.names.take k ∧ fields.Selects name type (fields.offsetAt k) := by
  intro decorated
  have htyped : program.Typed decorated :=
    Program.typed_of_check (Program.proper_of_parse hparse) hquiet
  refine ⟨htyped.records_iff fun _ => id, fun P hP => htyped.records_iff hP,
    fun fields k name type hnames hname htype => ?_, fun fields name hmem => ?_⟩
  · exact Fields.selects_first hname htype (Fields.not_mem_take_of_nodup hnames hname)
  · obtain ⟨k, type, hname, htype, hfirst⟩ := Fields.exists_first hmem
    exact ⟨k, type, hname, htype, hfirst, Fields.selects_first hname htype hfirst⟩

/-- A record type with two fields is all that the command declares, and it does nothing. -/
private def declaresTwo : Command → Bool
  | .letIn _ (.type _ _ _ (.record _ _ (.more _ a (.named ..) (.one _ b (.named ..)))))
      (.empty _) => a.spelling != b.spelling
  | _ => false

private theorem records_of_declaresTwo {command : Command} (h : declaresTwo command = true) :
    command.All (TypeDenoter.Records List.Nodup) fun _ => True := by
  unfold declaresTwo at h
  split at h
  · next a _ _ _ b _ _ _ =>
    have hnames : [a.spelling, b.spelling].Nodup := by simpa using h
    exact ⟨⟨hnames, trivial, trivial⟩, trivial⟩
  · cases h

/-- The type of two fields. -/
private def twoFields : Fields :=
  .more .nowhere ⟨"a", .nowhere, none⟩ .integer (.one .nowhere ⟨"b", .nowhere, none⟩ .character)

/-- A record type with two names is declared and left with two, and the second field is behind the
    first. -/
theorem Program.check_fields_two :
    ∃ program, Program.parse "let type R ~ record a: Integer, b: Char end in" = .ok program ∧
      (program.check .empty).program.command.All (TypeDenoter.Records List.Nodup)
        (Finds (TypeDenoter.Records List.Nodup)) ∧
      twoFields.Selects "b" .character 1 := by
  have hsample : (Program.parse "let type R ~ record a: Integer, b: Char end in").toOption.any
      (fun program => declaresTwo program.command &&
        (program.check .empty).journal.diagnostics.isEmpty) = true := by decide +kernel
  cases hok : Program.parse "let type R ~ record a: Integer, b: Char end in" with
  | error d =>
    rw [hok] at hsample
    cases hsample
  | ok program =>
    rw [hok] at hsample
    obtain ⟨htwo, hquiet⟩ := Bool.and_eq_true_iff.1 hsample
    obtain ⟨hiff, -, hselects, -⟩ := check_fields hok .empty (Array.isEmpty_iff.1 hquiet)
    exact ⟨program, rfl, hiff.2 (records_of_declaresTwo htwo),
      hselects twoFields 1 "b" .character (by decide) rfl rfl⟩

/-- The names of the record type of a variable, which is all that a command declares. -/
private def variableNames? : Command → Option (List String)
  | .letIn _ (.var _ _ _ (.record _ _ fields)) _ => some fields.names
  | _ => none

private theorem of_variableNames? {command : Command} {names : List String}
    {found : Option TypeDenoter → Prop} (h : variableNames? command = some names)
    (hall : command.All (TypeDenoter.Records P) found) : P names := by
  unfold variableNames? at h
  split at h
  · cases h
    exact hall.1.1
  · cases h

/-- A program is accepted with a record type that has one name twice. -/
theorem Program.check_fields_repeated :
    ∃ program, Program.parse "let var r: record a: Integer, a: Char end in r.a := 1" = .ok program ∧
      (program.check .empty).journal.diagnostics = #[] ∧
      ¬ (program.check .empty).program.command.All (TypeDenoter.Records List.Nodup)
        (Finds (TypeDenoter.Records List.Nodup)) := by
  have hsample : (Program.parse
      "let var r: record a: Integer, a: Char end in r.a := 1").toOption.any (fun program =>
        (program.check .empty).journal.diagnostics.isEmpty &&
          decide (variableNames? (program.check .empty).program.command = some ["a", "a"])) =
            true := by decide +kernel
  cases hok : Program.parse "let var r: record a: Integer, a: Char end in r.a := 1" with
  | error d =>
    rw [hok] at hsample
    cases hsample
  | ok program =>
    rw [hok] at hsample
    obtain ⟨hquiet, hnames⟩ := Bool.and_eq_true_iff.1 hsample
    refine ⟨program, rfl, Array.isEmpty_iff.1 hquiet, fun hall => ?_⟩
    have hnodup : ["a", "a"].Nodup := of_variableNames? (of_decide_eq_true hnames) hall
    exact absurd hnodup (by decide)

end TriangleTam
