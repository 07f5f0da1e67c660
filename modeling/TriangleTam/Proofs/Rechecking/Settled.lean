import TriangleTam.Proofs.Recast.Bindings
import TriangleTam.Proofs.Typing.Known

/-! # Typing settled trees again

  A decorated tree is typed again like any other. Its denoters are **settled**:
  no name in them is left to resolve, and no array in them is empty. Resolving
  a settled denoter makes it anew, with other serials and nothing else changed.

  So what types a tree types its decoration as well, in an environment that
  differs in serials alone, and the second decoration differs from the first
  in serials alone.
-/

namespace TriangleTam

/-- Serials are forgotten. Everything else stays as it is. -/
def Recast.unnumbered : Recast :=
  { serial := fun _ => 0, injective := Function.injective_id, empty := id_eq _ }

open Recast (unnumbered)

@[simp] theorem Recast.spelling_unnumbered (spelling : String) :
    unnumbered.spelling spelling = spelling := rfl

@[simp] theorem Recast.span_unnumbered (span : Span) : unnumbered.span span = span := rfl

@[simp] theorem Recast.serial_unnumbered (serial : Nat) : unnumbered.serial serial = 0 := rfl

@[simp] theorem Name.recast_unnumbered (name : Name) : name.recast unnumbered = name := rfl

@[simp] theorem IntegerLiteral.recast_unnumbered (literal : IntegerLiteral) :
    literal.recast unnumbered = literal := rfl

@[simp] theorem CharacterLiteral.recast_unnumbered (literal : CharacterLiteral) :
    literal.recast unnumbered = literal := rfl

/-- Types that differ in serials alone are equivalent to the same types. -/
theorem TypeDenoter.equivalent_congr {a a₂ b b₂ : TypeDenoter}
    (ha : a₂.recast unnumbered = a.recast unnumbered)
    (hb : b₂.recast unnumbered = b.recast unnumbered) : a₂.equivalent b₂ = a.equivalent b := by
  rw [← TypeDenoter.equivalent_recast unnumbered, ha, hb, TypeDenoter.equivalent_recast]

theorem Signature.equivalent_congr {a a₂ b b₂ : Signature}
    (ha : Signature.recast unnumbered a₂ = Signature.recast unnumbered a)
    (hb : Signature.recast unnumbered b₂ = Signature.recast unnumbered b) :
    Signature.equivalent a₂ b₂ = Signature.equivalent a b := by
  rw [← Signature.equivalent_recast unnumbered, ha, hb, Signature.equivalent_recast]

mutual

/-- A resolved type is equivalent to itself. -/
theorem TypeDenoter.Resolved.equivalent_self : ∀ {type : TypeDenoter}, type.Resolved →
    type.equivalent type = true
  | .boolean, _ | .character, _ | .integer, _ => rfl
  | .array _ _ _ element, h => by
    have helement : element.Resolved := h
    simp [TypeDenoter.equivalent, helement.equivalent_self]
  | .record _ _ fields, h => by
    have hfields : fields.Resolved := h
    simp [TypeDenoter.equivalent, hfields.equivalent_self]

theorem Fields.Resolved.equivalent_self : ∀ {fields : Fields}, fields.Resolved →
    fields.equivalent fields = true
  | .one _ _ type, h => by
    have htype : type.Resolved := h
    simp [Fields.equivalent, htype.equivalent_self]
  | .more .., ⟨htype, hrest⟩ => by
    simp [Fields.equivalent, htype.equivalent_self, hrest.equivalent_self]

end

/-- A resolved type is equivalent to what differs from it in serials alone. -/
theorem TypeDenoter.Resolved.equivalent_of_unnumbered {type type₂ : TypeDenoter}
    (h : type.Resolved) (heq : type₂.recast unnumbered = type.recast unnumbered) :
    type.equivalent type₂ = true :=
  (equivalent_congr rfl heq).trans h.equivalent_self

/-- Only `Boolean` is `Boolean`, with whatever serials. -/
theorem TypeDenoter.eq_boolean {type : TypeDenoter}
    (h : type.recast unnumbered = TypeDenoter.boolean.recast unnumbered) : type = .boolean := by
  cases type <;> first | rfl | cases h

theorem TypeDenoter.eq_integer {type : TypeDenoter}
    (h : type.recast unnumbered = TypeDenoter.integer.recast unnumbered) : type = .integer := by
  cases type <;> first | rfl | cases h

theorem TypeDenoter.eq_any {type : TypeDenoter}
    (h : type.recast unnumbered = TypeDenoter.any.recast unnumbered) : type = .any := by
  cases type <;> first | rfl | cases h

/-- Fields that differ in serials alone have the same names. -/
theorem Fields.find?_congr {fields fields₂ : Fields}
    (h : fields₂.recast unnumbered = fields.recast unnumbered) (name : String) :
    (fields₂.find? name).map (·.recast unnumbered) =
      (fields.find? name).map (·.recast unnumbered) := by
  rw [← Fields.find?_recast, h, Fields.find?_recast]

theorem Fields.find?_none_congr {fields fields₂ : Fields} {name : String}
    (h : fields₂.recast unnumbered = fields.recast unnumbered) (hnone : fields.find? name = none) :
    fields₂.find? name = none := by
  have hboth := find?_congr h name
  rw [hnone] at hboth
  exact Option.map_eq_none_iff.1 hboth

theorem Fields.find?_some_congr {fields fields₂ : Fields} {name : String} {type : TypeDenoter}
    (h : fields₂.recast unnumbered = fields.recast unnumbered)
    (hsome : fields.find? name = some type) :
    ∃ type₂, fields₂.find? name = some type₂ ∧
      type₂.recast unnumbered = type.recast unnumbered := by
  have hboth := find?_congr h name
  rw [hsome] at hboth
  exact Option.map_eq_some_iff.1 hboth

theorem Vname.isVariable_congr {vname vname₂ : Vname}
    (h : vname₂.recast unnumbered = vname.recast unnumbered) :
    vname₂.isVariable = vname.isVariable := by
  rw [← Vname.isVariable_recast unnumbered, h, Vname.isVariable_recast]

/-! ## Settled denoters -/

mutual

/-- No name in the denoter is left to resolve, and its arrays are not empty. -/
def TypeDenoter.Settled : TypeDenoter → Prop
  | .boolean | .character | .integer => True
  | .any | .error | .named .. => False
  | .array _ _ length element => 0 < length.value ∧ element.Settled
  | .record _ _ fields => fields.Settled

def Fields.Settled : Fields → Prop
  | .one _ _ type => type.Settled
  | .more _ _ type rest => type.Settled ∧ rest.Settled

end

mutual

/-- What a denoter is resolved to is settled. -/
theorem TypeDenoter.Typed.settled {Γ : Env} {s s' : Supply} {type type' : TypeDenoter}
    (hΓ : Γ.NamesIn TypeDenoter.Settled) : TypeDenoter.Typed Γ s type type' s' → type'.Settled
  | .boolean | .character | .integer => trivial
  | .named hfind => hΓ _ (Env.mem_entries_of_find? hfind) _ rfl
  | .array hlength helement => ⟨hlength, helement.settled hΓ⟩
  | .record hfields => by
    have hsettled := hfields.settled hΓ
    exact hsettled

theorem Fields.Typed.settled {Γ : Env} {s s' : Supply} {fields fields' : Fields}
    (hΓ : Γ.NamesIn TypeDenoter.Settled) : Fields.Typed Γ s fields fields' s' → fields'.Settled
  | .one htype => by
    have hsettled := htype.settled hΓ
    exact hsettled
  | .more htype hrest => ⟨htype.settled hΓ, hrest.settled hΓ⟩

end

mutual

/-- Resolving a denoter makes no binding. -/
theorem TypeDenoter.Typed.bindings_eq {Γ : Env} {s s' : Supply} {type type' : TypeDenoter} :
    TypeDenoter.Typed Γ s type type' s' → s'.bindings = s.bindings
  | .boolean | .character | .integer | .named _ => rfl
  | .array _ helement => helement.bindings_eq
  | .record hfields => hfields.bindings_eq

theorem Fields.Typed.bindings_eq {Γ : Env} {s s' : Supply} {fields fields' : Fields} :
    Fields.Typed Γ s fields fields' s' → s'.bindings = s.bindings
  | .one htype => htype.bindings_eq
  | .more htype hrest => hrest.bindings_eq.trans htype.bindings_eq

end

mutual

/-- A settled denoter is resolved to the same in every environment: itself, with other serials. -/
theorem TypeDenoter.Settled.typed : ∀ {type : TypeDenoter} (s : Supply), type.Settled →
    ∃ type' s', (∀ Γ, TypeDenoter.Typed Γ s type type' s') ∧
      type'.recast unnumbered = type.recast unnumbered
  | .boolean, s, _ => ⟨_, s, fun _ => .boolean, rfl⟩
  | .character, s, _ => ⟨_, s, fun _ => .character, rfl⟩
  | .integer, s, _ => ⟨_, s, fun _ => .integer, rfl⟩
  | .array .., s, ⟨hlength, helement⟩ => by
    obtain ⟨element', s', htyped, hsame⟩ := helement.typed s
    refine ⟨_, _, fun Γ => .array hlength (htyped Γ), ?_⟩
    simp [TypeDenoter.recast, hsame]
  | .record _ _ fields, s, h => by
    have hfields : fields.Settled := h
    obtain ⟨fields', s', htyped, hsame⟩ := hfields.typed s
    refine ⟨_, _, fun Γ => .record (htyped Γ), ?_⟩
    simp [TypeDenoter.recast, hsame]

theorem Fields.Settled.typed : ∀ {fields : Fields} (s : Supply), fields.Settled →
    ∃ fields' s', (∀ Γ, Fields.Typed Γ s fields fields' s') ∧
      fields'.recast unnumbered = fields.recast unnumbered
  | .one _ _ type, s, h => by
    have htype : type.Settled := h
    obtain ⟨type', s', htyped, hsame⟩ := htype.typed s
    refine ⟨_, s', fun Γ => .one (htyped Γ), ?_⟩
    simp [Fields.recast, hsame]
  | .more .., s, ⟨htype, hrest⟩ => by
    obtain ⟨type', s₁, htyped, hsame⟩ := htype.typed s
    obtain ⟨rest', s', htyped', hsame'⟩ := hrest.typed s₁
    refine ⟨_, s', fun Γ => .more (htyped Γ) (htyped' Γ), ?_⟩
    simp [Fields.recast, hsame, hsame']

end

/-- A resolved denoter is resolved again, in every environment. -/
theorem TypeDenoter.Typed.again {Γ : Env} {s s' s₂ : Supply} {type type' : TypeDenoter}
    (h : TypeDenoter.Typed Γ s type type' s') (hΓ : Γ.NamesIn TypeDenoter.Settled)
    (hs : s₂.bindings = s.bindings) :
    ∃ type₂ s₂', (∀ Γ₂, TypeDenoter.Typed Γ₂ s₂ type' type₂ s₂') ∧
      type₂.recast unnumbered = type'.recast unnumbered ∧ s₂'.bindings = s'.bindings := by
  obtain ⟨type₂, s₂', htyped, hsame⟩ := (h.settled hΓ).typed s₂
  exact ⟨type₂, s₂', htyped, hsame, (htyped Γ).bindings_eq.trans (hs.trans h.bindings_eq.symm)⟩

/-! ## Environments -/

/-- The second environment and supply differ from the first in serials alone, and in the first
    type identifiers stand for settled types. -/
structure Env.Renews (Γ : Env) (s : Supply) (Γ₂ : Env) (s₂ : Supply) : Prop where
  alike    : Γ₂.recast unnumbered = Γ.recast unnumbered
  settled  : Γ.NamesIn TypeDenoter.Settled
  bindings : s₂.bindings = s.bindings

/-- A routine is no type. -/
theorem Env.NamesIn.enter_proc {P : TypeDenoter → Prop} {Γ : Env} (h : Γ.NamesIn P)
    {name : String} {id : BindingId} {shapes : Signature} :
    (Γ.enter name id (.proc shapes)).NamesIn P :=
  h.enter (by simp)

theorem Env.NamesIn.enter_func {P : TypeDenoter → Prop} {Γ : Env} (h : Γ.NamesIn P)
    {name : String} {id : BindingId} {shapes : Signature} {result : TypeDenoter} :
    (Γ.enter name id (.func shapes result)).NamesIn P :=
  h.enter (by simp)

namespace Env.Renews

variable {Γ Γ₂ : Env} {s s' s₂ s₂' : Supply}

theorem later (h : Γ.Renews s Γ₂ s₂) (hbindings : s₂'.bindings = s'.bindings) :
    Γ.Renews s' Γ₂ s₂' :=
  ⟨h.alike, h.settled, hbindings⟩

theorem enclose (h : Γ.Renews s Γ₂ s₂) : Γ.enclose.Renews s Γ₂.enclose s₂ :=
  ⟨by rw [Env.enclose_recast, Env.enclose_recast, h.alike], h.settled.enclose, h.bindings⟩

theorem not_declares (h : Γ.Renews s Γ₂ s₂) {name : String} (hnew : ¬ Γ.Declares name) :
    ¬ Γ₂.Declares name := by
  have h₂ := Env.declares_recast unnumbered Γ₂ name
  rw [h.alike] at h₂
  exact fun hdeclares => hnew ((Env.declares_recast unnumbered Γ name).1 (h₂.2 hdeclares))

/-- A name has the same binding in both, of kinds that differ in serials alone. -/
theorem find? (h : Γ.Renews s Γ₂ s₂) {name : String} {id : BindingId} {kind : BindingKind}
    (hfind : Γ.find? name = some (id, kind)) :
    ∃ kind₂, Γ₂.find? name = some (id, kind₂) ∧
      kind₂.recast unnumbered = kind.recast unnumbered := by
  have hboth := Env.find?_recast unnumbered Γ₂ name
  rw [h.alike, Env.find?_recast, hfind] at hboth
  cases hfind₂ : Γ₂.find? name with
  | none =>
    rw [hfind₂] at hboth
    cases hboth
  | some found =>
    obtain ⟨id₂, kind₂⟩ := found
    rw [hfind₂] at hboth
    obtain ⟨hid, hkind⟩ := Prod.mk.inj (Option.some.inj hboth)
    obtain rfl : id = id₂ := hid
    exact ⟨kind₂, rfl, hkind.symm⟩

/-- The next binding is entered in both, of kinds that differ in serials alone. -/
theorem enter (h : Γ.Renews s Γ₂ s₂) (name : String) {kind kind₂ : BindingKind}
    (hkind : kind₂.recast unnumbered = kind.recast unnumbered)
    (hsettled : ∀ type, kind = .type type → type.Settled) :
    (Γ.enter name s.bindings kind).Renews s.bind (Γ₂.enter name s₂.bindings kind₂) s₂.bind := by
  refine ⟨?_, h.settled.enter hsettled, congrArg (· + 1) h.bindings⟩
  rw [Env.enter_recast, Env.enter_recast, h.alike, hkind, h.bindings]

theorem enter_proc (h : Γ.Renews s Γ₂ s₂) (name : String) {shapes shapes₂ : Signature}
    (hshapes : Signature.recast unnumbered shapes₂ = Signature.recast unnumbered shapes) :
    (Γ.enter name s.bindings (.proc shapes)).Renews s.bind
      (Γ₂.enter name s₂.bindings (.proc shapes₂)) s₂.bind :=
  h.enter name (congrArg BindingKind.proc hshapes) (by simp)

theorem enter_func (h : Γ.Renews s Γ₂ s₂) (name : String) {shapes shapes₂ : Signature}
    {result result₂ : TypeDenoter}
    (hshapes : Signature.recast unnumbered shapes₂ = Signature.recast unnumbered shapes)
    (hresult : result₂.recast unnumbered = result.recast unnumbered) :
    (Γ.enter name s.bindings (.func shapes result)).Renews s.bind
      (Γ₂.enter name s₂.bindings (.func shapes₂ result₂)) s₂.bind := by
  refine h.enter name ?_ (by simp)
  rw [BindingKind.recast, BindingKind.recast, hshapes, hresult]

end Env.Renews

end TriangleTam
