import TriangleTam.Binding

/-! # Proper and resolved types

  A parsed program denotes types by names, arrays and records, so that neither
  `any` nor `error` occurs in its denoters: they are **proper**. Checking is
  to replace them by **resolved** denoters, in which no name is left either.

  A resolved array or record denoter was made once and is known by its serial.
  The denoters made so far are a list, and a denoter is **known** to the list
  when it and its parts stand there at the places of their serials, and no
  length in it is negative.
-/

namespace TriangleTam

/-! ## Proper denoters -/

mutual

/-- Neither `any` nor `error` occurs in the denoter. -/
def TypeDenoter.Proper : TypeDenoter → Prop
  | .boolean | .character | .integer | .named .. => True
  | .any | .error => False
  | .array _ _ _ element => element.Proper
  | .record _ _ fields => fields.Proper

def Fields.Proper : Fields → Prop
  | .one _ _ type => type.Proper
  | .more _ _ type rest => type.Proper ∧ rest.Proper

end

/-! ## Resolved denoters -/

mutual

/-- Neither `any` nor `error` nor a type identifier occurs in the denoter. -/
def TypeDenoter.Resolved : TypeDenoter → Prop
  | .boolean | .character | .integer => True
  | .any | .error | .named .. => False
  | .array _ _ _ element => element.Resolved
  | .record _ _ fields => fields.Resolved

def Fields.Resolved : Fields → Prop
  | .one _ _ type => type.Resolved
  | .more _ _ type rest => type.Resolved ∧ rest.Resolved

end

mutual

/-- The denoter is resolved, the arrays and records in it stand in the list of
    denoters at the places of their serials, and the arrays have lengths. -/
def TypeDenoter.Known (made : List TypeDenoter) : TypeDenoter → Prop
  | .boolean | .character | .integer => True
  | .any | .error | .named .. => False
  | .array serial span length element =>
    made[serial]? = some (.array serial span length element) ∧ 0 ≤ length.value ∧
      element.Known made
  | .record serial span fields =>
    made[serial]? = some (.record serial span fields) ∧ fields.Known made

def Fields.Known (made : List TypeDenoter) : Fields → Prop
  | .one _ _ type => type.Known made
  | .more _ _ type rest => type.Known made ∧ rest.Known made

end

/-- A denoter keeps its place when others are made. -/
theorem made_mono {made made' : List TypeDenoter} (h : made <+: made') {serial : Nat}
    {type : TypeDenoter} (hat : made[serial]? = some type) : made'[serial]? = some type := by
  obtain ⟨hlt, heq⟩ := List.getElem?_eq_some_iff.1 hat
  rw [← heq]
  exact List.prefix_iff_getElem?.1 h serial hlt

mutual

/-- Denoters made later leave the known ones known. -/
theorem TypeDenoter.Known.mono {made made' : List TypeDenoter} (h : made <+: made') :
    ∀ {type : TypeDenoter}, type.Known made → type.Known made'
  | .boolean, _ | .character, _ | .integer, _ => trivial
  | .array .., ⟨hat, hlength, helement⟩ => ⟨made_mono h hat, hlength, helement.mono h⟩
  | .record .., ⟨hat, hfields⟩ => ⟨made_mono h hat, hfields.mono h⟩

theorem Fields.Known.mono {made made' : List TypeDenoter} (h : made <+: made') :
    ∀ {fields : Fields}, fields.Known made → fields.Known made'
  | .one .., htype => TypeDenoter.Known.mono h htype
  | .more .., ⟨htype, hrest⟩ => ⟨htype.mono h, hrest.mono h⟩

end

mutual

theorem TypeDenoter.Known.resolved {made : List TypeDenoter} :
    ∀ {type : TypeDenoter}, type.Known made → type.Resolved
  | .boolean, _ | .character, _ | .integer, _ => trivial
  | .array _ _ _ element, ⟨_, _, helement⟩ => by
    have hresolved : element.Resolved := helement.resolved
    exact hresolved
  | .record _ _ fields, ⟨_, hfields⟩ => by
    have hresolved : fields.Resolved := hfields.resolved
    exact hresolved

theorem Fields.Known.resolved {made : List TypeDenoter} :
    ∀ {fields : Fields}, fields.Known made → fields.Resolved
  | .one _ _ type, htype => by
    have hknown : type.Known made := htype
    exact hknown.resolved
  | .more .., ⟨htype, hrest⟩ => ⟨htype.resolved, hrest.resolved⟩

end

/-- The type of a field of a known record is known. -/
theorem Fields.Known.find? {made : List TypeDenoter} {name : String} {type : TypeDenoter} :
    ∀ {fields : Fields}, fields.Known made → fields.find? name = some type → type.Known made
  | .one _ field _, htype, hfind => by
    simp only [Fields.find?] at hfind
    split at hfind
    · cases hfind; exact htype
    · cases hfind
  | .more _ field _ rest, ⟨htype, hrest⟩, hfind => by
    simp only [Fields.find?] at hfind
    split at hfind
    · cases hfind; exact htype
    · exact hrest.find? hfind

/-! ## Compatibility -/

namespace TypeDenoter

theorem Resolved.isError {type : TypeDenoter} (h : type.Resolved) : type.isError = false := by
  cases type <;> simp_all [Resolved, TypeDenoter.isError]

theorem Resolved.isAny {type : TypeDenoter} (h : type.Resolved) : type.isAny = false := by
  cases type <;> simp_all [Resolved, TypeDenoter.isAny]

theorem isAny_iff {type : TypeDenoter} : type.isAny = true ↔ type = .any := by
  cases type <;> simp [TypeDenoter.isAny]

/-- What is equivalent to anything is not `error`. -/
theorem isError_left_of_equivalent {a b : TypeDenoter} (h : a.equivalent b = true) :
    a.isError = false := by
  cases a with
  | error => cases b <;> cases h
  | _ => rfl

theorem isError_right_of_equivalent {a b : TypeDenoter} (h : a.equivalent b = true) :
    b.isError = false := by
  cases b with
  | error => cases a <;> cases h
  | _ => rfl

/-- What is equivalent to anything is not `any`. -/
theorem isAny_left_of_equivalent {a b : TypeDenoter} (h : a.equivalent b = true) :
    a.isAny = false := by
  cases a with
  | any => cases b <;> cases h
  | _ => rfl

theorem compatible_of_equivalent {a b : TypeDenoter} (h : a.equivalent b = true) :
    a.compatible b = true := by
  simp [compatible, h]

/-- Between resolved types compatibility is equivalence. -/
theorem Resolved.compatible_eq {a b : TypeDenoter} (ha : a.Resolved) (hb : b.Resolved) :
    a.compatible b = a.equivalent b := by
  simp [compatible, ha.isError, hb.isError]

/-- Resolved types that are not complained about are equivalent. -/
theorem Resolved.equivalent {a b : TypeDenoter} (ha : a.Resolved) (hb : b.Resolved)
    (h : ¬ (!a.compatible b) = true) : a.equivalent b = true := by
  rw [ha.compatible_eq hb] at h
  simpa using h

/-- Only `Boolean` is equivalent to `Boolean`. -/
theorem equivalent_boolean_iff {type : TypeDenoter} :
    type.equivalent .boolean = true ↔ type = .boolean := by
  cases type with
  | boolean => exact ⟨fun _ => rfl, fun _ => rfl⟩
  | _ => exact ⟨nofun, nofun⟩

theorem equivalent_integer_iff {type : TypeDenoter} :
    type.equivalent .integer = true ↔ type = .integer := by
  cases type with
  | integer => exact ⟨fun _ => rfl, fun _ => rfl⟩
  | _ => exact ⟨nofun, nofun⟩

end TypeDenoter

/-! ## Types of bindings -/

mutual

/-- Every type in the shape satisfies `P`. -/
def FormalShape.TypesIn (P : TypeDenoter → Prop) : FormalShape → Prop
  | .const type | .var type => P type
  | .proc formals => Signature.TypesIn P formals
  | .func formals result => Signature.TypesIn P formals ∧ P result

def Signature.TypesIn (P : TypeDenoter → Prop) : List FormalShape → Prop
  | [] => True
  | shape :: others => shape.TypesIn P ∧ Signature.TypesIn P others

end

/-- Every type in the kind satisfies `P`. The operands of an equality are of
    any type, which is the only use of `any`. -/
def BindingKind.TypesIn (P : TypeDenoter → Prop) : BindingKind → Prop
  | .const denoter | .var denoter | .type denoter => P denoter
  | .proc formals => Signature.TypesIn P formals
  | .func formals result => Signature.TypesIn P formals ∧ P result
  | .unary operand result => P operand ∧ P result
  | .binary left right result => (left = .any ∨ P left ∧ P right) ∧ P result

mutual

theorem FormalShape.TypesIn.mono {P Q : TypeDenoter → Prop} (h : ∀ type, P type → Q type) :
    ∀ {shape : FormalShape}, shape.TypesIn P → shape.TypesIn Q
  | .const type, hs | .var type, hs => h type hs
  | .proc _, hs => Signature.TypesIn.mono h hs
  | .func _ _, ⟨hs, hresult⟩ => ⟨Signature.TypesIn.mono h hs, h _ hresult⟩

theorem Signature.TypesIn.mono {P Q : TypeDenoter → Prop} (h : ∀ type, P type → Q type) :
    ∀ {formals : List FormalShape}, Signature.TypesIn P formals → Signature.TypesIn Q formals
  | [], _ => trivial
  | _ :: _, ⟨hs, hothers⟩ => ⟨hs.mono h, Signature.TypesIn.mono h hothers⟩

end

theorem BindingKind.TypesIn.mono {P Q : TypeDenoter → Prop} (h : ∀ type, P type → Q type) :
    ∀ {kind : BindingKind}, kind.TypesIn P → kind.TypesIn Q
  | .const denoter, hk | .var denoter, hk | .type denoter, hk => h denoter hk
  | .proc formals, hk => by
    have hformals : Signature.TypesIn P formals := hk
    exact hformals.mono h
  | .func _ _, ⟨hs, hresult⟩ => ⟨hs.mono h, h _ hresult⟩
  | .unary _ _, ⟨ho, hresult⟩ => ⟨h _ ho, h _ hresult⟩
  | .binary _ _ _, ⟨ho, hresult⟩ => by
    refine ⟨?_, h _ hresult⟩
    rcases ho with hany | ⟨hl, hr⟩
    · exact .inl hany
    · exact .inr ⟨h _ hl, h _ hr⟩

end TriangleTam
