import TriangleTam.Proofs.Typing.Denoter

/-! # Type equivalence

  Equivalence looks at the **form** of a type alone: which standard types and
  names stand where, how long arrays are and what fields are called, not where
  all this is written and how lengths are spelled. Two types are equivalent if
  they have one form, and nothing in it fails to be a type. So equivalence is
  symmetric and transitive, and reflexive just on the types that are proper.
-/

namespace TriangleTam

/-! ## Forms -/

/-- What equivalence looks at. -/
inductive TypeForm
  | boolean
  | character
  | integer
  | any
  | error
  | named (spelling : String)
  | array (length : Int) (element : TypeForm)
  | record (fields : List (String × TypeForm))

mutual

/-- The form of a type. -/
def TypeDenoter.form : TypeDenoter → TypeForm
  | .boolean => .boolean
  | .character => .character
  | .integer => .integer
  | .any => .any
  | .error => .error
  | .named _ name => .named name.spelling
  | .array _ _ length element => .array length.value element.form
  | .record _ _ fields => .record fields.form

/-- The names of fields with the forms of their types. -/
def Fields.form : Fields → List (String × TypeForm)
  | .one _ name type => [(name.spelling, type.form)]
  | .more _ name type rest => (name.spelling, type.form) :: rest.form

end

/-- Fields are at least one. -/
theorem Fields.form_ne_nil (fields : Fields) : fields.form ≠ [] := by
  cases fields <;> exact List.cons_ne_nil _ _

mutual

/-- Types are equivalent if they are proper and have one form. -/
theorem TypeDenoter.equivalent_iff : ∀ {a b : TypeDenoter},
    a.equivalent b = true ↔ a.Proper ∧ a.form = b.form
  | .boolean, b | .character, b | .integer, b => by
    cases b <;> simp [TypeDenoter.equivalent, TypeDenoter.Proper, TypeDenoter.form]
  | .any, b | .error, b => by
    cases b <;> simp [TypeDenoter.equivalent, TypeDenoter.Proper]
  | .named _ name, b => by
    cases b <;> simp [TypeDenoter.equivalent, TypeDenoter.Proper, TypeDenoter.form]
  | .array _ _ length element, b => by
    cases b with
    | array serial span length' element' =>
      simp only [TypeDenoter.equivalent, TypeDenoter.Proper, TypeDenoter.form, Bool.and_eq_true,
        beq_iff_eq, TypeForm.array.injEq, TypeDenoter.equivalent_iff (a := element)]
      exact and_left_comm
    | _ => simp [TypeDenoter.equivalent, TypeDenoter.form]
  | .record _ _ fields, b => by
    cases b with
    | record serial span fields' =>
      simp only [TypeDenoter.equivalent, TypeDenoter.Proper, TypeDenoter.form,
        TypeForm.record.injEq, Fields.equivalent_iff (a := fields)]
    | _ => simp [TypeDenoter.equivalent, TypeDenoter.form]

theorem Fields.equivalent_iff : ∀ {a b : Fields},
    a.equivalent b = true ↔ a.Proper ∧ a.form = b.form
  | .one _ name type, b => by
    cases b with
    | one span name' type' =>
      simp only [Fields.equivalent, Fields.Proper, Fields.form, Bool.and_eq_true, beq_iff_eq,
        List.cons.injEq, Prod.mk.injEq, and_true, TypeDenoter.equivalent_iff (a := type)]
      exact and_left_comm
    | more span name' type' rest' =>
      have hne := rest'.form_ne_nil.symm
      simp [Fields.equivalent, Fields.form, hne]
  | .more _ name type rest, b => by
    cases b with
    | one span name' type' =>
      have hne := rest.form_ne_nil
      simp [Fields.equivalent, Fields.form, hne]
    | more span name' type' rest' =>
      simp only [Fields.equivalent, Fields.Proper, Fields.form, Bool.and_eq_true, beq_iff_eq,
        List.cons.injEq, Prod.mk.injEq, TypeDenoter.equivalent_iff (a := type),
        Fields.equivalent_iff (a := rest)]
      constructor
      · rintro ⟨⟨hname, htype, hform⟩, hrest, hforms⟩
        exact ⟨⟨htype, hrest⟩, ⟨hname, hform⟩, hforms⟩
      · rintro ⟨⟨htype, hrest⟩, ⟨hname, hform⟩, hforms⟩
        exact ⟨⟨hname, htype, hform⟩, hrest, hforms⟩

end

mutual

/-- Whether a type is proper can be told from its form. -/
theorem TypeDenoter.Proper.of_form : ∀ {a b : TypeDenoter}, a.Proper → a.form = b.form → b.Proper
  | .boolean, b, _, h | .character, b, _, h | .integer, b, _, h => by
    cases b <;> trivial
  | .named _ _, b, _, h => by
    cases b <;> trivial
  | .array _ _ _ element, b, hproper, h => by
    have helement : element.Proper := hproper
    cases b with
    | array _ _ _ element' =>
      have helement' : element'.Proper := helement.of_form (TypeForm.array.inj h).2
      exact helement'
    | _ => cases h
  | .record _ _ fields, b, hproper, h => by
    have hfields : fields.Proper := hproper
    cases b with
    | record _ _ fields' =>
      have hfields' : fields'.Proper := hfields.of_form (TypeForm.record.inj h)
      exact hfields'
    | _ => cases h

theorem Fields.Proper.of_form : ∀ {a b : Fields}, a.Proper → a.form = b.form → b.Proper
  | .one _ _ type, b, hproper, h => by
    have htype : type.Proper := hproper
    cases b with
    | one _ _ type' =>
      have htype' : type'.Proper := htype.of_form (Prod.mk.inj (List.cons.inj h).1).2
      exact htype'
    | more _ _ _ rest => exact absurd (List.cons.inj h).2.symm rest.form_ne_nil
  | .more _ _ _ rest, b, ⟨htype, hrest⟩, h => by
    cases b with
    | one => exact absurd (List.cons.inj h).2 rest.form_ne_nil
    | more =>
      obtain ⟨hfirst, hothers⟩ := List.cons.inj h
      exact ⟨htype.of_form (Prod.mk.inj hfirst).2, hrest.of_form hothers⟩

end

/-! ## A partial equivalence -/

namespace TypeDenoter

variable {a b c : TypeDenoter}

theorem equivalent_symm (h : a.equivalent b = true) : b.equivalent a = true := by
  obtain ⟨hproper, hform⟩ := equivalent_iff.1 h
  exact equivalent_iff.2 ⟨hproper.of_form hform, hform.symm⟩

theorem equivalent_comm (a b : TypeDenoter) : a.equivalent b = b.equivalent a :=
  Bool.eq_iff_iff.2 ⟨equivalent_symm, equivalent_symm⟩

theorem equivalent_trans (h : a.equivalent b = true) (h' : b.equivalent c = true) :
    a.equivalent c = true := by
  obtain ⟨hproper, hform⟩ := equivalent_iff.1 h
  exact equivalent_iff.2 ⟨hproper, hform.trans (equivalent_iff.1 h').2⟩

/-- The types that are equivalent to themselves are the proper ones. -/
theorem equivalent_self_iff : a.equivalent a = true ↔ a.Proper := by
  rw [equivalent_iff]
  exact and_iff_left rfl

end TypeDenoter

/-! ## Other spellings -/

mutual

/-- The types differ in nothing but the spellings of lengths, which have the same values. -/
inductive TypeDenoter.Respelled : TypeDenoter → TypeDenoter → Prop
  | same {type} : TypeDenoter.Respelled type type
  | array {serial span length length' element element'} :
      length.value = length'.value → TypeDenoter.Respelled element element' →
      TypeDenoter.Respelled (.array serial span length element)
        (.array serial span length' element')
  | record {serial span fields fields'} :
      Fields.Respelled fields fields' →
      TypeDenoter.Respelled (.record serial span fields) (.record serial span fields')

inductive Fields.Respelled : Fields → Fields → Prop
  | one {span name type type'} :
      TypeDenoter.Respelled type type' →
      Fields.Respelled (.one span name type) (.one span name type')
  | more {span name type type' rest rest'} :
      TypeDenoter.Respelled type type' → Fields.Respelled rest rest' →
      Fields.Respelled (.more span name type rest) (.more span name type' rest')

end

mutual

theorem TypeDenoter.Respelled.form_eq {a b : TypeDenoter} : a.Respelled b → a.form = b.form
  | .same => rfl
  | .array hvalue helement => by
    rw [TypeDenoter.form, TypeDenoter.form, hvalue, helement.form_eq]
  | .record hfields => congrArg TypeForm.record hfields.form_eq

theorem Fields.Respelled.form_eq {a b : Fields} : a.Respelled b → a.form = b.form
  | .one htype => by rw [Fields.form, Fields.form, htype.form_eq]
  | .more htype hrest => by rw [Fields.form, Fields.form, htype.form_eq, hrest.form_eq]

end

/-- Equivalence ignores how lengths are spelled. -/
theorem TypeDenoter.Respelled.equivalent_eq {a b : TypeDenoter} (h : a.Respelled b)
    (c : TypeDenoter) : a.equivalent c = b.equivalent c := by
  rw [Bool.eq_iff_iff, equivalent_iff, equivalent_iff, h.form_eq]
  refine and_congr_left fun _ => ?_
  exact ⟨fun hproper => hproper.of_form h.form_eq, fun hproper => hproper.of_form h.form_eq.symm⟩

/-! ## Signatures -/

mutual

theorem FormalShape.equivalent_comm : ∀ a b : FormalShape, a.equivalent b = b.equivalent a
  | .const type, b | .var type, b => by
    cases b with
    | const type' | var type' =>
      simp [FormalShape.equivalent, TypeDenoter.equivalent_comm type]
    | _ => simp [FormalShape.equivalent]
  | .proc formals, b => by
    cases b with
    | proc formals' => simp [FormalShape.equivalent, Signature.equivalent_comm formals]
    | _ => simp [FormalShape.equivalent]
  | .func formals result, b => by
    cases b with
    | func formals' result' =>
      simp [FormalShape.equivalent, Signature.equivalent_comm formals,
        TypeDenoter.equivalent_comm result]
    | _ => simp [FormalShape.equivalent]

theorem Signature.equivalent_comm : ∀ a b : List FormalShape,
    Signature.equivalent a b = Signature.equivalent b a
  | [], b => by cases b <;> simp [Signature.equivalent]
  | formal :: others, b => by
    cases b with
    | nil => simp [Signature.equivalent]
    | cons formal' others' =>
      simp [Signature.equivalent, FormalShape.equivalent_comm formal,
        Signature.equivalent_comm others]

end

mutual

theorem FormalShape.equivalent_trans : ∀ {a b c : FormalShape}, a.equivalent b = true →
    b.equivalent c = true → a.equivalent c = true
  | .const _, .const _, .const _, h, h' => TypeDenoter.equivalent_trans h h'
  | .var _, .var _, .var _, h, h' => TypeDenoter.equivalent_trans h h'
  | .proc _, .proc _, .proc _, h, h' => Signature.equivalent_trans h h'
  | .func _ _, .func _ _, .func _ _, h, h' => by
    simp only [FormalShape.equivalent, Bool.and_eq_true] at h h' ⊢
    exact ⟨Signature.equivalent_trans h.1 h'.1, TypeDenoter.equivalent_trans h.2 h'.2⟩

theorem Signature.equivalent_trans : ∀ {a b c : List FormalShape},
    Signature.equivalent a b = true → Signature.equivalent b c = true →
    Signature.equivalent a c = true
  | [], [], [], _, _ => rfl
  | _ :: _, _ :: _, _ :: _, h, h' => by
    simp only [Signature.equivalent, Bool.and_eq_true] at h h' ⊢
    exact ⟨FormalShape.equivalent_trans h.1 h'.1, Signature.equivalent_trans h.2 h'.2⟩

end

end TriangleTam
