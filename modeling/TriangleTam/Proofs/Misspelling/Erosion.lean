import Mathlib.Data.List.Forall2
import TriangleTam.Proofs.Misspelling.Trees
import TriangleTam.Proofs.Typing.Routine

/-! # Eroded types

  A name that cannot be resolved has the type `error`, and so have the parts
  of types that are made from it. A type **erodes** to another when the other
  is the same type but for such parts. Serial numbers and places do not count,
  as they do not count for equivalence.

  What is equivalent stays compatible when it erodes to whole types, which are
  `error` or have no error in them.
-/

namespace TriangleTam

/-! ## Types -/

mutual

/-- The second type is the first, but that parts of it may be `error`. -/
inductive TypeDenoter.Erodes : TypeDenoter → TypeDenoter → Prop
  | error {type} : TypeDenoter.Erodes type .error
  | boolean : TypeDenoter.Erodes .boolean .boolean
  | character : TypeDenoter.Erodes .character .character
  | integer : TypeDenoter.Erodes .integer .integer
  | any : TypeDenoter.Erodes .any .any
  | array {serial serial' span span' length length' element element'} :
      length.value = length'.value →
      TypeDenoter.Erodes element element' →
      TypeDenoter.Erodes (.array serial span length element)
        (.array serial' span' length' element')
  | record {serial serial' span span' fields fields'} :
      Fields.Erodes fields fields' →
      TypeDenoter.Erodes (.record serial span fields) (.record serial' span' fields')

/-- The same field names, and types that erode. -/
inductive Fields.Erodes : Fields → Fields → Prop
  | one {span span' name name' type type'} :
      name.spelling = name'.spelling →
      TypeDenoter.Erodes type type' →
      Fields.Erodes (.one span name type) (.one span' name' type')
  | more {span span' name name' type type' rest rest'} :
      name.spelling = name'.spelling →
      TypeDenoter.Erodes type type' →
      Fields.Erodes rest rest' →
      Fields.Erodes (.more span name type rest) (.more span' name' type' rest')

end

namespace TypeDenoter

theorem erodes_boolean_iff {type : TypeDenoter} :
    TypeDenoter.boolean.Erodes type ↔ type = .error ∨ type = .boolean := by
  constructor
  · rintro (_ | _)
    · exact .inl rfl
    · exact .inr rfl
  · rintro (rfl | rfl)
    · exact .error
    · exact .boolean

theorem erodes_integer_iff {type : TypeDenoter} :
    TypeDenoter.integer.Erodes type ↔ type = .error ∨ type = .integer := by
  constructor
  · rintro (_ | _)
    · exact .inl rfl
    · exact .inr rfl
  · rintro (rfl | rfl)
    · exact .error
    · exact .integer

end TypeDenoter

mutual

/-- What a type erodes to, the types equivalent to it erode to as well. -/
theorem TypeDenoter.Erodes.of_equivalent {a b : TypeDenoter} {type : TypeDenoter}
    (h : a.equivalent b = true) : b.Erodes type → a.Erodes type
  | .error => .error
  | .boolean => by
    cases a <;> simp [TypeDenoter.equivalent] at h
    exact .boolean
  | .character => by
    cases a <;> simp [TypeDenoter.equivalent] at h
    exact .character
  | .integer => by
    cases a <;> simp [TypeDenoter.equivalent] at h
    exact .integer
  | .any => by cases a <;> simp [TypeDenoter.equivalent] at h
  | .array hlength helement => by
    cases a <;> simp [TypeDenoter.equivalent] at h
    exact .array (h.1.trans hlength) (helement.of_equivalent h.2)
  | .record hfields => by
    cases a <;> simp [TypeDenoter.equivalent] at h
    exact .record (hfields.of_equivalent h)

theorem Fields.Erodes.of_equivalent {a b fields : Fields} (h : a.equivalent b = true) :
    b.Erodes fields → a.Erodes fields
  | .one hname htype => by
    cases a <;> simp [Fields.equivalent] at h
    exact .one (h.1.trans hname) (htype.of_equivalent h.2)
  | .more hname htype hrest => by
    cases a <;> simp [Fields.equivalent] at h
    exact .more (h.1.1.trans hname) (htype.of_equivalent h.1.2) (hrest.of_equivalent h.2)

end

mutual

/-- Types without errors that one type erodes to are equivalent. -/
theorem TypeDenoter.Erodes.equivalent {type a b : TypeDenoter} (ha : a.Resolved)
    (hb : b.Resolved) : type.Erodes a → type.Erodes b → a.equivalent b = true
  | .error, _ | .any, _ => ha.elim
  | .boolean, h | .character, h | .integer, h => by
    cases h
    · exact hb.elim
    · rfl
  | .array hlength helement, h => by
    cases h with
    | error => exact hb.elim
    | array hlength' helement' =>
      simp only [TypeDenoter.equivalent, Bool.and_eq_true, beq_iff_eq]
      exact ⟨hlength.symm.trans hlength', helement.equivalent ha hb helement'⟩
  | .record hfields, h => by
    cases h with
    | error => exact hb.elim
    | record hfields' =>
      simp only [TypeDenoter.equivalent]
      exact hfields.equivalent ha hb hfields'

theorem Fields.Erodes.equivalent {fields a b : Fields} (ha : a.Resolved) (hb : b.Resolved) :
    fields.Erodes a → fields.Erodes b → a.equivalent b = true
  | .one hname htype, h => by
    cases h with
    | one hname' htype' =>
      simp only [Fields.equivalent, Bool.and_eq_true, beq_iff_eq]
      exact ⟨hname.symm.trans hname', htype.equivalent ha hb htype'⟩
  | .more hname htype hrest, h => by
    cases h with
    | more hname' htype' hrest' =>
      simp only [Fields.equivalent, Bool.and_eq_true, beq_iff_eq]
      exact ⟨⟨hname.symm.trans hname', htype.equivalent ha.1 hb.1 htype'⟩,
        hrest.equivalent ha.2 hb.2 hrest'⟩

end

/-- What is equivalent stays compatible when it erodes to whole types. -/
theorem TypeDenoter.Erodes.compatible {a b a' b' : TypeDenoter} (ha : a.Erodes a')
    (hb : b.Erodes b') (h : a.equivalent b = true) (hwhole : a'.Whole) (hwhole' : b'.Whole) :
    a'.compatible b' = true := by
  rcases hwhole with rfl | hresolved
  · rfl
  · rcases hwhole' with rfl | hresolved'
    · simp [TypeDenoter.compatible, TypeDenoter.isError]
    · exact compatible_of_equivalent (ha.equivalent hresolved hresolved' (hb.of_equivalent h))

/-- Where one of two limbs has no type any more, the type of the other will do. -/
theorem TypeDenoter.Erodes.limbs {a b a' b' : TypeDenoter} (ha : a.Erodes a')
    (hb : b.Erodes b') (h : a.equivalent b = true) :
    a.Erodes (if a'.isError then b' else a') := by
  split
  · exact hb.of_equivalent h
  · exact ha

/-- A field keeps its place, and its type erodes. -/
theorem Fields.Erodes.find? {fields fields' : Fields} {name : String} {type : TypeDenoter}
    (hfind : fields.find? name = some type) :
    fields.Erodes fields' → ∃ type', fields'.find? name = some type' ∧ type.Erodes type' := by
  intro h
  cases h with
  | one hname htype =>
    simp only [Fields.find?] at hfind ⊢
    split at hfind
    · next heq =>
      cases hfind
      exact ⟨_, if_pos (hname ▸ heq), htype⟩
    · cases hfind
  | more hname htype hrest =>
    simp only [Fields.find?] at hfind ⊢
    split at hfind
    · next heq =>
      cases hfind
      exact ⟨_, if_pos (hname ▸ heq), htype⟩
    · next hne =>
      rw [if_neg (hname ▸ hne)]
      exact hrest.find? hfind

theorem Fields.Erodes.find?_none {fields fields' : Fields} {name : String}
    (hfind : fields.find? name = none) : fields.Erodes fields' → fields'.find? name = none := by
  intro h
  cases h with
  | one hname htype =>
    simp only [Fields.find?] at hfind ⊢
    split at hfind
    · cases hfind
    · next hne => exact if_neg (hname ▸ hne)
  | more hname htype hrest =>
    simp only [Fields.find?] at hfind ⊢
    split at hfind
    · cases hfind
    · next hne =>
      rw [if_neg (hname ▸ hne)]
      exact hrest.find?_none hfind

/-! ## Signatures -/

mutual

/-- Parameters of the same mode, with types that erode. -/
inductive FormalShape.Erodes : FormalShape → FormalShape → Prop
  | const {type type'} : type.Erodes type' → FormalShape.Erodes (.const type) (.const type')
  | var {type type'} : type.Erodes type' → FormalShape.Erodes (.var type) (.var type')
  | proc {formals formals'} :
      Signature.Erodes formals formals' → FormalShape.Erodes (.proc formals) (.proc formals')
  | func {formals formals' result result'} :
      Signature.Erodes formals formals' → result.Erodes result' →
      FormalShape.Erodes (.func formals result) (.func formals' result')

inductive Signature.Erodes : List FormalShape → List FormalShape → Prop
  | nil : Signature.Erodes [] []
  | cons {shape shape' others others'} :
      FormalShape.Erodes shape shape' → Signature.Erodes others others' →
      Signature.Erodes (shape :: others) (shape' :: others')

end

mutual

theorem FormalShape.Erodes.of_equivalent {a b shape : FormalShape}
    (h : a.equivalent b = true) : b.Erodes shape → a.Erodes shape
  | .const htype => by
    cases a <;> simp [FormalShape.equivalent] at h
    exact .const (htype.of_equivalent h)
  | .var htype => by
    cases a <;> simp [FormalShape.equivalent] at h
    exact .var (htype.of_equivalent h)
  | .proc hformals => by
    cases a <;> simp [FormalShape.equivalent] at h
    exact .proc (hformals.of_equivalent h)
  | .func hformals hresult => by
    cases a <;> simp [FormalShape.equivalent] at h
    exact .func (hformals.of_equivalent h.1) (hresult.of_equivalent h.2)

theorem Signature.Erodes.of_equivalent {a b formals : List FormalShape}
    (h : Signature.equivalent a b = true) :
    Signature.Erodes b formals → Signature.Erodes a formals
  | .nil => by
    cases a <;> simp [Signature.equivalent] at h
    exact .nil
  | .cons hshape hothers => by
    cases a <;> simp [Signature.equivalent] at h
    exact .cons (hshape.of_equivalent h.1) (hothers.of_equivalent h.2)

end

mutual

theorem FormalShape.Erodes.equivalent {shape a b : FormalShape}
    (ha : a.TypesIn TypeDenoter.Resolved) (hb : b.TypesIn TypeDenoter.Resolved) :
    shape.Erodes a → shape.Erodes b → a.equivalent b = true
  | .const htype, .const htype' | .var htype, .var htype' => htype.equivalent ha hb htype'
  | .proc hformals, .proc hformals' => by
    simp only [FormalShape.equivalent]
    exact hformals.equivalent ha hb hformals'
  | .func hformals hresult, .func hformals' hresult' => by
    simp only [FormalShape.equivalent, Bool.and_eq_true]
    exact ⟨hformals.equivalent ha.1 hb.1 hformals', hresult.equivalent ha.2 hb.2 hresult'⟩

/-- Signatures without errors that one signature erodes to are equivalent. -/
theorem Signature.Erodes.equivalent {formals a b : List FormalShape}
    (ha : Signature.TypesIn TypeDenoter.Resolved a)
    (hb : Signature.TypesIn TypeDenoter.Resolved b) :
    Signature.Erodes formals a → Signature.Erodes formals b → Signature.equivalent a b = true
  | .nil, .nil => rfl
  | .cons hshape hothers, .cons hshape' hothers' => by
    simp only [Signature.equivalent, Bool.and_eq_true]
    exact ⟨hshape.equivalent ha.1 hb.1 hshape', hothers.equivalent ha.2 hb.2 hothers'⟩

end

/-! ## Bindings -/

/-- What a name stands for where its types erode. Operators are standard, and no declaration
    changes their scalars. -/
inductive BindingKind.Erodes : BindingKind → BindingKind → Prop
  | const {type type'} : type.Erodes type' → BindingKind.Erodes (.const type) (.const type')
  | var {type type'} : type.Erodes type' → BindingKind.Erodes (.var type) (.var type')
  | proc {formals formals'} :
      Signature.Erodes formals formals' → BindingKind.Erodes (.proc formals) (.proc formals')
  | func {formals formals' result result'} :
      Signature.Erodes formals formals' → result.Erodes result' →
      BindingKind.Erodes (.func formals result) (.func formals' result')
  | type {type type'} : type.Erodes type' → BindingKind.Erodes (.type type) (.type type')
  | unary (operand result : Standard.Scalar) :
      BindingKind.Erodes (.unary operand.denoter result.denoter)
        (.unary operand.denoter result.denoter)
  | binary (left right result : Standard.Scalar) :
      BindingKind.Erodes (.binary left.denoter right.denoter result.denoter)
        (.binary left.denoter right.denoter result.denoter)

/-- The types of the parameters and of the result satisfy `P`, if it is a routine. -/
def BindingKind.RoutineIn (P : TypeDenoter → Prop) : BindingKind → Prop
  | .proc formals => Signature.TypesIn P formals
  | .func formals result => Signature.TypesIn P formals ∧ P result
  | .const _ | .var _ | .type _ | .unary .. | .binary .. => True

theorem BindingKind.RoutineIn.mono {P Q : TypeDenoter → Prop} (hPQ : ∀ type, P type → Q type) :
    ∀ {kind : BindingKind}, kind.RoutineIn P → kind.RoutineIn Q
  | .proc _, h => Signature.TypesIn.mono hPQ h
  | .func _ _, ⟨hformals, hresult⟩ => ⟨hformals.mono hPQ, hPQ _ hresult⟩
  | .const _, _ | .var _, _ | .type _, _ | .unary .., _ | .binary .., _ => trivial

theorem Standard.Scalar.erodes_self (scalar : Standard.Scalar) :
    scalar.denoter.Erodes scalar.denoter := by
  cases scalar with
  | boolean => exact .boolean
  | character => exact .character
  | integer => exact .integer
  | any => exact .any

/-- The result of an operator erodes where an operand does. -/
theorem Standard.Scalar.erodes_unless (scalar : Standard.Scalar) (failed : Bool) :
    scalar.denoter.Erodes (if failed then .error else scalar.denoter) := by
  split
  · exact .error
  · exact scalar.erodes_self

namespace BindingKind.Erodes

theorem unary_eq {operand result : TypeDenoter} {kind : BindingKind}
    (h : (BindingKind.unary operand result).Erodes kind) :
    ∃ scalar scalar' : Standard.Scalar, operand = scalar.denoter ∧ result = scalar'.denoter ∧
      kind = .unary operand result := by
  generalize heq : BindingKind.unary operand result = before at h
  cases h with
  | unary scalar scalar' =>
    cases heq
    exact ⟨scalar, scalar', rfl, rfl, rfl⟩
  | const | var | proc | func | type | binary => cases heq

theorem binary_eq {left right result : TypeDenoter} {kind : BindingKind}
    (h : (BindingKind.binary left right result).Erodes kind) :
    ∃ scalar scalar' scalar'' : Standard.Scalar, left = scalar.denoter ∧
      right = scalar'.denoter ∧ result = scalar''.denoter ∧ kind = .binary left right result := by
  generalize heq : BindingKind.binary left right result = before at h
  cases h with
  | binary scalar scalar' scalar'' =>
    cases heq
    exact ⟨scalar, scalar', scalar'', rfl, rfl, rfl, rfl⟩
  | const | var | proc | func | type | unary => cases heq

end BindingKind.Erodes

/-- What is equivalent to a scalar erodes to it or to `error`. -/
theorem Standard.Scalar.erodes {scalar : Standard.Scalar} {type type' : TypeDenoter}
    (h : scalar.denoter.equivalent type = true) (herodes : type.Erodes type') :
    type'.isError = true ∨ scalar.denoter.compatible type' = true := by
  cases scalar <;> cases herodes <;>
    simp_all [Standard.Scalar.denoter, TypeDenoter.equivalent, TypeDenoter.compatible,
      TypeDenoter.isError]

/-- Nothing erodes in a standard declaration. -/
theorem Standard.kind_erodes : ∀ declaration ∈ Standard.declarations,
    declaration.shape.kind.Erodes declaration.shape.kind := by
  simp only [declarations, List.forall_mem_cons, List.not_mem_nil, false_implies, implies_true]
  simp only [Shape.kind, List.map_cons, List.map_nil, Parameter.shape]
  -- one rule applies at each scalar, signature and kind
  repeat' constructor

/-! ## Environments -/

/-- The entry is of another name than `w` and has a counterpart whose types eroded. -/
structure Env.Entry.Erodes (w : String) (entry entry' : Env.Entry) : Prop where
  name    : entry'.1 = entry.1
  binding : entry'.2.1 = entry.2.1
  fresh   : entry.1 ≠ w
  kind    : entry.2.2.Erodes entry'.2.2

/-- The same names without `w`, of the same bindings, with types that erode. -/
structure Env.Erodes (w : String) (Γ Γ' : Env) : Prop where
  innermost : List.Forall₂ (Env.Entry.Erodes w) Γ.innermost Γ'.innermost
  outer     : List.Forall₂ (List.Forall₂ (Env.Entry.Erodes w)) Γ.outer Γ'.outer

namespace Env

/-- The types of all parameters and results in the environment satisfy `P`. -/
def RoutinesIn (P : TypeDenoter → Prop) (Γ : Env) : Prop :=
  ∀ entry ∈ Γ.entries, entry.2.2.RoutineIn P

namespace Erodes

variable {w : String} {Γ Γ' : Env}

theorem enter (h : Γ.Erodes w Γ') {name : String} (hfresh : name ≠ w) (id : BindingId)
    {kind kind' : BindingKind} (hkind : kind.Erodes kind') :
    (Γ.enter name id kind).Erodes w (Γ'.enter name id kind') :=
  ⟨.cons ⟨rfl, rfl, hfresh, hkind⟩ h.innermost, h.outer⟩

theorem enclose (h : Γ.Erodes w Γ') : Γ.enclose.Erodes w Γ'.enclose :=
  ⟨.nil, .cons h.innermost h.outer⟩

theorem close (h : Γ.Erodes w Γ') : Γ.close.Erodes w Γ'.close := by
  obtain ⟨innermost, outer⟩ := Γ
  obtain ⟨innermost', outer'⟩ := Γ'
  obtain ⟨hinnermost, houter⟩ := h
  cases houter with
  | nil => exact ⟨hinnermost, .nil⟩
  | cons hscope hothers => exact ⟨hscope, hothers⟩

theorem rebind (h : Γ.Erodes w Γ') (id : BindingId) {kind kind' : BindingKind}
    (hkind : kind.Erodes kind') : (Γ.rebind id kind).Erodes w (Γ'.rebind id kind') := by
  -- entries of one binding change alike, and the others stay
  have hentry : ∀ e e' : Entry, e.Erodes w e' →
      Entry.Erodes w (e.1, e.2.1, if e.2.1 = id then kind else e.2.2)
        (e'.1, e'.2.1, if e'.2.1 = id then kind' else e'.2.2) := by
    intro e e' he
    refine ⟨he.name, he.binding, he.fresh, ?_⟩
    rw [he.binding]
    split
    · exact hkind
    · exact he.kind
  have hscope : ∀ scope scope', List.Forall₂ (Entry.Erodes w) scope scope' →
      List.Forall₂ (Entry.Erodes w)
        (scope.map fun e => (e.1, e.2.1, if e.2.1 = id then kind else e.2.2))
        (scope'.map fun e => (e.1, e.2.1, if e.2.1 = id then kind' else e.2.2)) := by
    intro scope scope' hscope
    rw [List.forall₂_map_left_iff, List.forall₂_map_right_iff]
    exact hscope.imp hentry
  refine ⟨hscope _ _ h.innermost, ?_⟩
  simp only [Env.rebind]
  rw [List.forall₂_map_left_iff, List.forall₂_map_right_iff]
  exact h.outer.imp hscope

theorem lookup {scope scope' : List Entry} (h : List.Forall₂ (Entry.Erodes w) scope scope')
    (name : String) :
    Option.Rel (fun found found' => found'.1 = found.1 ∧ found.2.Erodes found'.2)
      (scope.lookup name) (scope'.lookup name) := by
  induction h with
  | nil => exact .none
  | @cons e e' _ _ he _ ih =>
    obtain ⟨spelling, id, kind⟩ := e
    obtain ⟨spelling', id', kind'⟩ := e'
    obtain ⟨rfl, rfl, -, hkind⟩ := he
    simp only [List.lookup_cons]
    split
    · exact .some ⟨rfl, hkind⟩
    · exact ih

/-- A name stands for the same binding, and its types erode. -/
theorem find? (h : Γ.Erodes w Γ') (name : String) :
    Option.Rel (fun found found' => found'.1 = found.1 ∧ found.2.Erodes found'.2)
      (Γ.find? name) (Γ'.find? name) := by
  have hscopes (scopes scopes' : List (List Entry))
      (hscopes : List.Forall₂ (List.Forall₂ (Entry.Erodes w)) scopes scopes') :
      Option.Rel (fun found found' => found'.1 = found.1 ∧ found.2.Erodes found'.2)
        (scopes.findSome? fun scope => scope.lookup name)
        (scopes'.findSome? fun scope => scope.lookup name) := by
    induction hscopes with
    | nil => exact .none
    | cons hscope _ ih =>
      simp only [List.findSome?_cons]
      have hlookup := lookup hscope name
      generalize List.lookup name _ = found at hlookup ⊢
      generalize List.lookup name _ = found' at hlookup ⊢
      cases hlookup with
      | none => exact ih
      | some hfound => exact .some hfound
  exact hscopes _ _ (.cons h.innermost h.outer)

/-- The scopes are the same but for what the bindings are. -/
theorem scopes_eq (h : Γ.Erodes w Γ') : Γ'.scopes = Γ.scopes := by
  have hscope : ∀ scope scope', List.Forall₂ (Entry.Erodes w) scope scope' →
      scope'.map (fun entry => (entry.1, entry.2.1)) =
        scope.map fun entry => (entry.1, entry.2.1) := by
    intro scope scope' hscope
    induction hscope with
    | nil => rfl
    | cons hentry _ ih => rw [List.map_cons, List.map_cons, hentry.name, hentry.binding, ih]
  have houter (scopes scopes' : List (List Entry))
      (hscopes : List.Forall₂ (List.Forall₂ (Entry.Erodes w)) scopes scopes') :
      scopes'.map (List.map fun entry => (entry.1, entry.2.1)) =
        scopes.map (List.map fun entry => (entry.1, entry.2.1)) := by
    induction hscopes with
    | nil => rfl
    | cons hinner _ ih => rw [List.map_cons, List.map_cons, hscope _ _ hinner, ih]
  rw [scopes, scopes, hscope _ _ h.innermost, houter _ _ h.outer]

theorem declares_iff (h : Γ.Erodes w Γ') (name : String) :
    Γ'.Declares name ↔ Γ.Declares name := by
  rw [← declares_scopes, ← declares_scopes, h.scopes_eq]

theorem entries (h : Γ.Erodes w Γ') : List.Forall₂ (Entry.Erodes w) Γ.entries Γ'.entries :=
  List.rel_append h.innermost (List.rel_flatten h.outer)

theorem below (h : Γ.Erodes w Γ') {n : Nat} (hbelow : Γ'.Below n) : Γ.Below n := by
  have hentries := h.entries
  rw [Below] at hbelow ⊢
  generalize Γ.entries = all at hentries ⊢
  generalize Γ'.entries = all' at hentries hbelow
  induction hentries with
  | nil => exact List.forall_mem_nil _
  | cons hentry _ ih =>
    obtain ⟨hfirst, hothers⟩ := List.forall_mem_cons.1 hbelow
    exact List.forall_mem_cons.2 ⟨hentry.binding ▸ hfirst, ih hothers⟩

theorem fresh (h : Γ.Erodes w Γ') : ∀ entry ∈ Γ.entries, entry.1 ≠ w := by
  have hentries := h.entries
  generalize Γ.entries = all at hentries ⊢
  generalize Γ'.entries = all' at hentries
  induction hentries with
  | nil => nofun
  | cons hentry _ ih => exact List.forall_mem_cons.2 ⟨hentry.fresh, ih⟩

/-- The name stands for nothing. -/
theorem find?_eq_none (h : Γ.Erodes w Γ') : Γ'.find? w = none := by
  have hfind := h.find? w
  cases hΓ : Γ.find? w with
  | none =>
    rw [hΓ] at hfind
    generalize Γ'.find? w = found at hfind
    cases hfind
    rfl
  | some found => exact absurd rfl (h.fresh _ (mem_entries_of_find? hΓ))

end Erodes

/-- Each entry is one from before, perhaps of the other kind. -/
theorem mem_entries_rebind {Γ : Env} {id : BindingId} {kind : BindingKind} {entry : Entry}
    (h : entry ∈ (Γ.rebind id kind).entries) :
    ∃ e ∈ Γ.entries, (e.1, e.2.1, if e.2.1 = id then kind else e.2.2) = entry := by
  simp only [entries, Env.rebind, List.mem_append, List.mem_map, List.mem_flatten] at h ⊢
  rcases h with ⟨e, he, rfl⟩ | ⟨scope, ⟨scope', hscope, rfl⟩, hmem⟩
  · exact ⟨e, .inl he, rfl⟩
  · obtain ⟨e, he, rfl⟩ := List.mem_map.1 hmem
    exact ⟨e, .inr ⟨scope', hscope, he⟩, rfl⟩

namespace RoutinesIn

variable {P Q : TypeDenoter → Prop} {Γ : Env}

theorem mono (h : Γ.RoutinesIn P) (hPQ : ∀ type, P type → Q type) : Γ.RoutinesIn Q :=
  fun entry hmem => (h entry hmem).mono hPQ

theorem enter (h : Γ.RoutinesIn P) (name : String) (id : BindingId) {kind : BindingKind}
    (hkind : kind.RoutineIn P) : (Γ.enter name id kind).RoutinesIn P := by
  intro entry hmem
  rcases List.mem_cons.1 hmem with rfl | hmem
  · exact hkind
  · exact h entry hmem

theorem enclose (h : Γ.RoutinesIn P) : Γ.enclose.RoutinesIn P := by
  simpa only [RoutinesIn, entries_enclose] using h

theorem close (h : Γ.RoutinesIn P) : Γ.close.RoutinesIn P :=
  fun entry hmem => h entry (mem_entries_of_close hmem)

theorem rebind (h : Γ.RoutinesIn P) (id : BindingId) {kind : BindingKind}
    (hkind : kind.RoutineIn P) : (Γ.rebind id kind).RoutinesIn P := by
  intro entry hmem
  obtain ⟨before, hbefore, rfl⟩ := mem_entries_rebind hmem
  dsimp only
  split
  · exact hkind
  · exact h before hbefore

theorem find? (h : Γ.RoutinesIn P) {name : String} {id : BindingId} {kind : BindingKind}
    (hfind : Γ.find? name = some (id, kind)) : kind.RoutineIn P :=
  h _ (mem_entries_of_find? hfind)

end RoutinesIn

/-! ## The standard environment -/

/-- Standard declarations are about scalars, in which there is nothing to erode. -/
theorem standard_erodes {w : String}
    (hw : ∀ declaration ∈ Standard.declarations, declaration.name ≠ w) :
    standard.Erodes w standard := by
  refine ⟨?_, .nil⟩
  rw [List.forall₂_same]
  intro entry hmem
  simp only [standard, List.mem_reverse, List.mem_map] at hmem
  obtain ⟨⟨declaration, id⟩, hmem, rfl⟩ := hmem
  have hdeclaration : declaration ∈ Standard.declarations :=
    List.mem_of_getElem? (List.mem_zipIdx_iff_getElem?.1 hmem)
  exact ⟨rfl, rfl, hw _ hdeclaration, Standard.kind_erodes declaration hdeclaration⟩

theorem standard_routinesIn : standard.RoutinesIn TypeDenoter.Resolved := by
  intro entry hmem
  have htypes : entry.2.2.TypesIn (TypeDenoter.Known []) := standard_typesIn entry hmem
  generalize entry.2.2 = kind at htypes ⊢
  cases kind with
  | proc formals => exact Signature.TypesIn.mono (fun _ => TypeDenoter.Known.resolved) htypes
  | func formals result =>
    exact ⟨Signature.TypesIn.mono (fun _ => TypeDenoter.Known.resolved) htypes.1,
      htypes.2.resolved⟩
  | const | var | type | unary | binary => trivial

end Env

end TriangleTam
