import TriangleTam.Proofs.Coding.Separation

/-! # Paths into values

  A vname selects part of the value of its base: a field of a record, an
  element of an array, and so on down a path. The words of what a path selects
  lie inside the value, and two paths that part ways select words that are
  apart, because the fields of a record lie one behind the other and so do the
  elements of an array.
-/

namespace TriangleTam

/-! ## Selection -/

/-- A step into a value. -/
inductive Selector
  | field (name : String)
  | element (index : Int)
  deriving DecidableEq, Repr

/-- The words in front of what is selected, and its type. -/
def TypeDenoter.select? : TypeDenoter → Selector → Option (Int × TypeDenoter)
  | .record _ _ fields, .field name => do
    let position ← fields.position? name
    let type ← fields.find? name
    return (position, type)
  | .array _ _ length element, .element index =>
    if 0 ≤ index ∧ index < length.value then some (index * element.width, element) else none
  | _, _ => none

/-- The same for what a path of selectors selects, the first selector outermost. -/
def TypeDenoter.part? : TypeDenoter → List Selector → Option (Int × TypeDenoter)
  | type, [] => some (0, type)
  | type, selector :: path => do
    let (position, inner) ← type.select? selector
    let (position', found) ← inner.part? path
    return (position + position', found)

mutual

/-- A known type has no negative width. -/
theorem TypeDenoter.Known.width_nonneg {made : List TypeDenoter} :
    ∀ {type : TypeDenoter}, type.Known made → 0 ≤ type.width
  | .boolean, _ | .character, _ | .integer, _ => by decide
  | .array _ _ length element, ⟨_, hlength, helement⟩ =>
    Int.mul_nonneg hlength helement.width_nonneg
  | .record _ _ fields, ⟨_, hfields⟩ => hfields.width_nonneg

theorem Fields.Known.width_nonneg {made : List TypeDenoter} :
    ∀ {fields : Fields}, fields.Known made → 0 ≤ fields.width
  | .one _ _ _, htype => TypeDenoter.Known.width_nonneg htype
  | .more _ _ _ _, ⟨htype, hrest⟩ => Int.add_nonneg htype.width_nonneg hrest.width_nonneg

end

/-- What is selected at some words of a value: a known type, inside the value, and exact if the
    value is. -/
structure TypeDenoter.Contains (made : List TypeDenoter) (type : TypeDenoter) (position : Int)
    (part : TypeDenoter) : Prop where
  known : part.Known made
  exact : type.Exact → part.Exact
  lower : 0 ≤ position
  upper : position + part.width ≤ type.width

variable {made : List TypeDenoter}

/-- The fields of a record lie inside of it. -/
theorem Fields.Known.contains {name : String} {position : Int} {part : TypeDenoter} :
    ∀ {fields : Fields}, fields.Known made → fields.position? name = some position →
      fields.find? name = some part →
      part.Known made ∧ (∀ offset, fields.Exact offset → part.Exact) ∧ 0 ≤ position ∧
        position + part.width ≤ fields.width
  | .one _ field type, htype, hposition, hfind => by
    simp only [position?, Fields.find?] at hposition hfind
    by_cases hname : field.spelling = name
    · rw [if_pos hname] at hposition hfind
      obtain rfl := Option.some.inj hposition
      obtain rfl := Option.some.inj hfind
      exact ⟨htype, fun _ hexact => hexact.1, Int.le_refl 0, by rw [Int.zero_add]; rfl⟩
    · rw [if_neg hname] at hfind
      cases hfind
  | .more _ field type rest, ⟨htype, hrest⟩, hposition, hfind => by
    simp only [position?, Fields.find?] at hposition hfind
    have hwidth : (Fields.more ‹_› field type rest).width = type.width + rest.width := rfl
    by_cases hname : field.spelling = name
    · rw [if_pos hname] at hposition hfind
      obtain rfl := Option.some.inj hposition
      obtain rfl := Option.some.inj hfind
      have := hrest.width_nonneg
      exact ⟨htype, fun _ hexact => hexact.1, Int.le_refl 0, by rw [hwidth]; omega⟩
    · rw [if_neg hname] at hposition hfind
      -- it is one of the others, which lie behind the first field
      obtain ⟨position', hposition', rfl⟩ := Option.map_eq_some_iff.1 hposition
      obtain ⟨hknown, hexact, hlower, hupper⟩ := hrest.contains hposition' hfind
      have := htype.width_nonneg
      exact ⟨hknown, fun offset h => hexact _ h.2.2, by omega, by rw [hwidth]; omega⟩

namespace TypeDenoter

/-- An element of an array has its own words. -/
theorem element_upper {i n width : Int} (hwidth : 0 ≤ width) (hi : i < n) :
    i * width + width ≤ n * width := by
  have h : (i + 1) * width ≤ n * width := Int.mul_le_mul_of_nonneg_right hi hwidth
  rwa [Int.add_mul, Int.one_mul] at h

theorem Known.contains {type part : TypeDenoter} {selector : Selector} {position : Int}
    (h : type.Known made) (hselect : type.select? selector = some (position, part)) :
    type.Contains made position part := by
  cases type with
  | record serial span fields =>
    cases selector with
    | field name =>
      obtain ⟨_, hposition, hrest⟩ := Option.bind_eq_some_iff.1 hselect
      obtain ⟨_, hfind, heq⟩ := Option.bind_eq_some_iff.1 hrest
      obtain ⟨rfl, rfl⟩ := Prod.mk.inj (Option.some.inj heq)
      obtain ⟨hknown, hexact, hlower, hupper⟩ := h.2.contains hposition hfind
      exact ⟨hknown, hexact 0, hlower, hupper⟩
    | element => cases hselect
  | array serial span length element =>
    cases selector with
    | field => cases hselect
    -- an element within the bounds starts at a multiple of its width
    | element index =>
      obtain ⟨-, -, hknown⟩ := h
      have hwidth := hknown.width_nonneg
      simp only [select?] at hselect
      split at hselect
      · next hbounds =>
        obtain ⟨rfl, rfl⟩ := Prod.mk.inj (Option.some.inj hselect)
        exact ⟨hknown, fun hexact => hexact.1, Int.mul_nonneg hbounds.1 hwidth,
          element_upper hwidth hbounds.2⟩
      · cases hselect
  | _ => cases hselect

theorem Known.contains_part {path : List Selector} :
    ∀ {type part : TypeDenoter} {position : Int}, type.Known made →
      type.part? path = some (position, part) → type.Contains made position part := by
  induction path with
  | nil =>
    intro type part position h hpart
    obtain ⟨rfl, rfl⟩ := Prod.mk.inj (Option.some.inj hpart)
    exact ⟨h, id, Int.le_refl 0, by omega⟩
  | cons selector path ih =>
    intro type part position h hpart
    obtain ⟨⟨outer, inner⟩, hselect, hrest⟩ := Option.bind_eq_some_iff.1 hpart
    obtain ⟨⟨rest, found⟩, hfound, heq⟩ := Option.bind_eq_some_iff.1 hrest
    obtain ⟨rfl, rfl⟩ := Prod.mk.inj (Option.some.inj heq)
    have houter := h.contains hselect
    have hinner := ih houter.known hfound
    have hlower := houter.lower
    have hupper := houter.upper
    have hlower' := hinner.lower
    have hupper' := hinner.upper
    exact ⟨hinner.known, fun hexact => hinner.exact (houter.exact hexact), by omega, by omega⟩

end TypeDenoter

/-! ## Parting ways -/

/-- No word belongs to both. -/
def WordsApart (position : Int) (part : TypeDenoter) (position' : Int) (part' : TypeDenoter) :
    Prop :=
  position + part.width ≤ position' ∨ position' + part'.width ≤ position

/-- Two fields of a record lie one behind the other. -/
theorem Fields.Known.apart {name name' : String} (hne : name ≠ name') {position position' : Int}
    {part part' : TypeDenoter} :
    ∀ {fields : Fields}, fields.Known made → fields.position? name = some position →
      fields.find? name = some part → fields.position? name' = some position' →
      fields.find? name' = some part' → WordsApart position part position' part'
  | .one _ field type, _, hposition, hfind, hposition', hfind' => by
    simp only [Fields.find?] at hfind hfind'
    by_cases hname : field.spelling = name
    · rw [if_neg (fun h => hne (hname.symm.trans h))] at hfind'
      cases hfind'
    · rw [if_neg hname] at hfind
      cases hfind
  | .more _ field type rest, ⟨_, hrest⟩, hposition, hfind, hposition', hfind' => by
    simp only [position?, Fields.find?] at hposition hfind hposition' hfind'
    by_cases hname : field.spelling = name
    · -- the first field is one of the two, and the other one lies behind it
      rw [if_pos hname] at hposition hfind
      rw [if_neg (fun h => hne (hname.symm.trans h))] at hposition' hfind'
      obtain rfl := Option.some.inj hposition
      obtain rfl := Option.some.inj hfind
      obtain ⟨rest', hrest', rfl⟩ := Option.map_eq_some_iff.1 hposition'
      obtain ⟨-, -, hlower, -⟩ := hrest.contains hrest' hfind'
      exact .inl (by omega)
    · rw [if_neg hname] at hposition hfind
      obtain ⟨rest', hrest', rfl⟩ := Option.map_eq_some_iff.1 hposition
      by_cases hname' : field.spelling = name'
      · rw [if_pos hname'] at hposition' hfind'
        obtain rfl := Option.some.inj hposition'
        obtain rfl := Option.some.inj hfind'
        obtain ⟨-, -, hlower, -⟩ := hrest.contains hrest' hfind
        exact .inr (by omega)
      · rw [if_neg hname'] at hposition' hfind'
        obtain ⟨rest'', hrest'', rfl⟩ := Option.map_eq_some_iff.1 hposition'
        have hapart := hrest.apart hne hrest' hfind hrest'' hfind'
        unfold WordsApart at hapart ⊢
        omega

namespace TypeDenoter

theorem Known.apart {type part part' : TypeDenoter} {selector selector' : Selector}
    {position position' : Int} (h : type.Known made) (hne : selector ≠ selector')
    (hselect : type.select? selector = some (position, part))
    (hselect' : type.select? selector' = some (position', part')) :
    WordsApart position part position' part' := by
  cases type with
  | record serial span fields =>
    cases selector with
    | element => cases hselect
    | field name =>
      cases selector' with
      | element => cases hselect'
      | field name' =>
        obtain ⟨_, hposition, hrest⟩ := Option.bind_eq_some_iff.1 hselect
        obtain ⟨_, hfind, heq⟩ := Option.bind_eq_some_iff.1 hrest
        obtain ⟨rfl, rfl⟩ := Prod.mk.inj (Option.some.inj heq)
        obtain ⟨_, hposition', hrest'⟩ := Option.bind_eq_some_iff.1 hselect'
        obtain ⟨_, hfind', heq'⟩ := Option.bind_eq_some_iff.1 hrest'
        obtain ⟨rfl, rfl⟩ := Prod.mk.inj (Option.some.inj heq')
        -- fields of different names are different fields
        have hnames : name ≠ name' := fun heq => hne (congrArg Selector.field heq)
        exact h.2.apart hnames hposition hfind hposition' hfind'
  | array serial span length element =>
    cases selector with
    | field => cases hselect
    | element index =>
      cases selector' with
      | field => cases hselect'
      | element index' =>
        have hwidth := h.2.2.width_nonneg
        -- the element of the smaller index ends before the other one starts
        have hindices : index ≠ index' := fun heq => hne (congrArg Selector.element heq)
        simp only [select?, Option.ite_none_right_eq_some] at hselect hselect'
        obtain ⟨-, heq⟩ := hselect
        obtain ⟨-, heq'⟩ := hselect'
        obtain ⟨rfl, rfl⟩ := Prod.mk.inj (Option.some.inj heq)
        obtain ⟨rfl, rfl⟩ := Prod.mk.inj (Option.some.inj heq')
        rcases lt_or_gt_of_ne hindices with hlt | hlt
        · exact .inl (element_upper hwidth hlt)
        · exact .inr (element_upper hwidth hlt)
  | _ => cases hselect

/-- Two paths, neither of which goes on from the other, select words that are apart. -/
theorem Known.apart_part {path path' : List Selector} :
    ∀ {type part part' : TypeDenoter} {position position' : Int}, type.Known made →
      ¬ path <+: path' → ¬ path' <+: path →
      type.part? path = some (position, part) → type.part? path' = some (position', part') →
      WordsApart position part position' part' := by
  induction path generalizing path' with
  | nil =>
    intro _ _ _ _ _ _ hno _ _ _
    exact absurd List.nil_prefix hno
  | cons selector path ih =>
    intro type part part' position position' h hno hno' hpart hpart'
    cases path' with
    | nil => exact absurd List.nil_prefix hno'
    | cons selector' path' =>
      obtain ⟨⟨outer, inner⟩, hselect, hrest⟩ := Option.bind_eq_some_iff.1 hpart
      obtain ⟨⟨rest, found⟩, hfound, heq⟩ := Option.bind_eq_some_iff.1 hrest
      obtain ⟨rfl, rfl⟩ := Prod.mk.inj (Option.some.inj heq)
      obtain ⟨⟨outer', inner'⟩, hselect', hrest'⟩ := Option.bind_eq_some_iff.1 hpart'
      obtain ⟨⟨rest', found'⟩, hfound', heq'⟩ := Option.bind_eq_some_iff.1 hrest'
      obtain ⟨rfl, rfl⟩ := Prod.mk.inj (Option.some.inj heq')
      have hknown := (h.contains hselect).known
      by_cases hsame : selector = selector'
      · -- the paths part ways further down, inside the same part
        subst hsame
        obtain ⟨rfl, rfl⟩ := Prod.mk.inj (Option.some.inj (hselect.symm.trans hselect'))
        have hapart := ih hknown (fun h => hno (List.cons_prefix_cons.2 ⟨rfl, h⟩))
          (fun h => hno' (List.cons_prefix_cons.2 ⟨rfl, h⟩)) hfound hfound'
        unfold WordsApart at hapart ⊢
        omega
      · -- they part ways here, and each stays inside of what it selected
        have hapart := h.apart hsame hselect hselect'
        have hinner := hknown.contains_part hfound
        have hinner' := (h.contains hselect').known.contains_part hfound'
        have := hinner.lower
        have := hinner.upper
        have := hinner'.lower
        have := hinner'.upper
        unfold WordsApart at hapart ⊢
        omega

/-- One more selector at the end of a path. -/
theorem part?_append {path : List Selector} {selector : Selector} {found inner : TypeDenoter}
    {position' : Int} :
    ∀ {type : TypeDenoter} {position : Int}, type.part? path = some (position, inner) →
      inner.select? selector = some (position', found) →
      type.part? (path ++ [selector]) = some (position + position', found) := by
  induction path with
  | nil =>
    intro type position hpart hselect
    obtain ⟨rfl, rfl⟩ := Prod.mk.inj (Option.some.inj hpart)
    show ((type.select? selector).bind _) = _
    rw [hselect, Int.zero_add]
    show some (position' + 0, found) = _
    rw [Int.add_zero]
  | cons first path ih =>
    intro type position hpart hselect
    obtain ⟨⟨outer, middle⟩, hfirst, hrest⟩ := Option.bind_eq_some_iff.1 hpart
    obtain ⟨⟨rest, _⟩, hmiddle, heq⟩ := Option.bind_eq_some_iff.1 hrest
    obtain ⟨rfl, rfl⟩ := Prod.mk.inj (Option.some.inj heq)
    show ((type.select? first).bind _) = _
    rw [hfirst]
    show ((middle.part? (path ++ [selector])).bind _) = _
    rw [ih hmiddle hselect, Int.add_assoc]
    rfl

end TypeDenoter

/-! ## Vnames -/

namespace Vname

/-- The name at which the vname begins. -/
def base : Vname → Name
  | simple _ _ _ name => name
  | dot _ _ _ record _ => record.base
  | subscript _ _ _ array _ => array.base

/-- The steps from the base to what the vname denotes. -/
def path : Vname → List Selector
  | simple .. => []
  | dot _ _ _ record field => record.path ++ [.field field.spelling]
  | subscript _ _ _ array index => array.path ++ [.element (index.integerValue?.getD 0)]

/-- All subscripts are literals inside the bounds of their arrays. -/
def InBounds : Vname → Prop
  | simple .. => True
  | dot _ _ _ record _ => record.InBounds
  | subscript _ _ _ array index => array.InBounds ∧
    ∃ serial span length element value, array.type = some (.array serial span length element) ∧
      index.integerValue? = some value ∧ 0 ≤ value ∧ value < length.value

end Vname

/-- A name in scope stands for values of the type, or for a variable of the type. -/
def BindingKind.Values (type : TypeDenoter) (kind : BindingKind) : Prop :=
  kind = .const type ∨ kind = .var type

variable {π : Plan} {Γ : Env} {frame : Frame} {a : Nat} {lines : List Line} {entity : Entity}
  {access : Access}

/-- The base of the vname is a constant or a variable in scope, and if the subscripts are in bounds,
    the place is what the path of the vname selects in its value. -/
structure Vname.Reaches (made : List TypeDenoter) (π : Plan) (Γ : Env) (vname : Vname)
    (entity : Entity) (access : Access) (baseType type : TypeDenoter) : Prop where
  base    : ∃ entry ∈ Γ.entries, vname.base.binding = some entry.2.1 ∧
    entry.2.2.Values baseType ∧ π.entity entry.2.1 = some entity
  known   : baseType.Known made
  selects : vname.InBounds →
    access.indexed = false ∧ baseType.part? vname.path = some (access.offset, type)

namespace Vname.Reaches

variable {span typeSpan : Span} {isVariable : Bool} {serial : Nat} {baseType type : TypeDenoter}

/-- A field of what a vname reaches. -/
theorem dot {record : Vname} {field : Name} {fields : Fields} {position : Int}
    (h : record.Reaches made π Γ entity access baseType (.record serial typeSpan fields))
    (hposition : fields.position? field.spelling = some position)
    (hfind : fields.find? field.spelling = some type) :
    (Vname.dot span (some type) isVariable record field).Reaches made π Γ entity
      { access with offset := access.offset + position } baseType type := by
  have hselect : (TypeDenoter.record serial typeSpan fields).select? (.field field.spelling) =
      some (position, type) := by
    show (Option.bind _ _) = _
    rw [hposition]
    show (Option.bind _ _) = _
    rw [hfind]
    rfl
  refine ⟨h.base, h.known, fun hbounds => ?_⟩
  obtain ⟨hindexed, hpart⟩ := h.selects hbounds
  exact ⟨hindexed, TypeDenoter.part?_append hpart hselect⟩

/-- An element of what a vname reaches, at an index that is known. -/
theorem known_subscript {array : Vname} {index : Expression} {length : IntegerLiteral} {value : Int}
    (h : array.Reaches made π Γ entity access baseType (.array serial typeSpan length type))
    (htype : array.type = some (.array serial typeSpan length type))
    (hvalue : index.integerValue? = some value) :
    (Vname.subscript span (some type) isVariable array index).Reaches made π Γ entity
      { access with offset := access.offset + value * type.width } baseType type := by
  refine ⟨h.base, h.known, fun hbounds => ?_⟩
  obtain ⟨harray, _, _, length', _, value', htype', hvalue', hlower, hupper⟩ := hbounds
  obtain ⟨hindexed, hpart⟩ := h.selects harray
  obtain rfl := Option.some.inj (hvalue.symm.trans hvalue')
  obtain ⟨-, -, rfl, -⟩ := TypeDenoter.array.inj (Option.some.inj (htype.symm.trans htype'))
  have hselect : (TypeDenoter.array serial typeSpan length type).select? (.element value) =
      some (value * type.width, type) := if_pos ⟨hlower, hupper⟩
  refine ⟨hindexed, ?_⟩
  rw [Vname.path, hvalue]
  exact TypeDenoter.part?_append hpart hselect

/-- An index that is computed is not in bounds as a literal. -/
theorem unknown_subscript {array : Vname} {index : Expression} {arrayType : TypeDenoter}
    (h : array.Reaches made π Γ entity access baseType arrayType)
    (hvalue : index.integerValue? = none) :
    (Vname.subscript span (some type) isVariable array index).Reaches made π Γ entity
      { access with indexed := true } baseType type := by
  refine ⟨h.base, h.known, fun hbounds => ?_⟩
  obtain ⟨-, _, _, _, _, _, -, hvalue', -⟩ := hbounds
  rw [hvalue] at hvalue'
  cases hvalue'

end Vname.Reaches

mutual

/-- Code for a vname is about what the vname reaches. -/
theorem Vname.Typed.reaches {Γ : Env} {π : Plan} {frame : Frame} :
    ∀ {p p' : Supply} {source vname : Vname} {type : TypeDenoter} {a : Nat} {lines : List Line}
      {entity : Entity} {access : Access}, Vname.Typed Γ p source vname type p' →
      Vname.Code π frame a vname lines entity access →
      vname.All (TypeDenoter.Known made) (Finds (TypeDenoter.Known made)) →
      ∃ baseType, vname.Reaches made π Γ entity access baseType type
  | _, _, _, _, _, _, _, _, _, .const hfind, .simple hname hat, ⟨_, rfl, hknown⟩ => by
    obtain rfl := Option.some.inj hname
    exact ⟨_, ⟨_, Env.mem_entries_of_find? hfind, rfl, .inl rfl, hat⟩, hknown, fun _ => ⟨rfl, rfl⟩⟩
  | _, _, _, _, _, _, _, _, _, .var hfind, .simple hname hat, ⟨_, rfl, hknown⟩ => by
    obtain rfl := Option.some.inj hname
    exact ⟨_, ⟨_, Env.mem_entries_of_find? hfind, rfl, .inr rfl, hat⟩, hknown, fun _ => ⟨rfl, rfl⟩⟩
  | _, _, _, _, _, _, _, _, _, .dot hrecord hfind, .dot hcode _ htype hposition, ⟨_, hknown⟩ => by
    obtain ⟨baseType, hreaches⟩ := hrecord.reaches hcode hknown
    obtain ⟨rfl, rfl, rfl⟩ := TypeDenoter.record.inj
      (Option.some.inj (hrecord.type_eq.symm.trans htype))
    exact ⟨baseType, hreaches.dot hposition hfind⟩
  | _, _, _, _, _, _, _, _, _, .subscript harray _, .known hcode _ hvalue, ⟨_, hknown, _⟩ => by
    obtain ⟨baseType, hreaches⟩ := harray.reaches hcode hknown
    exact ⟨baseType, hreaches.known_subscript harray.type_eq hvalue⟩
  | _, _, _, _, _, _, _, _, _, .subscript harray _, .unknown hcode _ hvalue _,
      ⟨_, hknown, _⟩ => by
    obtain ⟨baseType, hreaches⟩ := harray.reaches hcode hknown
    exact ⟨baseType, hreaches.unknown_subscript hvalue⟩

end

end TriangleTam
