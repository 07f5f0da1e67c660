import TriangleTam.Code.Layout
import TriangleTam.Proofs.Typing.Denoter

/-! # Widths of types

  The **width** of a type is the number of words of its values, and the
  position of a field is the number of words in front of it, both without a
  bound. The sizes and offsets that code generation works with saturate. They
  are the widths and positions where every size in the type is a word, and
  such a type is called **exact**.

  A type is laid out once, and only then is it found out whether it is exact.
  So a record of layouts is sound for the denoters made if all that is on
  record is exact, unless something was out of range.
-/

namespace TriangleTam

/-! ## Widths and positions -/

mutual

/-- The number of words of a value. -/
def TypeDenoter.width : TypeDenoter → Int
  | .boolean | .character | .integer => Machine.scalarSize
  | .any | .error | .named .. => 0
  | .array _ _ length element => length.value * element.width
  | .record _ _ fields => fields.width

def Fields.width : Fields → Int
  | .one _ _ type => type.width
  | .more _ _ type rest => type.width + rest.width

end

/-- The number of words in front of the first field called `name`. -/
def Fields.position? (name : String) : Fields → Option Int
  | .one _ field _ => if field.spelling = name then some 0 else none
  | .more _ field type rest =>
    if field.spelling = name then some 0 else (rest.position? name).map (type.width + ·)

/-! ## Exact types -/

mutual

/-- Every size in the type is a word. -/
def TypeDenoter.Exact : TypeDenoter → Prop
  | .boolean | .character | .integer | .any | .error | .named .. => True
  | .array _ _ length element => element.Exact ∧ Word.Fits (length.value * element.size)
  | .record _ _ fields => fields.Exact 0

/-- Every size in fields that start at an offset is a word. -/
def Fields.Exact (offset : Int) : Fields → Prop
  | .one _ _ type => type.Exact ∧ Word.Fits (offset + type.size)
  | .more _ _ type rest =>
    type.Exact ∧ Word.Fits (offset + type.size) ∧ rest.Exact (offset + type.size)

end

mutual

/-- The size of an exact type is its width. -/
theorem TypeDenoter.Exact.size_eq : ∀ {type : TypeDenoter}, type.Exact → type.size = type.width
  | .boolean, _ | .character, _ | .integer, _ | .any, _ | .error, _ | .named .., _ => rfl
  | .array _ _ length element, ⟨helement, hfits⟩ => by
    rw [TypeDenoter.size, Word.clamp_of_fits hfits, helement.size_eq]
    rfl
  | .record _ _ fields, hfields => by
    have hexact : fields.Exact 0 := hfields
    rw [TypeDenoter.size, hexact.extent_eq, Int.zero_add]
    rfl

theorem Fields.Exact.extent_eq : ∀ {fields : Fields} {offset : Int}, fields.Exact offset →
    fields.extent offset = offset + fields.width
  | .one _ _ type, offset, ⟨htype, hfits⟩ => by
    simp only [Fields.extent]
    rw [Word.clamp_of_fits hfits, htype.size_eq]
    rfl
  | .more _ _ type rest, offset, ⟨htype, hfits, hrest⟩ => by
    simp only [Fields.extent]
    rw [Word.clamp_of_fits hfits, hrest.extent_eq, htype.size_eq, Int.add_assoc]
    rfl

end

/-- The offset of a field of an exact record is its position. -/
theorem Fields.Exact.offset?_eq {name : String} : ∀ {fields : Fields} {offset : Int},
    fields.Exact offset → fields.offset? name offset = (fields.position? name).map (offset + ·)
  | .one _ field _, offset, _ => by
    simp only [Fields.offset?, Fields.position?]
    split
    · simp
    · rfl
  | .more _ field type rest, offset, ⟨htype, hfits, hrest⟩ => by
    simp only [Fields.offset?, Fields.position?]
    split
    · simp
    · rw [Word.clamp_of_fits hfits, hrest.offset?_eq, htype.size_eq, Option.map_map]
      congr 1
      funext position
      exact Int.add_assoc _ _ _

/-- A record has an offset for each of its fields. -/
theorem Fields.isSome_offset? {name : String} {type : TypeDenoter} :
    ∀ {fields : Fields}, fields.find? name = some type → ∀ offset : Int,
      ∃ found, fields.offset? name offset = some found
  | .one _ field _, hfind, offset => by
    simp only [Fields.find?] at hfind
    simp only [Fields.offset?]
    split at hfind
    · next heq => exact ⟨offset, by rw [if_pos heq]⟩
    · cases hfind
  | .more _ field _ rest, hfind, offset => by
    simp only [Fields.find?] at hfind
    simp only [Fields.offset?]
    split at hfind
    · next heq => exact ⟨offset, by rw [if_pos heq]⟩
    · next hne =>
      rw [if_neg hne]
      exact Fields.isSome_offset? hfind _

/-! ## Sizes -/

theorem Word.clamp_nonneg {n : Int} (h : 0 ≤ n) : 0 ≤ Word.clamp n := by
  unfold Word.clamp Word.least Word.greatest
  omega

mutual

/-- A known type has no negative size. -/
theorem TypeDenoter.Known.size_nonneg {made : List TypeDenoter} :
    ∀ {type : TypeDenoter}, type.Known made → 0 ≤ type.size
  | .boolean, _ | .character, _ | .integer, _ => by decide
  | .array _ _ length element, ⟨_, hlength, helement⟩ => by
    rw [TypeDenoter.size]
    exact Word.clamp_nonneg (Int.mul_nonneg hlength helement.size_nonneg)
  | .record _ _ fields, ⟨_, hfields⟩ => hfields.extent_nonneg (Int.le_refl 0)

theorem Fields.Known.extent_nonneg {made : List TypeDenoter} :
    ∀ {fields : Fields}, fields.Known made → ∀ {offset : Int}, 0 ≤ offset →
      0 ≤ fields.extent offset
  | .one _ _ type, htype, offset, hoffset => by
    have hknown : type.Known made := htype
    simp only [Fields.extent]
    exact Word.clamp_nonneg (Int.add_nonneg hoffset hknown.size_nonneg)
  | .more _ _ type rest, ⟨htype, hrest⟩, offset, hoffset => by
    simp only [Fields.extent]
    exact hrest.extent_nonneg (Word.clamp_nonneg (Int.add_nonneg hoffset htype.size_nonneg))

end

/-! ## Equivalent structures -/

theorem TypeDenoter.equivalent_array_left {serial : Nat} {span : Span} {length : IntegerLiteral}
    {element b : TypeDenoter}
    (h : (TypeDenoter.array serial span length element).equivalent b = true) :
    ∃ serial' span' length' element', b = .array serial' span' length' element' ∧
      length.value = length'.value ∧ element.equivalent element' = true := by
  cases b with
  | array serial' span' length' element' =>
    obtain ⟨hlength, helement⟩ := Bool.and_eq_true_iff.1 h
    exact ⟨serial', span', length', element', rfl, eq_of_beq hlength, helement⟩
  | _ => cases h

theorem TypeDenoter.equivalent_record_left {serial : Nat} {span : Span} {fields : Fields}
    {b : TypeDenoter} (h : (TypeDenoter.record serial span fields).equivalent b = true) :
    ∃ serial' span' fields', b = .record serial' span' fields' ∧
      fields.equivalent fields' = true := by
  cases b with
  | record serial' span' fields' => exact ⟨serial', span', fields', rfl, h⟩
  | _ => cases h

theorem Fields.equivalent_one_left {span : Span} {name : Name} {type : TypeDenoter} {b : Fields}
    (h : (Fields.one span name type).equivalent b = true) :
    ∃ span' name' type', b = .one span' name' type' ∧ name.spelling = name'.spelling ∧
      type.equivalent type' = true := by
  cases b with
  | one span' name' type' =>
    obtain ⟨hname, htype⟩ := Bool.and_eq_true_iff.1 h
    exact ⟨span', name', type', rfl, eq_of_beq hname, htype⟩
  | more => cases h

theorem Fields.equivalent_more_left {span : Span} {name : Name} {type : TypeDenoter}
    {rest b : Fields} (h : (Fields.more span name type rest).equivalent b = true) :
    ∃ span' name' type' rest', b = .more span' name' type' rest' ∧
      name.spelling = name'.spelling ∧ type.equivalent type' = true ∧
      rest.equivalent rest' = true := by
  cases b with
  | one => cases h
  | more span' name' type' rest' =>
    obtain ⟨hfirst, hrest⟩ := Bool.and_eq_true_iff.1 h
    obtain ⟨hname, htype⟩ := Bool.and_eq_true_iff.1 hfirst
    exact ⟨span', name', type', rest', rfl, eq_of_beq hname, htype, hrest⟩

mutual

/-- Equivalent types have the same size. -/
theorem TypeDenoter.size_eq_of_equivalent : ∀ {a b : TypeDenoter},
    a.equivalent b = true → a.size = b.size
  | .array _ _ length element, b, h => by
    obtain ⟨serial, span, length', element', rfl, hvalue, helement⟩ :=
      TypeDenoter.equivalent_array_left h
    rw [TypeDenoter.size, TypeDenoter.size, hvalue, TypeDenoter.size_eq_of_equivalent helement]
  | .record _ _ fields, b, h => by
    obtain ⟨serial, span, fields', rfl, hfields⟩ := TypeDenoter.equivalent_record_left h
    rw [TypeDenoter.size, TypeDenoter.size, Fields.extent_eq_of_equivalent hfields]
  | .boolean, b, h | .character, b, h | .integer, b, h | .any, b, h | .error, b, h
  | .named .., b, h => by
    cases b <;> first | rfl | cases h

theorem Fields.extent_eq_of_equivalent : ∀ {a b : Fields}, a.equivalent b = true →
    a.extent = b.extent
  | .one _ _ type, b, h => by
    obtain ⟨span, name, type', rfl, -, htype⟩ := Fields.equivalent_one_left h
    funext offset
    simp only [Fields.extent]
    rw [TypeDenoter.size_eq_of_equivalent htype]
  | .more _ _ type rest, b, h => by
    obtain ⟨span, name, type', rest', rfl, -, htype, hrest⟩ := Fields.equivalent_more_left h
    funext offset
    simp only [Fields.extent]
    rw [TypeDenoter.size_eq_of_equivalent htype, Fields.extent_eq_of_equivalent hrest]

end

mutual

/-- Equivalent types have the same width. -/
theorem TypeDenoter.width_eq_of_equivalent : ∀ {a b : TypeDenoter},
    a.equivalent b = true → a.width = b.width
  | .array _ _ length element, b, h => by
    obtain ⟨serial, span, length', element', rfl, hvalue, helement⟩ :=
      TypeDenoter.equivalent_array_left h
    rw [TypeDenoter.width, TypeDenoter.width, hvalue, TypeDenoter.width_eq_of_equivalent helement]
  | .record _ _ fields, b, h => by
    obtain ⟨serial, span, fields', rfl, hfields⟩ := TypeDenoter.equivalent_record_left h
    exact Fields.width_eq_of_equivalent hfields
  | .boolean, b, h | .character, b, h | .integer, b, h | .any, b, h | .error, b, h
  | .named .., b, h => by
    cases b <;> first | rfl | cases h

theorem Fields.width_eq_of_equivalent : ∀ {a b : Fields}, a.equivalent b = true →
    a.width = b.width
  | .one _ _ type, b, h => by
    obtain ⟨span, name, type', rfl, -, htype⟩ := Fields.equivalent_one_left h
    exact TypeDenoter.width_eq_of_equivalent htype
  | .more _ _ type rest, b, h => by
    obtain ⟨span, name, type', rest', rfl, -, htype, hrest⟩ := Fields.equivalent_more_left h
    rw [Fields.width, Fields.width, TypeDenoter.width_eq_of_equivalent htype,
      Fields.width_eq_of_equivalent hrest]

end

/-! ## Laying out -/

/-- What is on record is made and exact. -/
def Layouts.Sound (made : List TypeDenoter) (layouts : Layouts) : Prop :=
  ∀ serial, layouts.contains (.written serial) = true →
    ∃ type, made[serial]? = some type ∧ type.Exact

namespace LayingOut

/-- Unless something was out of range, what is on record is made and exact. -/
def Sound (made : List TypeDenoter) (s : LayingOut) : Prop :=
  s.outOfRange = false → s.layouts.Sound made

theorem meet_outOfRange {s : LayingOut} {n : Int} (h : (s.meet n).outOfRange = false) :
    s.outOfRange = false ∧ Word.Fits n := by
  unfold meet at h
  split at h
  · next hfits => exact ⟨h, hfits⟩
  · cases h

theorem meet_of_fits {s : LayingOut} {n : Int} (h : Word.Fits n) : s.meet n = s := if_pos h

theorem Sound.meet {made : List TypeDenoter} {s : LayingOut} (h : s.Sound made) (n : Int) :
    (s.meet n).Sound made := by
  intro hrange
  have hs := h (meet_outOfRange hrange).1
  unfold LayingOut.meet
  split
  · exact hs
  · exact hs

/-- A standard type has no serial. -/
theorem Sound.add {made : List TypeDenoter} {s : LayingOut} (h : s.Sound made) {key : LayoutKey}
    (hkey : ∀ serial, key ≠ .written serial) (type : TypeDenoter) : (s.add key type).Sound made := by
  intro hrange serial hcontains
  simp only [LayingOut.add, Layouts.contains_insert, hkey serial, decide_false,
    Bool.false_or] at hcontains
  exact h hrange serial hcontains

theorem Sound.add_written {made : List TypeDenoter} {s : LayingOut} (h : s.Sound made)
    {serial : Nat} {type : TypeDenoter} (hat : made[serial]? = some type)
    (hexact : s.outOfRange = false → type.Exact) : (s.add (.written serial) type).Sound made := by
  intro hrange serial' hcontains
  simp only [LayingOut.add, Layouts.contains_insert, Bool.or_eq_true, decide_eq_true_eq] at hcontains
  rcases hcontains with heq | hcontains
  · cases heq
    exact ⟨type, hat, hexact hrange⟩
  · exact h hrange serial' hcontains

end LayingOut

/-- After a type was laid out without a size out of range, it is exact. -/
structure TypeDenoter.LaidOut (made : List TypeDenoter) (s s' : LayingOut) (type : TypeDenoter) :
    Prop where
  sound : s'.Sound made
  range : s'.outOfRange = false → s.outOfRange = false
  exact : s'.outOfRange = false → type.Exact

/-- The same of fields that start at an offset. -/
structure Fields.LaidOut (made : List TypeDenoter) (s s' : LayingOut) (offset : Int)
    (fields : Fields) : Prop where
  sound : s'.Sound made
  range : s'.outOfRange = false → s.outOfRange = false
  exact : s'.outOfRange = false → fields.Exact offset

mutual

theorem TypeDenoter.Known.layOut {made : List TypeDenoter} :
    ∀ {type : TypeDenoter}, type.Known made → ∀ {s : LayingOut}, s.Sound made →
      type.LaidOut made s (type.layOut s)
  | .boolean, _, s, hs | .character, _, s, hs | .integer, _, s, hs => by
    unfold TypeDenoter.layOut
    split
    · exact ⟨hs, id, fun _ => trivial⟩
    · exact ⟨hs.add (by nofun) _, id, fun _ => trivial⟩
  | .array serial span length element, ⟨hat, _, helement⟩, s, hs => by
    unfold TypeDenoter.layOut
    split
    · next hcontains =>
      -- the layout is there, and that of a serial is always of the type with it
      refine ⟨hs, id, fun hrange => ?_⟩
      obtain ⟨type, hat', hexact⟩ := hs hrange serial hcontains
      obtain rfl := Option.some.inj (hat.symm.trans hat')
      exact hexact
    · -- the element first, then the product, which is exact while all is in range
      have hlaid := helement.layOut hs
      have hexact (hrange : ((element.layOut s).meet (length.value * element.size)).outOfRange =
          false) : (TypeDenoter.array serial span length element).Exact :=
        have hmeet := LayingOut.meet_outOfRange hrange
        ⟨hlaid.exact hmeet.1, hmeet.2⟩
      refine ⟨(hlaid.sound.meet _).add_written hat hexact, fun hrange => ?_, hexact⟩
      exact hlaid.range (LayingOut.meet_outOfRange hrange).1
  | .record serial span fields, ⟨hat, hfields⟩, s, hs => by
    unfold TypeDenoter.layOut
    split
    · next hcontains =>
      -- found by its serial, as for arrays
      refine ⟨hs, id, fun hrange => ?_⟩
      obtain ⟨type, hat', hexact⟩ := hs hrange serial hcontains
      obtain rfl := Option.some.inj (hat.symm.trans hat')
      exact hexact
    · have hlaid := hfields.layOut (Int.le_refl 0) hs
      exact ⟨hlaid.sound.add_written hat hlaid.exact, hlaid.range, hlaid.exact⟩

theorem Fields.Known.layOut {made : List TypeDenoter} :
    ∀ {fields : Fields}, fields.Known made → ∀ {offset : Int}, 0 ≤ offset →
      ∀ {s : LayingOut}, s.Sound made → fields.LaidOut made s (fields.layOut offset s) offset
  | .one _ _ type, htype, offset, _, s, hs => by
    have hknown : type.Known made := htype
    have hlaid := hknown.layOut hs
    unfold Fields.layOut
    refine ⟨hlaid.sound.meet _, fun hrange => ?_, fun hrange => ?_⟩
    · exact hlaid.range (LayingOut.meet_outOfRange hrange).1
    · have hmeet := LayingOut.meet_outOfRange hrange
      exact ⟨hlaid.exact hmeet.1, hmeet.2⟩
  | .more _ _ type rest, ⟨htype, hrest⟩, offset, hoffset, s, hs => by
    have hlaid := htype.layOut hs
    have hnext := Word.clamp_nonneg (Int.add_nonneg hoffset htype.size_nonneg)
    have hlaid' := hrest.layOut hnext (hlaid.sound.meet (offset + type.size))
    unfold Fields.layOut
    refine ⟨hlaid'.sound, fun hrange => ?_, fun hrange => ?_⟩
    · exact hlaid.range (LayingOut.meet_outOfRange (hlaid'.range hrange)).1
    · have hmeet := LayingOut.meet_outOfRange (hlaid'.range hrange)
      have hexact := hlaid'.exact hrange
      rw [Word.clamp_of_fits hmeet.2] at hexact
      exact ⟨hlaid.exact hmeet.1, hmeet.2, hexact⟩

end

mutual

/-- Laying out an exact type puts nothing out of range. -/
theorem TypeDenoter.Exact.layOut_outOfRange : ∀ {type : TypeDenoter}, type.Exact →
    ∀ s : LayingOut, (type.layOut s).outOfRange = s.outOfRange
  | .boolean, _, s | .character, _, s | .integer, _, s => by
    unfold TypeDenoter.layOut
    split <;> rfl
  | .any, _, _ | .error, _, _ | .named .., _, _ => rfl
  | .array serial span length element, ⟨helement, hfits⟩, s => by
    unfold TypeDenoter.layOut
    split
    · rfl
    · rw [LayingOut.meet_of_fits hfits]
      exact helement.layOut_outOfRange s
  | .record serial span fields, hfields, s => by
    unfold TypeDenoter.layOut
    split
    · rfl
    · exact Fields.Exact.layOut_outOfRange hfields s

theorem Fields.Exact.layOut_outOfRange : ∀ {fields : Fields} {offset : Int},
    fields.Exact offset → ∀ s : LayingOut, (fields.layOut offset s).outOfRange = s.outOfRange
  | .one _ _ type, offset, ⟨htype, hfits⟩, s => by
    unfold Fields.layOut
    rw [LayingOut.meet_of_fits hfits]
    exact htype.layOut_outOfRange s
  | .more _ _ type rest, offset, ⟨htype, hfits, hrest⟩, s => by
    unfold Fields.layOut
    rw [LayingOut.meet_of_fits hfits, Word.clamp_of_fits hfits, hrest.layOut_outOfRange]
    exact htype.layOut_outOfRange s

end

end TriangleTam
