import TriangleTam.Proofs.Coding.Cells
import TriangleTam.Proofs.Coding.Paths
import TriangleTam.Proofs.Typing.Equivalence

/-! # What equivalence fixes

  Checking compares types by structure, and encoding lays them out denoter by
  denoter and remembers what it laid out. Types that pass for each other are
  laid out alike all the same, whatever the cells of either hold already: they
  have one size, their fields have the same places one by one, and every part
  of one has the place of an equivalent part of the other. So a value of one
  can be stored into a variable of the other word for word.
-/

namespace TriangleTam

/-! ## Entities of fields -/

/-- The offset behind fields, the first of which starts at an offset: the running sum of their
    sizes, which saturates. -/
def Entity.offsetBehind (offset : Int) (fields : List (String × Entity)) : Int :=
  fields.foldl (fun offset field => Word.clamp (offset + field.2.size)) offset

namespace Fields

/-- Each field stands behind those before it. -/
theorem getElem?_entities {k : Nat} {name : String} {entity : Entity} :
    ∀ {fields : Fields} {offset : Int}, (fields.entities offset)[k]? = some (name, entity) →
      entity = .field entity.size
        (Entity.offsetBehind offset ((fields.entities offset).take k)) := by
  induction k with
  | zero =>
    intro fields offset h
    cases fields <;>
    · obtain ⟨-, rfl⟩ := Prod.mk.inj (Option.some.inj h)
      rfl
  | succ k ih =>
    intro fields offset h
    cases fields with
    | one => cases h
    | more span field type rest => exact ih h

/-- The offset of the first field of a name is that of its entity. -/
theorem offset?_eq_some_iff {name : String} {found : Int} {fields : Fields} {offset : Int} :
    fields.offset? name offset = some found ↔
      ∃ size, (fields.entities offset).lookup name = some (.field size found) := by
  cases fields with
  | one _ field type =>
    unfold offset? entities
    by_cases hname : field.spelling = name
    · simp [hname]
    · have hne : (name == field.spelling) = false := beq_false_of_ne (Ne.symm hname)
      simp [hname, List.lookup_cons, hne]
  | more _ field type rest =>
    unfold offset? entities
    by_cases hname : field.spelling = name
    · simp [hname]
    · have hne : (name == field.spelling) = false := beq_false_of_ne (Ne.symm hname)
      rw [if_neg hname, List.lookup_cons, hne]
      exact offset?_eq_some_iff

/-- Equivalent fields have the same entities. -/
theorem entities_eq_of_equivalent : ∀ {a b : Fields} {offset : Int}, a.equivalent b = true →
    a.entities offset = b.entities offset
  | .one .., b, offset, h => by
    obtain ⟨span, name, type, rfl, hname, htype⟩ := equivalent_one_left h
    rw [entities, entities, hname, TypeDenoter.size_eq_of_equivalent htype]
  | .more .., b, offset, h => by
    obtain ⟨span, name, type, rest, rfl, hname, htype, hrest⟩ := equivalent_more_left h
    rw [entities, entities, hname, TypeDenoter.size_eq_of_equivalent htype,
      entities_eq_of_equivalent hrest]

end Fields

theorem TypeDenoter.fieldEntities_eq_of_equivalent {a b : TypeDenoter}
    (h : a.equivalent b = true) : a.fieldEntities = b.fieldEntities := by
  cases a with
  | record =>
    obtain ⟨serial, span, fields, rfl, hfields⟩ := equivalent_record_left h
    exact Fields.entities_eq_of_equivalent hfields
  | array =>
    obtain ⟨serial, span, length, element, rfl, -⟩ := equivalent_array_left h
    rfl
  | _ =>
    cases b with
    | record => simp [equivalent] at h
    | _ => rfl

theorem TypeDenoter.fieldOffset?_eq_some_iff {type : TypeDenoter} {name : String} {found : Int} :
    type.fieldOffset? name = some found ↔
      ∃ size, type.fieldEntities.lookup name = some (.field size found) := by
  cases type with
  | record => exact Fields.offset?_eq_some_iff
  | _ => simp [fieldOffset?, fieldEntities]

/-! ## Parts -/

/-- The field of a name is at the same position in equivalent records, and of an equivalent type. -/
theorem Fields.field_of_equivalent {name : String} {position : Int} {part : TypeDenoter} :
    ∀ {a b : Fields}, a.equivalent b = true → a.position? name = some position →
      a.find? name = some part →
      ∃ part', b.position? name = some position ∧ b.find? name = some part' ∧
        part.equivalent part' = true
  | .one .., b, h, hposition, hfind => by
    obtain ⟨span, field, type, rfl, hname, htype⟩ := equivalent_one_left h
    rw [position?, hname] at hposition
    rw [Fields.find?, hname] at hfind
    split at hfind
    · next heq =>
      obtain rfl := Option.some.inj hfind
      rw [if_pos heq] at hposition
      exact ⟨type, (if_pos heq).trans hposition, if_pos heq, htype⟩
    · cases hfind
  | .more .., b, h, hposition, hfind => by
    obtain ⟨span, field, type, rest, rfl, hname, htype, hrest⟩ := equivalent_more_left h
    rw [position?, hname] at hposition
    rw [Fields.find?, hname] at hfind
    split at hfind
    · next heq =>
      obtain rfl := Option.some.inj hfind
      rw [if_pos heq] at hposition
      exact ⟨type, (if_pos heq).trans hposition, if_pos heq, htype⟩
    · -- the name is further on in both chains
      next hne =>
      rw [if_neg hne] at hposition
      obtain ⟨position', hposition', rfl⟩ := Option.map_eq_some_iff.1 hposition
      obtain ⟨part', hat, hfind', hpart⟩ := field_of_equivalent hrest hposition' hfind
      refine ⟨part', ?_, (if_neg hne).trans hfind', hpart⟩
      rw [position?, if_neg hne, hat, TypeDenoter.width_eq_of_equivalent htype]
      rfl

namespace TypeDenoter

theorem select_of_equivalent {a b part : TypeDenoter} {selector : Selector} {position : Int}
    (h : a.equivalent b = true) (hselect : a.select? selector = some (position, part)) :
    ∃ part', b.select? selector = some (position, part') ∧ part.equivalent part' = true := by
  cases a with
  | record =>
    obtain ⟨serial, span, fields, rfl, hfields⟩ := equivalent_record_left h
    cases selector with
    | element => cases hselect
    | field name =>
      obtain ⟨_, hposition, hrest⟩ := Option.bind_eq_some_iff.1 hselect
      obtain ⟨_, hfind, heq⟩ := Option.bind_eq_some_iff.1 hrest
      obtain ⟨rfl, rfl⟩ := Prod.mk.inj (Option.some.inj heq)
      obtain ⟨part', hposition', hfind', hpart⟩ :=
        Fields.field_of_equivalent hfields hposition hfind
      exact ⟨part', Option.bind_eq_some_iff.2 ⟨_, hposition',
        Option.bind_eq_some_iff.2 ⟨_, hfind', rfl⟩⟩, hpart⟩
  | array =>
    obtain ⟨serial, span, length, element, rfl, hvalue, helement⟩ := equivalent_array_left h
    cases selector with
    | field => cases hselect
    | element index =>
      -- equivalent arrays are equally long, and their elements equally wide
      simp only [select?, hvalue, width_eq_of_equivalent helement] at hselect ⊢
      split at hselect
      · next hbounds =>
        obtain ⟨rfl, rfl⟩ := Prod.mk.inj (Option.some.inj hselect)
        exact ⟨element, if_pos hbounds, helement⟩
      · cases hselect
  | _ => cases hselect

/-- Where a path selects a part of a value, it selects an equivalent part at the same words of a
    value of an equivalent type. -/
theorem part_of_equivalent {path : List Selector} :
    ∀ {a b part : TypeDenoter} {position : Int}, a.equivalent b = true →
      a.part? path = some (position, part) →
      ∃ part', b.part? path = some (position, part') ∧ part.equivalent part' = true := by
  induction path with
  | nil =>
    intro a b part position h hpart
    obtain ⟨rfl, rfl⟩ := Prod.mk.inj (Option.some.inj hpart)
    exact ⟨b, rfl, h⟩
  | cons selector path ih =>
    intro a b part position h hpart
    obtain ⟨⟨outer, inner⟩, hselect, hrest⟩ := Option.bind_eq_some_iff.1 hpart
    obtain ⟨⟨rest, found⟩, hfound, heq⟩ := Option.bind_eq_some_iff.1 hrest
    obtain ⟨rfl, rfl⟩ := Prod.mk.inj (Option.some.inj heq)
    obtain ⟨inner', hselect', hinner⟩ := select_of_equivalent h hselect
    obtain ⟨part', hfound', hpart'⟩ := ih hinner hfound
    exact ⟨part', Option.bind_eq_some_iff.2 ⟨_, hselect',
      Option.bind_eq_some_iff.2 ⟨_, hfound', rfl⟩⟩, hpart'⟩

end TypeDenoter

/-! ## Layouts -/

/-- Encoding answers for the offset of a field as the record type says, whatever is on record. -/
theorem Encode.fieldOffset_eq_ok_iff {record : Vname} {type : TypeDenoter}
    (htype : record.type = some type) (field : Name) (offset : Int) (s : Encoder) :
    ((fieldOffset record field).exec s).1 = .ok offset ↔
      type.fieldOffset? field.spelling = some offset := by
  obtain ⟨journal, -, hsize⟩ := sizeOf_exec type s
  unfold fieldOffset
  simp only [htype]
  rw [exec_bind hsize]
  cases type.fieldOffset? field.spelling with
  | none => constructor <;> intro h <;> cases h
  | some found =>
    exact ⟨fun h => congrArg some (Except.ok.inj h),
      fun h => congrArg Except.ok (Option.some.inj h)⟩

/-- The types are laid out alike, whatever was asked for before. -/
structure TypeDenoter.LaidOutAlike (a b : TypeDenoter) : Prop where
  /-- Values have the same number of words. -/
  width   : a.width = b.width
  /-- However the cells around both types were filled, they answer with one size, and the fields at
      one place of the chain have one entity then. -/
  cells   : ∀ (denoters denoters' : Nat → TypeDenoter) (cells cells' : Cells),
    cells.Filled denoters → cells'.Filled denoters' → a.Numbered denoters → b.Numbered denoters' →
    (a.measure cells).1 = (b.measure cells').1 ∧
      ∀ place, (a.measure cells).2.field? place a = (b.measure cells').2.field? place b
  /-- Encoding answers with the same size for both, -/
  size    : ∀ s t : Encoder, ∃ s' t',
    (Encode.sizeOf a).exec s = (.ok a.size, s') ∧ (Encode.sizeOf b).exec t = (.ok a.size, t')
  /-- and with the same offsets. -/
  offset  : ∀ (record record' : Vname) (field field' : Name) (s t : Encoder),
    record.type = some a → record'.type = some b → field.spelling = field'.spelling →
    ∀ offset, ((Encode.fieldOffset record field).exec s).1 = .ok offset ↔
      ((Encode.fieldOffset record' field').exec t).1 = .ok offset
  /-- What a path selects of a value of one type is at the same words in a value of the other, and
      of an equivalent type. -/
  parts   : ∀ (path : List Selector) (position : Int) (part : TypeDenoter),
    a.part? path = some (position, part) →
    ∃ part', b.part? path = some (position, part') ∧ part.equivalent part' = true ∧
      part.size = part'.size

/-- Types that pass for each other are laid out alike. -/
theorem TypeDenoter.laidOutAlike_of_equivalent {a b : TypeDenoter} (h : a.equivalent b = true) :
    a.LaidOutAlike b := by
  have hsize := size_eq_of_equivalent h
  have hfields := fieldEntities_eq_of_equivalent h
  refine ⟨width_eq_of_equivalent h,
    fun denoters denoters' cells cells' hcells hcells' ha hb => ⟨?_, fun place => ?_⟩,
    fun s t => ?_, ?_, ?_⟩
  · rw [(measure_answers ha hcells.sound).size, (measure_answers hb hcells'.sound).size, hsize]
  · rw [ha.field?_measure hcells.sound, hb.field?_measure hcells'.sound, fieldEntity?, fieldEntity?,
      hfields]
  · obtain ⟨_, -, hexec⟩ := Encode.sizeOf_exec a s
    obtain ⟨_, -, hexec'⟩ := Encode.sizeOf_exec b t
    rw [← hsize] at hexec'
    exact ⟨_, _, hexec, hexec'⟩
  · intro record record' field field' s t hrecord hrecord' hname offset
    rw [Encode.fieldOffset_eq_ok_iff hrecord, Encode.fieldOffset_eq_ok_iff hrecord',
      fieldOffset?_eq_some_iff, fieldOffset?_eq_some_iff, hfields, hname]
  · intro path position part hpart
    obtain ⟨part', hpart', hequivalent⟩ := part_of_equivalent h hpart
    exact ⟨part', hpart', hequivalent, size_eq_of_equivalent hequivalent⟩

/-- A type is laid out right by the cells that were filled so far. -/
structure TypeDenoter.LaidOutBy (denoters : Nat → TypeDenoter) (cells : Cells)
    (type : TypeDenoter) : Prop where
  /-- The cells answer with the size of the type, -/
  size    : (type.measure cells).1 = type.size
  /-- and hold the entities of its fields then. -/
  fields  : ∀ place, (type.measure cells).2.field? place type = type.fieldEntity? place
  /-- Encoding answers with the size too, and puts those types on record whose cells are filled. -/
  encoded : ∀ s : Encoder, cells.Records s.layouts → ∃ s',
    (Encode.sizeOf type).exec s = (.ok (type.measure cells).1, s') ∧
      (type.measure cells).2.Records s'.layouts

theorem TypeDenoter.Numbered.laidOutBy {denoters : Nat → TypeDenoter} {cells : Cells}
    {type : TypeDenoter} (h : type.Numbered denoters) (hcells : cells.Filled denoters) :
    type.LaidOutBy denoters cells where
  size := (measure_answers h hcells.sound).size
  fields := h.field?_measure hcells.sound
  encoded _ hrecords := h.sizeOf_exec hcells.sound hrecords

/-! ## The theorem -/

/-- Equivalence of types is symmetric and transitive. It holds between a type and itself just for
    the types with no `any` and no `error` in them, and ignores how lengths are spelled. That of
    signatures is symmetric and transitive as well. Whatever the cells hold already, a type has its
    size and a field of a record stands at the running sum of the sizes before it, where encoding
    finds it by its name. And two equivalent types are laid out alike. -/
theorem TypeDenoter.equivalence_fixes_layout :
    (∀ a b : TypeDenoter, a.equivalent b = b.equivalent a) ∧
    (∀ a b c : TypeDenoter, a.equivalent b = true → b.equivalent c = true →
      a.equivalent c = true) ∧
    (∀ a : TypeDenoter, a.equivalent a = true ↔ a.Proper) ∧
    (∀ a b : TypeDenoter, a.Respelled b → ∀ c : TypeDenoter, a.equivalent c = b.equivalent c) ∧
    (∀ a b : FormalShape, a.equivalent b = b.equivalent a) ∧
    (∀ a b c : FormalShape, a.equivalent b = true → b.equivalent c = true →
      a.equivalent c = true) ∧
    (∀ a b : Signature, Signature.equivalent a b = Signature.equivalent b a) ∧
    (∀ a b c : Signature, Signature.equivalent a b = true → Signature.equivalent b c = true →
      Signature.equivalent a c = true) ∧
    (∀ (denoters : Nat → TypeDenoter) (cells : Cells) (type : TypeDenoter),
      cells.Filled denoters → type.Numbered denoters → type.LaidOutBy denoters cells) ∧
    (∀ (type : TypeDenoter) (k : Nat) (name : String) (entity : Entity),
      type.fieldEntities[k]? = some (name, entity) →
      entity = .field entity.size (Entity.offsetBehind 0 (type.fieldEntities.take k))) ∧
    (∀ (type : TypeDenoter) (name : String) (offset : Int),
      type.fieldOffset? name = some offset ↔
        ∃ size, type.fieldEntities.lookup name = some (.field size offset)) ∧
    ∀ a b : TypeDenoter, a.equivalent b = true → a.LaidOutAlike b := by
  refine ⟨equivalent_comm, fun _ _ _ => equivalent_trans, fun _ => equivalent_self_iff,
    fun _ _ => Respelled.equivalent_eq, FormalShape.equivalent_comm,
    fun _ _ _ => FormalShape.equivalent_trans, Signature.equivalent_comm,
    fun _ _ _ => Signature.equivalent_trans, fun _ _ _ hcells htype => htype.laidOutBy hcells,
    fun type k name entity hat => ?_, fun _ _ _ => fieldOffset?_eq_some_iff,
    fun _ _ => laidOutAlike_of_equivalent⟩
  cases type with
  | record => exact Fields.getElem?_entities hat
  | _ => cases hat

/-! ## Two spellings of a length -/

/-- An array of integers, ten of them. -/
private def tenIntegers (serial : Nat) (spelling : String) : TypeDenoter :=
  .array serial .nowhere ⟨spelling, .nowhere⟩ .integer

/-- A record of ten integers and a character. -/
private def tenAndOne (serial : Nat) (spelling : String) : TypeDenoter :=
  .record (serial + 1) .nowhere (.more .nowhere ⟨"is", .nowhere, none⟩
    (tenIntegers serial spelling) (.one .nowhere ⟨"c", .nowhere, none⟩ .character))

/-- The denoters of two records, with their arrays. -/
private def tenAndOnes : Nat → TypeDenoter
  | 0 => tenIntegers 0 "010"
  | 1 => tenAndOne 0 "010"
  | 2 => tenIntegers 2 "10"
  | _ => tenAndOne 2 "10"

/-- The array of one record was laid out before, and nothing of the other. -/
theorem TypeDenoter.equivalence_fixes_layout_sample :
    let cells := ((tenIntegers 0 "010").measure .empty).2
    ((tenAndOne 0 "010").measure cells).1 = ((tenAndOne 2 "10").measure .empty).1 ∧
      ((tenAndOne 2 "10").measure .empty).2.field? 1 (tenAndOne 2 "10") = some (.field 1 10) := by
  obtain ⟨-, -, -, -, -, -, -, -, hlaid, -, -, halike⟩ := equivalence_fixes_layout
  have hcells : ((tenIntegers 0 "010").measure .empty).2.Filled tenAndOnes :=
    .measure .empty ⟨rfl, trivial⟩
  have hfirst : (tenAndOne 0 "010").Numbered tenAndOnes := ⟨rfl, ⟨rfl, trivial⟩, trivial⟩
  have hsecond : (tenAndOne 2 "10").Numbered tenAndOnes := ⟨rfl, ⟨rfl, trivial⟩, trivial⟩
  have hequivalent : (tenAndOne 0 "010").equivalent (tenAndOne 2 "10") = true := by decide
  refine ⟨((halike _ _ hequivalent).cells _ _ _ _ hcells .empty hfirst hsecond).1, ?_⟩
  rw [(hlaid _ _ _ .empty hsecond).fields]
  decide

end TriangleTam
