import TriangleTam.Proofs.RepeatedEncoding

/-! # Cells of types and fields

  A denoter has a **cell** for its entity, and so has every field of a record.
  The first time the size of the denoter is asked for, the size is worked out
  from the cells of its parts and put into its own, and from then on the cell
  answers. A use of a declared type shares the cells of the declaration, so
  that cells belong to the serial of a denoter.

  Whatever was asked for before, a cell holds what working out would find: a
  type has its own size, and each field stands behind the fields before it.
  The cells that are filled are the layouts on record.
-/

namespace TriangleTam

/-! ## Entities of fields -/

/-- The entities of fields, the first of which starts at an offset, with the names of the fields. -/
def Fields.entities (offset : Int) : Fields → List (String × Entity)
  | .one _ name type => [(name.spelling, .field type.size offset)]
  | .more _ name type rest =>
    (name.spelling, .field type.size offset) :: rest.entities (Word.clamp (offset + type.size))

/-- The entities of the fields of a record type, in the order of the chain. -/
def TypeDenoter.fieldEntities : TypeDenoter → List (String × Entity)
  | .record _ _ fields => fields.entities 0
  | _ => []

/-- The entity of the field at a place in the chain. -/
def TypeDenoter.fieldEntity? (type : TypeDenoter) (place : Nat) : Option Entity :=
  type.fieldEntities[place]?.map Prod.snd

/-- The types of fields. -/
def Fields.types : Fields → List TypeDenoter
  | .one _ _ type => [type]
  | .more _ _ type rest => type :: rest.types

/-- The types of the fields of a record type, in the order of the chain. -/
def TypeDenoter.fieldTypes : TypeDenoter → List TypeDenoter
  | .record _ _ fields => fields.types
  | _ => []

/-! ## Filling cells -/

/-- The entities of denoters and fields, as far as they are there. -/
structure Cells where
  types  : LayoutKey → Option Entity
  /-- Of the fields of the record with a serial, by their places in the chain. -/
  fields : Nat → Nat → Option Entity

namespace Cells

def empty : Cells := ⟨fun _ => none, fun _ _ => none⟩

/-- Put an entity into the cell of a type. -/
def setType (cells : Cells) (key : LayoutKey) (entity : Entity) : Cells :=
  { cells with types := fun key' => if key' = key then some entity else cells.types key' }

/-- Put an entity into the cell of a field. -/
def setField (cells : Cells) (serial place : Nat) (entity : Entity) : Cells :=
  { cells with
    fields := fun serial' place' =>
      if serial' = serial ∧ place' = place then some entity else cells.fields serial' place' }

/-- The size in the cell of a type, or the one that is worked out for it. -/
def typeSize (cells : Cells) (key : LayoutKey) (work : Cells → Int × Cells) : Int × Cells :=
  match cells.types key with
  | some entity => (entity.size, cells)
  | none =>
    let (size, cells) := work cells
    (size, cells.setType key (.typeRepresentation size))

/-- The size in the cell of a field, or the one that is worked out for a field at the offset. -/
def fieldSize (cells : Cells) (serial place : Nat) (offset : Int) (work : Cells → Int × Cells) :
    Int × Cells :=
  match cells.fields serial place with
  | some entity => (entity.size, cells)
  | none =>
    let (size, cells) := work cells
    (size, cells.setField serial place (.field size offset))

/-- The cell of the field at a place in the chain of a record type. -/
def field? (cells : Cells) (place : Nat) : TypeDenoter → Option Entity
  | .record serial _ _ => cells.fields serial place
  | _ => none

end Cells

mutual

/-- The size of a type by the cells, and the cells with those filled that were needed. -/
def TypeDenoter.measure (type : TypeDenoter) (cells : Cells) : Int × Cells :=
  match type with
  | .boolean => cells.typeSize .boolean fun cells => (Machine.scalarSize, cells)
  | .character => cells.typeSize .character fun cells => (Machine.scalarSize, cells)
  | .integer => cells.typeSize .integer fun cells => (Machine.scalarSize, cells)
  | .any | .error | .named .. => (0, cells)
  | .array serial _ length element => cells.typeSize (.written serial) fun cells =>
    let (size, cells) := element.measure cells
    (Word.clamp (length.value * size), cells)
  | .record serial _ fields => cells.typeSize (.written serial) (fields.measure serial 0 0)

/-- Where the fields of the record end that are left from a place on, where the next of them starts
    at an offset. -/
def Fields.measure (fields : Fields) (serial place : Nat) (offset : Int) (cells : Cells) :
    Int × Cells :=
  match fields with
  | .one _ _ type =>
    let (size, cells) := cells.fieldSize serial place offset fun cells => type.measure cells
    (Word.clamp (offset + size), cells)
  | .more _ _ type rest =>
    let (size, cells) := cells.fieldSize serial place offset fun cells => type.measure cells
    rest.measure serial (place + 1) (Word.clamp (offset + size)) cells

end

/-! ## What cells hold -/

section

variable {denoters : Nat → TypeDenoter} {cells cells' : Cells} {type : TypeDenoter}
  {key : LayoutKey} {work : Cells → Int × Cells} {serial place : Nat} {size offset : Int}

mutual

/-- The arrays and records in the denoter are those that have their serials. -/
def TypeDenoter.Numbered (denoters : Nat → TypeDenoter) : TypeDenoter → Prop
  | .boolean | .character | .integer | .any | .error | .named .. => True
  | .array serial span length element =>
    denoters serial = .array serial span length element ∧ element.Numbered denoters
  | .record serial span fields =>
    denoters serial = .record serial span fields ∧ fields.Numbered denoters

def Fields.Numbered (denoters : Nat → TypeDenoter) : Fields → Prop
  | .one _ _ type => type.Numbered denoters
  | .more _ _ type rest => type.Numbered denoters ∧ rest.Numbered denoters

end

/-- The type with the key. -/
def LayoutKey.denoter (denoters : Nat → TypeDenoter) : LayoutKey → TypeDenoter
  | .boolean => .boolean
  | .character => .character
  | .integer => .integer
  | .written serial => denoters serial

namespace Cells

/-- A cell that is filled holds what belongs there. With the cell of a record those of its fields
    are filled, and with the cell of a field that of its type. -/
structure Sound (denoters : Nat → TypeDenoter) (cells : Cells) : Prop where
  types  : ∀ {key entity}, cells.types key = some entity → entity = (key.denoter denoters).entity
  fields : ∀ {serial place entity}, cells.fields serial place = some entity →
    (denoters serial).fieldEntity? place = some entity
  whole  : ∀ {serial entity}, cells.types (.written serial) = some entity →
    ∀ {place field}, (denoters serial).fieldEntity? place = some field →
      cells.fields serial place = some field
  parts  : ∀ {serial place entity}, cells.fields serial place = some entity →
    ∀ {part key}, (denoters serial).fieldTypes[place]? = some part →
      part.layoutKey? = some key → ∃ entity, cells.types key = some entity

theorem Sound.empty : Cells.empty.Sound denoters := ⟨nofun, nofun, nofun, nofun⟩

/-- What is in a cell stays there. -/
structure Within (cells cells' : Cells) : Prop where
  types  : ∀ {key entity}, cells.types key = some entity → cells'.types key = some entity
  fields : ∀ {serial place entity}, cells.fields serial place = some entity →
    cells'.fields serial place = some entity

theorem Within.refl (cells : Cells) : cells.Within cells := ⟨id, id⟩

theorem Within.trans {cells₁ cells₂ cells₃ : Cells} (h : cells₁.Within cells₂)
    (h' : cells₂.Within cells₃) : cells₁.Within cells₃ :=
  ⟨fun hat => h'.types (h.types hat), fun hat => h'.fields (h.fields hat)⟩

theorem Within.setType (hcells : cells.Within cells') (hempty : cells.types key = none)
    (entity : Entity) : cells.Within (cells'.setType key entity) := by
  refine ⟨fun {key' entity'} hat => ?_, hcells.fields⟩
  have hne : key' ≠ key := by
    rintro rfl
    exact Option.some_ne_none _ (hat.symm.trans hempty)
  exact (if_neg hne).trans (hcells.types hat)

theorem Within.setField (hcells : cells.Within cells') (hempty : cells.fields serial place = none)
    (entity : Entity) : cells.Within (cells'.setField serial place entity) := by
  refine ⟨hcells.types, fun {serial' place' entity'} hat => ?_⟩
  have hne : ¬ (serial' = serial ∧ place' = place) := by
    rintro ⟨rfl, rfl⟩
    exact Option.some_ne_none _ (hat.symm.trans hempty)
  exact (if_neg hne).trans (hcells.fields hat)

theorem Sound.setType (h : cells.Sound denoters)
    (hwhole : ∀ serial, key = .written serial → ∀ place field,
      (denoters serial).fieldEntity? place = some field →
        cells.fields serial place = some field) :
    (cells.setType key (key.denoter denoters).entity).Sound denoters := by
  refine ⟨fun {key' entity} hat => ?_, h.fields, fun {serial entity} hat place field hfield => ?_,
    fun {serial place entity} hat part key' hpart hkey => ?_⟩
  · simp only [Cells.setType] at hat
    split at hat
    · next heq => rw [← Option.some.inj hat, heq]
    · exact h.types hat
  · simp only [Cells.setType] at hat
    split at hat
    · -- the one record whose cell is new
      next heq => exact hwhole serial heq.symm place field hfield
    · exact h.whole hat hfield
  · simp only [Cells.setType]
    split
    · exact ⟨_, rfl⟩
    · exact h.parts hat hpart hkey

theorem Sound.setField (h : cells.Sound denoters) {field : Entity} {part : TypeDenoter}
    (hfield : (denoters serial).fieldEntity? place = some field)
    (hpart : (denoters serial).fieldTypes[place]? = some part)
    (hfilled : ∀ key, part.layoutKey? = some key → ∃ entity, cells.types key = some entity) :
    (cells.setField serial place field).Sound denoters := by
  refine ⟨h.types, fun {serial' place' entity} hat => ?_,
    fun {serial' entity} hat place' field' hfield' => ?_,
    fun {serial' place' entity} hat part' key hpart' hkey => ?_⟩
  · simp only [Cells.setField] at hat
    split at hat
    · next heq =>
      obtain ⟨rfl, rfl⟩ := heq
      rw [hfield, ← hat]
    · exact h.fields hat
  · simp only [Cells.setField]
    split
    · next heq =>
      obtain ⟨rfl, rfl⟩ := heq
      rw [← hfield, hfield']
    · exact h.whole hat hfield'
  · simp only [Cells.setField] at hat
    split at hat
    · next heq =>
      obtain ⟨rfl, rfl⟩ := heq
      obtain rfl := Option.some.inj (hpart.symm.trans hpart')
      exact hfilled key hkey
    · exact h.parts hat hpart' hkey

/-- Asked for a size, the cells gave the right one, and are no worse for it. -/
structure Answers (denoters : Nat → TypeDenoter) (cells : Cells) (size : Int)
    (answer : Int × Cells) : Prop where
  size   : answer.1 = size
  sound  : answer.2.Sound denoters
  within : cells.Within answer.2

/-- If working out a size is right, so is asking the cell of a type for it. -/
theorem Sound.typeSize (h : cells.Sound denoters) (hkey : key.denoter denoters = type)
    (hwork : Answers denoters cells type.size (work cells))
    (hwhole : ∀ serial, key = .written serial → ∀ place field,
      (denoters serial).fieldEntity? place = some field →
        (work cells).2.fields serial place = some field) :
    Answers denoters cells type.size (cells.typeSize key work) := by
  unfold Cells.typeSize
  split
  · next entity hcell =>
    refine ⟨?_, h, .refl cells⟩
    rw [h.types hcell, hkey]
    rfl
  · next hcell =>
    have hentity : Entity.typeRepresentation (work cells).1 = (key.denoter denoters).entity := by
      rw [hwork.size, hkey]
      rfl
    refine ⟨hwork.size, ?_, hwork.within.setType hcell _⟩
    change ((work cells).2.setType key (.typeRepresentation (work cells).1)).Sound denoters
    rw [hentity]
    exact hwork.sound.setType hwhole

/-- The same for the cell of a field, which is filled then. -/
theorem Sound.fieldSize (h : cells.Sound denoters) {part : TypeDenoter}
    (hfield : (denoters serial).fieldEntity? place = some (.field size offset))
    (hpart : (denoters serial).fieldTypes[place]? = some part)
    (hwork : Answers denoters cells size (work cells))
    (hfilled : ∀ key, part.layoutKey? = some key →
      ∃ entity, (work cells).2.types key = some entity) :
    Answers denoters cells size (cells.fieldSize serial place offset work) ∧
      (cells.fieldSize serial place offset work).2.fields serial place =
        some (.field size offset) := by
  unfold Cells.fieldSize
  split
  · next entity hcell =>
    obtain rfl := Option.some.inj (hfield.symm.trans (h.fields hcell))
    exact ⟨⟨rfl, h, .refl cells⟩, hcell⟩
  · next hcell =>
    rw [← hwork.size] at hfield ⊢
    exact ⟨⟨rfl, hwork.sound.setField hfield hpart hfilled, hwork.within.setField hcell _⟩,
      if_pos ⟨rfl, rfl⟩⟩

/-- Once it was asked for its size, the cell of a type is filled. -/
theorem types_typeSize (cells : Cells) (key : LayoutKey) (work : Cells → Int × Cells) :
    ∃ entity, (cells.typeSize key work).2.types key = some entity := by
  unfold typeSize
  split
  · next entity hcell => exact ⟨entity, hcell⟩
  · exact ⟨_, if_pos rfl⟩

end Cells

theorem TypeDenoter.types_measure (hkey : type.layoutKey? = some key) (cells : Cells) :
    ∃ entity, (type.measure cells).2.types key = some entity := by
  cases type with
  | any | error | named => cases hkey
  | boolean | character | integer | array | record =>
    obtain rfl := Option.some.inj hkey
    exact cells.types_typeSize _ _

/-- The type of the first of the fields. -/
def Fields.first : Fields → TypeDenoter
  | .one _ _ type | .more _ _ type _ => type

/-- The fields are those of the record with a serial from a place on, and start at an offset. -/
structure Fields.From (denoters : Nat → TypeDenoter) (serial place : Nat) (offset : Int)
    (fields : Fields) : Prop where
  entities : (denoters serial).fieldEntities.drop place = fields.entities offset
  types    : (denoters serial).fieldTypes.drop place = fields.types

namespace Fields.From

variable {fields rest : Fields} {span : Span} {name : Name}

theorem all (h : denoters serial = .record serial span fields) :
    fields.From denoters serial 0 0 := by
  constructor <;> rw [h] <;> rfl

theorem fieldEntity? (h : fields.From denoters serial place offset) :
    (denoters serial).fieldEntity? place = some (.field fields.first.size offset) := by
  rw [TypeDenoter.fieldEntity?, ← List.head?_drop, h.entities]
  cases fields <;> rfl

theorem fieldType? (h : fields.From denoters serial place offset) :
    (denoters serial).fieldTypes[place]? = some fields.first := by
  rw [← List.head?_drop, h.types]
  cases fields <;> rfl

theorem next (h : (Fields.more span name type rest).From denoters serial place offset) :
    rest.From denoters serial (place + 1) (Word.clamp (offset + type.size)) := by
  constructor
  · rw [← List.tail_drop, h.entities]
    rfl
  · rw [← List.tail_drop, h.types]
    rfl

theorem last (h : (Fields.one span name type).From denoters serial place offset) {k : Nat}
    (hk : place < k) : (denoters serial).fieldEntity? k = none := by
  have hend : (denoters serial).fieldEntities.drop (place + 1) = [] := by
    rw [← List.tail_drop, h.entities]
    rfl
  rw [TypeDenoter.fieldEntity?,
    List.getElem?_eq_none (Nat.le_trans (List.drop_eq_nil_iff.1 hend) hk)]
  rfl

/-- The cells answer with the size of the first field, whose cell is filled then. -/
theorem fieldSize (h : fields.From denoters serial place offset) (hcells : cells.Sound denoters)
    (hwork : Cells.Answers denoters cells type.size (type.measure cells))
    (hfirst : fields.first = type) :
    Cells.Answers denoters cells type.size
        (cells.fieldSize serial place offset fun cells => type.measure cells) ∧
      (cells.fieldSize serial place offset fun cells => type.measure cells).2.fields serial place =
        some (.field type.size offset) := by
  subst hfirst
  exact hcells.fieldSize h.fieldEntity? h.fieldType? hwork fun _ hkey =>
    TypeDenoter.types_measure hkey cells

end Fields.From

mutual

/-- The cells answer with the size of a type. -/
theorem TypeDenoter.measure_answers : ∀ {type : TypeDenoter}, type.Numbered denoters →
    ∀ {cells : Cells}, cells.Sound denoters →
      Cells.Answers denoters cells type.size (type.measure cells)
  | .boolean, _, cells, hcells | .character, _, cells, hcells | .integer, _, cells, hcells =>
    hcells.typeSize rfl ⟨rfl, hcells, .refl cells⟩ nofun
  | .any, _, cells, hcells | .error, _, cells, hcells | .named .., _, cells, hcells =>
    ⟨rfl, hcells, .refl cells⟩
  | .array serial span length element, ⟨hat, helement⟩, cells, hcells => by
    have hanswer := TypeDenoter.measure_answers helement hcells
    refine hcells.typeSize hat ⟨?_, hanswer.sound, hanswer.within⟩ ?_
    · change Word.clamp (length.value * (element.measure cells).1) = _
      rw [hanswer.size]
      rfl
    · intro serial' heq place field hfield
      obtain rfl := LayoutKey.written.inj heq
      rw [hat] at hfield
      cases hfield
  | .record serial span fields, ⟨hat, hfields⟩, cells, hcells => by
    obtain ⟨hanswer, hwhole⟩ := Fields.measure_answers hfields (.all hat) hcells
    refine hcells.typeSize hat hanswer ?_
    intro serial' heq place field hfield
    obtain rfl := LayoutKey.written.inj heq
    exact hwhole place field (Nat.zero_le _) hfield

/-- The cells answer with the end of fields, and each of these is laid out then. -/
theorem Fields.measure_answers : ∀ {fields : Fields}, fields.Numbered denoters →
    ∀ {serial place : Nat} {offset : Int}, fields.From denoters serial place offset →
    ∀ {cells : Cells}, cells.Sound denoters →
      Cells.Answers denoters cells (fields.extent offset)
        (fields.measure serial place offset cells) ∧
      ∀ k field, place ≤ k → (denoters serial).fieldEntity? k = some field →
        (fields.measure serial place offset cells).2.fields serial k = some field
  | .one _ name type, htype, serial, place, offset, hfrom, cells, hcells => by
    obtain ⟨hanswer, hfilled⟩ :=
      hfrom.fieldSize hcells (TypeDenoter.measure_answers htype hcells) rfl
    refine ⟨⟨?_, hanswer.sound, hanswer.within⟩, fun k field hk hfield => ?_⟩
    · exact congrArg (fun size => Word.clamp (offset + size)) hanswer.size
    · obtain rfl | hlt := Nat.eq_or_lt_of_le hk
      · exact hfilled.trans (hfrom.fieldEntity?.symm.trans hfield)
      · exact absurd (hfrom.last hlt) (hfield ▸ Option.some_ne_none _)
  | .more _ name type rest, ⟨htype, hrest⟩, serial, place, offset, hfrom, cells, hcells => by
    obtain ⟨hanswer, hfilled⟩ :=
      hfrom.fieldSize hcells (TypeDenoter.measure_answers htype hcells) rfl
    have hnext := hfrom.next
    rw [← hanswer.size] at hnext
    obtain ⟨hanswer', hwhole⟩ := Fields.measure_answers hrest hnext hanswer.sound
    refine ⟨⟨?_, hanswer'.sound, hanswer.within.trans hanswer'.within⟩,
      fun k field hk hfield => ?_⟩
    · refine hanswer'.size.trans ?_
      rw [hanswer.size]
      rfl
    · obtain rfl | hlt := Nat.eq_or_lt_of_le hk
      · exact hanswer'.within.fields (hfilled.trans (hfrom.fieldEntity?.symm.trans hfield))
      · exact hwhole k field hlt hfield

end

/-- A type that was asked for its size has the cells of its fields filled. -/
theorem TypeDenoter.Numbered.field?_measure (h : type.Numbered denoters)
    (hcells : cells.Sound denoters) (place : Nat) :
    (type.measure cells).2.field? place type = type.fieldEntity? place := by
  have hsound := (measure_answers h hcells).sound
  cases type with
  | record serial span fields =>
    obtain ⟨hat, -⟩ := h
    have hfilled : ∃ entity, ((record serial span fields).measure cells).2.types
        (.written serial) = some entity := cells.types_typeSize _ _
    obtain ⟨entity, hentity⟩ := hfilled
    refine Option.ext fun field => ⟨fun hfield => ?_, fun hfield => ?_⟩
    · have hplace := hsound.fields hfield
      rwa [hat] at hplace
    · rw [← hat] at hfield
      exact hsound.whole hentity hfield
  | _ => rfl

/-- Cells that were filled by asking for the sizes of types, one after the other. -/
inductive Cells.Filled (denoters : Nat → TypeDenoter) : Cells → Prop
  | empty : Filled denoters .empty
  | measure {cells : Cells} {type : TypeDenoter} : Filled denoters cells →
    type.Numbered denoters → Filled denoters (type.measure cells).2

theorem Cells.Filled.sound (h : cells.Filled denoters) : cells.Sound denoters := by
  induction h with
  | empty => exact .empty
  | measure _ htype ih => exact (TypeDenoter.measure_answers htype ih).sound

end

/-! ## Cells and layouts -/

section

variable {denoters : Nat → TypeDenoter} {cells : Cells}

namespace Cells

variable {s s' : LayingOut} {work : Cells → Int × Cells}

/-- The cells that are filled are the layouts on record. -/
def Records (cells : Cells) (layouts : Layouts) : Prop :=
  ∀ key, (cells.types key).isSome = layouts.contains key

theorem Records.empty : Cells.empty.Records .empty := fun key => (Layouts.contains_empty key).symm

theorem Records.meet (h : cells.Records s.layouts) (n : Int) :
    cells.Records (s.meet n).layouts := by
  unfold LayingOut.meet
  split
  · exact h
  · exact h

/-- Filling the cell of a type puts it on record. -/
theorem Records.typeSize (h : cells.Records s.layouts) (key : LayoutKey) (type : TypeDenoter)
    (hwork : (work cells).2.Records s'.layouts) :
    (cells.typeSize key work).2.Records
      (if s.layouts.contains key then s else s'.add key type).layouts := by
  have hcontains := h key
  unfold Cells.typeSize
  split
  · next hcell =>
    rw [hcell] at hcontains
    have hknown : s.layouts.contains key = true := hcontains.symm
    rwa [if_pos hknown]
  · next hcell =>
    rw [hcell] at hcontains
    rw [if_neg (by rw [← hcontains]; exact Bool.false_ne_true)]
    intro key'
    rw [LayingOut.add, Layouts.contains_insert, ← hwork key']
    simp only [setType]
    by_cases heq : key' = key
    · simp [heq]
    · simp [heq, Ne.symm heq]

/-- Where the cell of a field is filled, its type is on record. -/
theorem Records.fieldSize (h : cells.Records s.layouts) (hsound : cells.Sound denoters)
    {serial place : Nat} {part : TypeDenoter}
    (hpart : (denoters serial).fieldTypes[place]? = some part)
    (hwork : (work cells).2.Records (part.layOut s).layouts) (offset : Int) :
    (cells.fieldSize serial place offset work).2.Records (part.layOut s).layouts := by
  unfold Cells.fieldSize
  split
  · next hcell =>
    -- nobody asks for the type then, but laying it out again changes nothing
    rw [TypeDenoter.layOut_of_contains fun key hkey => ?_]
    · exact h
    · obtain ⟨entity, hentity⟩ := hsound.parts hcell hpart hkey
      rw [← h key, hentity]
      rfl
  · exact hwork

end Cells

mutual

/-- Laying out a type puts those on record whose cells it fills. -/
theorem TypeDenoter.measure_records : ∀ {type : TypeDenoter}, type.Numbered denoters →
    ∀ {cells : Cells}, cells.Sound denoters → ∀ {s : LayingOut}, cells.Records s.layouts →
      (type.measure cells).2.Records (type.layOut s).layouts
  | .boolean, _, cells, _, s, h | .character, _, cells, _, s, h | .integer, _, cells, _, s, h => by
    unfold TypeDenoter.layOut
    exact h.typeSize _ _ h
  | .any, _, cells, _, s, h | .error, _, cells, _, s, h | .named .., _, cells, _, s, h => h
  | .array serial _ length element, ⟨_, helement⟩, cells, hcells, s, h => by
    unfold TypeDenoter.layOut
    exact h.typeSize _ _ ((TypeDenoter.measure_records helement hcells h).meet _)
  | .record serial _ fields, ⟨hat, hfields⟩, cells, hcells, s, h => by
    unfold TypeDenoter.layOut
    exact h.typeSize _ _ (Fields.measure_records hfields (.all hat) hcells h)

theorem Fields.measure_records : ∀ {fields : Fields}, fields.Numbered denoters →
    ∀ {serial place : Nat} {offset : Int}, fields.From denoters serial place offset →
    ∀ {cells : Cells}, cells.Sound denoters → ∀ {s : LayingOut}, cells.Records s.layouts →
      (fields.measure serial place offset cells).2.Records (fields.layOut offset s).layouts
  | .one _ _ type, htype, serial, place, offset, hfrom, cells, hcells, s, h => by
    unfold Fields.layOut
    exact (h.fieldSize hcells hfrom.fieldType?
      (TypeDenoter.measure_records htype hcells h) offset).meet _
  | .more _ _ type rest, ⟨htype, hrest⟩, serial, place, offset, hfrom, cells, hcells, s, h => by
    obtain ⟨hanswer, -⟩ :=
      hfrom.fieldSize hcells (TypeDenoter.measure_answers htype hcells) rfl
    -- the rest is asked at the offset that the cell of the first field leads to
    have hnext := hfrom.next
    rw [← hanswer.size] at hnext
    have hrecords := Fields.measure_records hrest hnext hanswer.sound ((h.fieldSize hcells
      hfrom.fieldType? (TypeDenoter.measure_records htype hcells h) offset).meet
        (offset + type.size))
    unfold Fields.layOut
    rw [← hanswer.size] at hrecords ⊢
    exact hrecords

end

/-- Encoding asks for a size as the cells do. -/
theorem TypeDenoter.Numbered.sizeOf_exec {type : TypeDenoter} (h : type.Numbered denoters)
    (hcells : cells.Sound denoters) {e : Encoder} (hrecords : cells.Records e.layouts) :
    ∃ e', (Encode.sizeOf type).exec e = (.ok (type.measure cells).1, e') ∧
      (type.measure cells).2.Records e'.layouts := by
  obtain ⟨_, -, hexec⟩ := Encode.sizeOf_exec type e
  rw [(measure_answers h hcells).size]
  exact ⟨_, hexec, measure_records h hcells (s := { layouts := e.layouts }) hrecords⟩

end

end TriangleTam
