import TriangleTam.Proofs.Coding.Expressions

/-! # Encoding of vnames and actual parameters

  A vname encodes if its parts do, and what is returned is its place. Only
  the value of a scalar constant is no place in the store, and such a constant
  has no parts.
-/

namespace TriangleTam

variable {made : List TypeDenoter} {π : Plan} {Γ : Env} {lo mid hi : Nat}

/-! ## Indices -/

namespace Encode

/-- Multiply an index by the size of an element. -/
def scale (size : Int) : Encode Unit :=
  if size ≠ 1 then do emitPlain .loadL 0 size; emitPrimitive .mult else pure ()

/-- Add a distance to the index that waits, if there is one. -/
def addIndex (access : Access) : Encode Unit :=
  if access.indexed then emitPrimitive .add else pure ()

/-- An element at an index that is not known, step by step. -/
theorem place_unknown {span : Span} {type : Option TypeDenoter} {isVariable : Bool}
    {array : Vname} {index : Expression} (hvalue : index.integerValue? = none) (frame : Frame) :
    place (.subscript span type isVariable array index) frame = (do
      let found ← place array frame
      let size ← sizeOf? type span
      let frame' ← indexFrame frame found.2
      let _ ← expression index frame'
      scale size
      addIndex found.2
      return (found.1, { found.2 with indexed := true })) := by
  rw [place]
  simp only [hvalue, indexFrame, scale, addIndex]
  congr 1
  funext ⟨entity, access⟩
  congr 1
  funext size
  by_cases hindexed : access.indexed = true
  · by_cases hsize : size = 1
    · simp [hindexed, hsize]
    · simp [hindexed, hsize]
  · by_cases hsize : size = 1
    · simp [hindexed, hsize]
    · simp [hindexed, hsize]

theorem indexFrame_does {s : Encoder} (frame : Frame) (access : Access) :
    (indexFrame frame access).Does made ∅ s fun frame' s' =>
      s.Writes s' [] ∧ (s'.Quiet → frame' = frame.more access.pending) := by
  unfold indexFrame Access.pending
  by_cases hindexed : access.indexed = true
  · rw [if_pos hindexed, if_pos hindexed]
    exact grow_does frame Machine.scalarSize
  · rw [if_neg hindexed, if_neg hindexed]
    refine .pure ⟨.refl s, fun _ => ?_⟩
    unfold Frame.more
    rw [Int.add_zero]

theorem scale_does {s : Encoder} (size : Int) :
    (scale size).Does made ∅ s fun _ s' => s.Writes s' (scaleCode size) := by
  unfold scale scaleCode
  by_cases hsize : size ≠ 1
  · rw [if_pos hsize, if_pos hsize]
    refine (emitPlain_does .loadL 0 size).step ?_
    intro _ s₁ _ _ hload
    refine (emitPrimitive_does .mult).last ?_
    intro _ s₂ _ hbefore hmult
    exact hload.trans hbefore hmult
  · rw [if_neg hsize, if_neg hsize]
    exact .pure (.refl s)

theorem addIndex_does {s : Encoder} (access : Access) :
    (addIndex access).Does made ∅ s fun _ s' => s.Writes s' access.indexCode := by
  unfold addIndex Access.indexCode
  by_cases hindexed : access.indexed = true
  · rw [if_pos hindexed, if_pos hindexed]
    exact emitPrimitive_does .add
  · rw [if_neg hindexed, if_neg hindexed]
    exact .pure (.refl s)

end Encode

namespace Vname.Encodes

theorem of_inner {vname : Vname} {type : TypeDenoter}
    (h : ∀ frame s, s.Ready made π Γ (Set.Ico lo hi) →
      (Encode.place vname frame).Does made (Set.Ico lo hi) s fun place s' =>
        place.1.Holds type place.2 ∧ (vname.isVariable = true → place.1.IsVariable) ∧
        s.Yields π s' (vname.inner frame s) frame.size (frame.size + place.2.pending)
          fun lines => Vname.Code π frame s.start vname lines place.1 place.2) :
    vname.Encodes made π Γ lo hi type := by
  intro frame s hready
  refine (h frame s hready).mono subset_rfl ?_
  intro place s' hrun _ ⟨hholds, hvariable, hyields⟩
  refine ⟨hholds, hvariable, fun hfinal => ?_⟩
  obtain ⟨lines, hcode, hwrote⟩ := hyields hfinal
  have hreturns : ((Phrase.vname vname).encode frame).exec s = (.ok place.2.pending, s') :=
    Encode.exec_bind hrun
  exact ⟨lines, hcode, hwrote.call rfl hreturns trivial hcode.closed⟩

/-- A name stands for all of its entity. -/
theorem simple {span : Span} {type : TypeDenoter} {isVariable : Bool} {found : Name}
    {id : BindingId} (hname : found.binding = some id)
    (hrep : ∀ s : Encoder, s.Ready made π Γ (Set.Ico lo hi) → ∃ entity : Entity,
      s.entities.lookup id = some entity ∧ entity.Holds type {} ∧
        (isVariable = true → entity.IsVariable)) :
    (Vname.simple span (some type) isVariable found).Encodes made π Γ lo hi type := by
  apply of_inner
  intro frame s hready
  unfold Encode.place
  obtain ⟨entity, hat, hholds, hvariable⟩ := hrep s hready
  refine (Encode.entityOf_does hname hat).step ?_
  rintro _ _ - - ⟨rfl, rfl⟩
  refine .pure ⟨hholds, hvariable, fun hfinal => ?_⟩
  refine ⟨[], .simple hname (hfinal.entities hat), ?_⟩
  show s.Wrote s [] frame.size (frame.size + 0) []
  rw [Int.add_zero]
  exact .nil (.refl s) hfinal.quiet frame.size

theorem const {span : Span} {type : TypeDenoter} {found : Name} {name : String}
    {id : BindingId} (hname : found.binding = some id)
    (hfind : Γ.find? name = some (id, .const type)) :
    (Vname.simple span (some type) false found).Encodes made π Γ lo hi type := by
  refine simple hname fun s hready => ?_
  obtain ⟨entity, hat, hholds⟩ := hready.found hfind nofun
  exact ⟨entity, hat, hholds, nofun⟩

theorem var {span : Span} {type : TypeDenoter} {found : Name} {name : String}
    {id : BindingId} (hname : found.binding = some id)
    (hfind : Γ.find? name = some (id, .var type)) :
    (Vname.simple span (some type) true found).Encodes made π Γ lo hi type := by
  refine simple hname fun s hready => ?_
  obtain ⟨entity, hat, hentity⟩ := hready.found hfind nofun
  have hvariable : entity.IsVariable := hentity
  exact ⟨entity, hat, .inl hvariable.isStored, fun _ => hvariable⟩

theorem dot {span : Span} {type fieldType : TypeDenoter} {record : Vname} {field : Name}
    {serial : Nat} {recordSpan : Span} {fields : Fields}
    (hrecord : record.Encodes made π Γ lo hi (.record serial recordSpan fields))
    (htype : record.type = some (.record serial recordSpan fields))
    (hfind : fields.find? field.spelling = some fieldType)
    (hknown : (TypeDenoter.record serial recordSpan fields).Known made) :
    (Vname.dot span (some type) record.isVariable record field).Encodes made π Γ lo hi
      fieldType := by
  apply of_inner
  intro frame s hready
  unfold Encode.place
  refine (hrecord frame s hready).bind subset_rfl ?_
  intro ⟨entity, access⟩ s₁ _ hbefore₁ ⟨hholds, hvariable, hyields⟩
  have hstored : entity.IsStored := hholds.isStored id
  refine (Encode.fieldOffset_does htype hfind hknown (hbefore₁.laid hready.laid)).step ?_
  intro position s₂ _ hbefore₂ ⟨hlayout, hposition⟩
  refine (Encode.word_does (access.offset + position)).step ?_
  intro offset s₃ _ hbefore₃ ⟨hword, hoffset⟩
  refine .pure ⟨.inl hstored, hvariable, fun hfinal => ?_⟩
  have hfinal₂ := hbefore₃.final hfinal
  obtain rfl := hoffset hfinal.quiet
  obtain ⟨l, hcode, hwrote⟩ := hyields (hbefore₂.final hfinal₂)
  refine ⟨l, .dot hcode hstored htype (hposition hfinal₂.quiet), ?_⟩
  rw [Vname.inner]
  exact (hwrote.append_nil hlayout hfinal₂.quiet).append_nil hword hfinal.quiet

/-- An index that is a literal is known beforehand. -/
theorem known {span : Span} {element : TypeDenoter} {array : Vname} {index : Expression}
    {serial : Nat} {arraySpan : Span} {length : IntegerLiteral} {value : Int}
    (harray : array.Encodes made π Γ lo hi (.array serial arraySpan length element))
    (hindex : index.integerValue? = some value) (hknown : element.Known made) :
    (Vname.subscript span (some element) array.isVariable array index).Encodes made π Γ lo hi
      element := by
  apply of_inner
  intro frame s hready
  unfold Encode.place
  refine (harray frame s hready).bind subset_rfl ?_
  intro ⟨entity, access⟩ s₁ hrun₁ hbefore₁ ⟨hholds, hvariable, hyields⟩
  have hstored : entity.IsStored := hholds.isStored id
  refine (Encode.sizeOf?_does hknown (hbefore₁.laid hready.laid) span).step ?_
  rintro _ s₂ hrun₂ hbefore₂ ⟨rfl, hsize, hexact⟩
  -- nothing is computed for a literal index: the offset grows by its distance
  simp only [hindex]
  refine (Encode.word_does (value * element.size)).step ?_
  intro distance s₃ _ hbefore₃ ⟨hword, hdistance⟩
  refine (Encode.word_does (access.offset + distance)).step ?_
  intro offset s₄ _ hbefore₄ ⟨hword', hoffset⟩
  refine .pure ⟨.inl hstored, hvariable, fun hfinal => ?_⟩
  have hfinal₃ := hbefore₄.final hfinal
  have hfinal₂ := hbefore₃.final hfinal₃
  -- both sums are words, or they would have been reported
  obtain rfl := hoffset hfinal.quiet
  obtain rfl := hdistance hfinal₃.quiet
  obtain ⟨l, hcode, hwrote⟩ := hyields (hbefore₂.final hfinal₂)
  rw [(hexact hfinal₂.quiet).size_eq]
  refine ⟨l, .known hcode hstored hindex, ?_⟩
  rw [Vname.inner, Encode.after_eq hrun₁, Encode.after_eq hrun₂, hindex]
  -- all the code there is was written for the array
  have hwrote' := (hwrote.append_nil hsize hfinal₂.quiet).append_nil hword hfinal₃.quiet
  have hwrote'' := hwrote'.append_nil hword' hfinal.quiet
  rwa [Option.isSome_some, if_pos rfl, List.append_nil]

/-- Any other index is computed above the one that waits, if there is one. -/
theorem unknown {span : Span} {element : TypeDenoter} {array : Vname} {index : Expression}
    {serial : Nat} {arraySpan : Span} {length : IntegerLiteral}
    (harray : array.Encodes made π Γ lo mid (.array serial arraySpan length element))
    (hindex : index.Encodes made π Γ mid hi .integer) (hlo : lo ≤ mid) (hhi : mid ≤ hi)
    (hvalue : index.integerValue? = none) (hknown : element.Known made) :
    (Vname.subscript span (some element) array.isVariable array index).Encodes made π Γ lo hi
      element := by
  apply of_inner
  intro frame s hready
  rw [Encode.place_unknown hvalue]
  refine (harray frame s (hready.front hhi)).bind (Set.Ico_subset_Ico_right hhi) ?_
  intro ⟨entity, access⟩ s₁ hrun₁ hbefore₁ ⟨hholds, hvariable, hyields₁⟩
  have hstored : entity.IsStored := hholds.isStored id
  have hready₁ := hready.back hbefore₁ hlo
  refine (Encode.sizeOf?_does hknown hready₁.laid span).step ?_
  rintro _ s₂ hrun₂ hbefore₂ ⟨rfl, hsize, hexact⟩
  refine (Encode.indexFrame_does frame access).step ?_
  intro frame' s₃ hrun₃ hbefore₃ ⟨hgrow, hframe⟩
  have hready₃ := (hready₁.step hbefore₂).step hbefore₃
  refine (hindex frame' s₃ hready₃).bind (Set.Ico_subset_Ico_left hlo) ?_
  intro n s₄ _ hbefore₄ hyields₄
  refine (Encode.scale_does element.size).step ?_
  intro _ s₅ _ hbefore₅ hscale
  refine (Encode.addIndex_does access).step ?_
  intro _ s₆ _ hbefore₆ hadd
  refine .pure ⟨.inl hstored, hvariable, fun hfinal => ?_⟩
  have hfinal₄ := hbefore₅.final (hbefore₆.final hfinal)
  have hfinal₃ := hbefore₄.final hfinal₄
  have hfinal₂ := hbefore₃.final hfinal₃
  obtain rfl : frame' = frame.more access.pending := hframe hfinal₃.quiet
  obtain ⟨l₁, hcode₁, hwrote₁⟩ := hyields₁ (hbefore₂.final hfinal₂)
  obtain ⟨l₂, ⟨-, rfl, hcode₂⟩, hwrote₂⟩ := hyields₄ hfinal₄
  have hwrote₁' := (hwrote₁.append_nil hsize hfinal₂.quiet).append_nil hgrow hfinal₃.quiet
  rw [hwrote₁'.start_eq] at hcode₂
  have hcode := hscale.trans hbefore₆ hadd
  rw [(hexact hfinal₂.quiet).size_eq] at hcode
  refine ⟨_, .unknown hcode₁ hstored hvalue hcode₂, ?_⟩
  rw [Vname.inner, Encode.after_eq hrun₁, Encode.after_eq hrun₂, hvalue]
  rw [Option.isSome_none, if_neg nofun, Encode.after_eq hrun₃]
  refine hwrote₁'.append (hwrote₂.append_straight hcode hfinal.quiet fun hnil => ?_)
  -- where nothing is left to be done, no index has waited
  have hwaits : access.indexed ≠ true := by
    intro hindexed
    have hadds : access.indexCode = [] := (List.append_eq_nil_iff.1 hnil).2
    unfold Access.indexCode at hadds
    rw [if_pos hindexed] at hadds
    cases hadds
  show frame.size + 1 = frame.size + access.pending + 1
  unfold Access.pending
  rw [if_neg hwaits, Int.add_zero]

end Vname.Encodes

end TriangleTam
