import TriangleTam.Proofs.Folding.Constructs

/-! # Places in a folded program

  A field adds its position to the offset on both sides. A subscript that is no
  literal is added up on the stack on both sides, but one of the two machines
  may have had no index there before. And a subscript that folding made a
  literal costs the encoder nothing, while the ideal machine writes one
  instruction for it at least.
-/

namespace TriangleTam

section

variable {P : Prop} {Γ : Env} {n n' : Nat}

/-! ## Offsets -/

/-- A part of a value that starts inside of it, at a word if the whole ends at one. -/
theorem Word.fits_inside {offset position width whole : Int} (hoffset : 0 ≤ offset)
    (hposition : 0 ≤ position) (hwidth : 0 ≤ width) (hinside : offset + position + width ≤ whole)
    (hwhole : whole ≤ Word.greatest) : Word.Fits (offset + position) := by
  show Word.least ≤ _ ∧ _ ≤ Word.greatest
  unfold Word.least
  omega

namespace Vname.Located

variable {vname : Vname} {type : TypeDenoter} {level : Nat} {width slack : Int}
  {place place' : Encode.Place}

/-- The offset after folding is a word, if the one before is and the vname does not stray. -/
theorem offset_fits (h : vname.Located type level width slack place place') {position size : Int}
    (hsteady : P ∨ ¬ vname.Hardens ∨
      (¬ vname.Oversteps ∧ 0 ≤ position ∧ 0 ≤ size ∧ position + size ≤ type.width))
    (hfits : Word.Fits (place.2.offset + position)) :
    Word.Fits (place'.2.offset + position) ∨ P := by
  rcases hsteady with hP | hsoft | ⟨hwithin, hposition, hsize, hupper⟩
  · exact .inr hP
  · rw [h.same hsoft]
    exact .inl hfits
  · obtain ⟨hlower, hinside⟩ := h.inside hwithin
    exact .inl (Word.fits_inside hlower hposition hsize (by omega) h.words)

/-- A part of what the vname stands for, at an offset that is known on both sides. -/
theorem at_offset (h : vname.Located type level width slack place place') {part : Vname}
    {partType : TypeDenoter} {position offset : Int} (hhardens : ¬ part.Hardens → ¬ vname.Hardens)
    (hoversteps : ¬ part.Oversteps → ¬ vname.Oversteps ∧ 0 ≤ position ∧ 0 ≤ partType.width ∧
      position + partType.width ≤ type.width)
    (hfits : Word.Fits (place.2.offset + position))
    (hoffset : Word.Fits (place'.2.offset + position) → offset = place'.2.offset + position) :
    part.Located partType level width slack
      (place.1, { place.2 with offset := place.2.offset + position })
      (place'.1, { place'.2 with offset }) := by
  refine ⟨h.entity, ⟨h.access.indexed, ?_⟩, hfits, h.words, fun hsoft => ?_, fun hwithin => ?_⟩
  · refine h.access.lead.imp (fun ⟨hslack, hsame⟩ => ⟨hslack, ?_⟩) id
    rw [hsame] at hoffset ⊢
    rw [hoffset hfits]
  · have hsame := h.same (hhardens hsoft)
    rw [hsame] at hoffset
    show ({ place'.2 with offset } : Access) = _
    rw [hsame, hoffset hfits]
  · obtain ⟨hwithin', hposition, hsize, hupper⟩ := hoversteps hwithin
    obtain ⟨hlower, hinside⟩ := h.inside hwithin'
    have hfits' := Word.fits_inside hlower hposition hsize (by omega) h.words
    show 0 ≤ offset ∧ offset + partType.width ≤ width
    rw [hoffset hfits']
    omega

end Vname.Located

namespace Vname.Eases

/-! ## Names and fields -/

theorem simple {span : Span} {found : Option TypeDenoter} {isVariable : Bool} {name : Name}
    {id : BindingId} {kind : BindingKind} {type : TypeDenoter}
    (hfind : Γ.find? name.spelling = some (id, kind)) (hlives : kind.Lives)
    (hkind : kind.words = type.width) :
    Vname.Eases P Γ n (.simple span found isVariable (name.link id))
      (.simple span found isVariable (name.link id)) type := by
  intro start frame frame' hset lead hlead
  simp only [Assembler.place]
  refine (hset.entityOf rfl hfind hlives).before hlead fun entity entity' hentity => ?_
  obtain ⟨heases, hwords⟩ := hentity
  have hlocated : (Vname.simple span found isVariable (name.link id)).Located type frame.level
      kind.words 0 (entity, {}) (entity', {}) :=
    ⟨heases, ⟨fun h => h, .inl ⟨rfl, rfl⟩⟩, (by decide : Word.Fits 0), hwords, fun _ => rfl, fun _ =>
      ⟨Int.le_refl 0, by rw [hkind, Int.zero_add]⟩⟩
  exact .pure ⟨kind.words, 0, hlocated, by simp [Encode.Place.lead, Access.waiting]⟩

theorem dot {span : Span} {found : Option TypeDenoter} {isVariable isVariable' : Bool}
    {record record' : Vname} {field : Name} {serial : Nat} {recordSpan : Span} {fields : Fields}
    {type : TypeDenoter} {made : List TypeDenoter}
    (hrecord : Vname.Eases P Γ n record record' (.record serial recordSpan fields))
    (htype : record.type = some (.record serial recordSpan fields))
    (htype' : record'.type = some (.record serial recordSpan fields))
    (hfields : fields.Known made) (hfind : fields.find? field.spelling = some type)
    (hsteady : P ∨ ¬ (Vname.dot span found isVariable record field).Hardens ∨
      ¬ (Vname.dot span found isVariable record field).Oversteps) :
    Vname.Eases P Γ n (.dot span found isVariable record field)
      (.dot span found isVariable' record' field) type := by
  intro start frame frame' hset lead hlead
  simp only [Assembler.place]
  refine (hrecord hset hlead).bind fun place place' after hafter => ?_
  obtain ⟨width, slack, hlocated, rfl⟩ := hafter
  obtain ⟨position, hposition⟩ := Fields.exists_position hfind
  obtain ⟨hknown, -, hlower, hupper⟩ := hfields.contains hposition hfind
  have hsize := hknown.width_nonneg
  have hlead' := hlocated.access.lead_nonneg hlead
  refine (Start.Matches.fieldOffset htype htype' hposition).before hlead' fun a b hab => ?_
  obtain ⟨rfl, rfl⟩ := hab
  -- the offset is as it was, or that of a field inside of the variable, unless `P`
  have hfits := hlocated.offset_fits (hsteady.imp id fun h => h.imp id fun hwithin =>
    ⟨hwithin, hlower, hsize, hupper⟩)
  refine (Start.Matches.word_or hfits).before hlead' fun a b hab => ?_
  obtain ⟨rfl, hword, hoffset⟩ := hab
  exact .pure ⟨width, slack, hlocated.at_offset id
    (fun hwithin => ⟨hwithin, hlower, hsize, hupper⟩) hword hoffset, rfl⟩

/-! ## Subscripts -/

section

variable {span : Span} {found : TypeDenoter} {isVariable isVariable' : Bool}
  {array array' : Vname} {index index' : Expression} {serial : Nat} {arraySpan : Span}
  {length : IntegerLiteral} {element : TypeDenoter}

/-- Where a literal subscript selects an element, its words lie inside the array. -/
theorem inside_of_within {value : Int}
    (htype : array.type = some (.array serial arraySpan length element))
    (hfolds : index.FoldsTo value) (hwidth : 0 ≤ element.width)
    (hwithin : ¬ (Vname.subscript span (some element) isVariable array index).Oversteps) :
    ¬ array.Oversteps ∧ 0 ≤ value * element.width ∧ 0 ≤ element.width ∧
      value * element.width + element.width ≤
        (TypeDenoter.array serial arraySpan length element).width := by
  obtain ⟨harray, hindex⟩ := not_or.1 hwithin
  have hhit : ∃ i, 0 ≤ i ∧ i < length.value ∧ ∀ value, index.FoldsTo value → value = i := by
    by_contra hmiss
    exact hindex ⟨serial, arraySpan, length, element, htype, hmiss⟩
  obtain ⟨i, hlower, hupper, hall⟩ := hhit
  obtain rfl := hall value hfolds
  exact ⟨harray, Int.mul_nonneg hlower hwidth, hwidth, TypeDenoter.element_upper hwidth hupper⟩

/-- An array with an element at a subscript is not smaller than one element. -/
theorem element_le_of_within
    (htype : array.type = some (.array serial arraySpan length element))
    (hwidth : 0 ≤ element.width)
    (hwithin : ¬ (Vname.subscript span (some element) isVariable array index).Oversteps) :
    ¬ array.Oversteps ∧
      element.width ≤ (TypeDenoter.array serial arraySpan length element).width := by
  obtain ⟨harray, hindex⟩ := not_or.1 hwithin
  have hhit : ∃ i, 0 ≤ i ∧ i < length.value ∧ ∀ value, index.FoldsTo value → value = i := by
    by_contra hmiss
    exact hindex ⟨serial, arraySpan, length, element, htype, hmiss⟩
  obtain ⟨i, hlower, hupper, -⟩ := hhit
  have hend := TypeDenoter.element_upper hwidth hupper
  have hstart := Int.mul_nonneg hlower hwidth
  refine ⟨harray, ?_⟩
  rw [TypeDenoter.width]
  omega

/-- The subscript was a literal before folding. -/
theorem subscript_literal {value : Int}
    (harray : Vname.Eases P Γ n array array' (.array serial arraySpan length element))
    (htype : array.type = some (.array serial arraySpan length element))
    (hvalue : index.integerValue? = some value) (hvalue' : index'.integerValue? = some value)
    (hfolds : index.FoldsTo value) (hwidth : 0 ≤ element.width)
    (hsteady : P ∨ ¬ (Vname.subscript span (some element) isVariable array index).Hardens ∨
      ¬ (Vname.subscript span (some element) isVariable array index).Oversteps) :
    Vname.Eases P Γ n (.subscript span (some element) isVariable array index)
      (.subscript span (some element) isVariable' array' index') element := by
  intro start frame frame' hset lead hlead
  simp only [Assembler.place, hvalue, hvalue']
  refine (harray hset hlead).bind fun place place' after hafter => ?_
  obtain ⟨width, slack, hlocated, rfl⟩ := hafter
  have hlead' := hlocated.access.lead_nonneg hlead
  refine (Start.Matches.sizeOf? element span span).before hlead' fun a b hab => ?_
  obtain ⟨rfl, rfl, -⟩ := hab
  refine (Start.Matches.word fun hword => hword).before hlead' fun a b hab => ?_
  obtain ⟨rfl, rfl, -⟩ := hab
  -- a vname that hardens nowhere has no part that does
  have hhardens : ¬ (Vname.subscript span (some element) isVariable array index).Hardens →
      ¬ array.Hardens := fun hsoft => (not_or.1 hsoft).1
  have hinside (h : ¬ (Vname.subscript span (some element) isVariable array index).Oversteps) :=
    inside_of_within htype hfolds hwidth h
  -- the offset is as it was, or that of an element inside of the variable, unless `P`
  have hfits := hlocated.offset_fits (hsteady.imp id fun h => h.imp hhardens hinside)
  refine (Start.Matches.word_or hfits).before hlead' fun a b hab => ?_
  obtain ⟨rfl, hword, hoffset⟩ := hab
  exact .pure ⟨width, slack, hlocated.at_offset hhardens hinside hword hoffset, rfl⟩

/-- Unless a literal subscript is out of bounds, its distance into the array is a word. -/
theorem distance_fits {level : Nat} {width slack value : Int} {place place' : Encode.Place}
    (h : array.Located (.array serial arraySpan length element) level width slack place place')
    (hinside : ¬ array.Oversteps ∧ 0 ≤ value * element.width ∧ 0 ≤ element.width ∧
      value * element.width + element.width ≤
        (TypeDenoter.array serial arraySpan length element).width) :
    Word.Fits (value * element.width) := by
  obtain ⟨hwithin, hdistance, hwidth, hupper⟩ := hinside
  obtain ⟨hlower, hend⟩ := h.inside hwithin
  have hfits : Word.Fits (0 + value * element.width) :=
    Word.fits_inside (Int.le_refl 0) hdistance hwidth (by omega) h.words
  rwa [Int.zero_add] at hfits

variable {start : Start} {lead size : Int} {access access' : Access} {result result' : Encode.Place}

/-- The ideal machine scales an index alone, and adds it to the one that waits on the stack. -/
theorem leads_scale :
    start.Leads P lead
      (if size ≠ 1 then Ideal.assembler.emitPlain .loadL 0 size >>= fun _ =>
          Ideal.assembler.emitPrimitive .mult >>= fun _ =>
          if access.indexed then Ideal.assembler.emitPrimitive .add >>= fun _ => pure result
          else pure result
        else if access.indexed then Ideal.assembler.emitPrimitive .add >>= fun _ => pure result
          else pure result)
      fun a after => a = result ∧ lead + access.waiting ≤ after := by
  have hadds {lead' : Int} (hle : lead ≤ lead') : start.Leads P lead'
      (if access.indexed then Ideal.assembler.emitPrimitive .add >>= fun _ => pure result
        else pure result)
      fun a after => a = result ∧ lead + access.waiting ≤ after := by
    unfold Access.waiting
    split
    · refine (Start.Leads.emit ..).bind fun _ after h => ?_
      exact .pure ⟨rfl, by omega⟩
    · exact .pure ⟨rfl, by omega⟩
  split
  · refine (Start.Leads.emit ..).bind fun _ after h => ?_
    refine (Start.Leads.emit ..).bind fun _ after' h' => ?_
    exact hadds (by omega)
  · exact hadds (Int.le_refl _)

/-- Both scale an index. The ideal machine adds it to another one whenever the encoder does. -/
theorem keeps_scale (hindexed : access'.indexed = true → access.indexed = true)
    (hlead : 0 ≤ lead) :
    start.Keeps P lead
      (if size ≠ 1 then Ideal.assembler.emitPlain .loadL 0 size >>= fun _ =>
          Ideal.assembler.emitPrimitive .mult >>= fun _ =>
          if access.indexed then Ideal.assembler.emitPrimitive .add >>= fun _ => pure result
          else pure result
        else if access.indexed then Ideal.assembler.emitPrimitive .add >>= fun _ => pure result
          else pure result)
      (if size ≠ 1 then Encode.assembler.emitPlain .loadL 0 size >>= fun _ =>
          Encode.assembler.emitPrimitive .mult >>= fun _ =>
          if access'.indexed then Encode.assembler.emitPrimitive .add >>= fun _ => pure result'
          else pure result'
        else if access'.indexed then Encode.assembler.emitPrimitive .add >>= fun _ => pure result'
          else pure result')
      fun a b after => a = result ∧ b = result' ∧
        after = lead + access.waiting - access'.waiting := by
  -- the addition alone, which the encoder may leave out where the ideal machine adds
  have hadds : start.Keeps P lead
      (if access.indexed then Ideal.assembler.emitPrimitive .add >>= fun _ => pure result
        else pure result)
      (if access'.indexed then Encode.assembler.emitPrimitive .add >>= fun _ => pure result'
        else pure result')
      fun a b after => a = result ∧ b = result' ∧
        after = lead + access.waiting - access'.waiting := by
    unfold Access.waiting
    by_cases hright : access'.indexed = true
    · simp only [if_pos hright, if_pos (hindexed hright)]
      refine (Start.Matches.emit ..).before hlead fun _ _ _ => ?_
      exact .pure ⟨rfl, rfl, by omega⟩
    · simp only [if_neg hright]
      split
      · refine .left (.emit ..) fun _ after h => ?_
        exact .pure ⟨rfl, rfl, by omega⟩
      · exact .pure ⟨rfl, rfl, by omega⟩
  split
  · refine (Start.Matches.emit ..).before hlead fun _ _ _ => ?_
    exact (Start.Matches.emit ..).before hlead fun _ _ _ => hadds
  · exact hadds

/-- Folding made the subscript a literal. -/
theorem subscript_new {value : Int} {indexType : TypeDenoter}
    (harray : Vname.Eases P Γ n array array' (.array serial arraySpan length element))
    (hindex : Expression.Eases P Γ n' index index' indexType) (hn : n ≤ n')
    (htype : array.type = some (.array serial arraySpan length element))
    (hindexType : index'.type = some .integer)
    (hvalue : index.integerValue? = none) (hvalue' : index'.integerValue? = some value)
    (hfolds : index.FoldsTo value) (hwidth : 0 ≤ element.width)
    (hsteady : P ∨ ¬ (Vname.subscript span (some element) isVariable array index).Hardens ∨
      ¬ (Vname.subscript span (some element) isVariable array index).Oversteps) :
    Vname.Eases P Γ n (.subscript span (some element) isVariable array index)
      (.subscript span (some element) isVariable' array' index') element := by
  intro start frame frame' hset lead hlead
  simp only [Assembler.place, hvalue, hvalue']
  refine (harray hset hlead).bind fun place place' after hafter => ?_
  obtain ⟨width, slack, hlocated, rfl⟩ := hafter
  have hlead' := hlocated.access.lead_nonneg hlead
  refine (Start.Matches.sizeOf? element span span).before hlead' fun a b hab => ?_
  obtain ⟨rfl, rfl, -⟩ := hab
  have hhardens : (Vname.subscript span (some element) isVariable array index).Hardens :=
    .inr ⟨hvalue, value, hfolds⟩
  have hinside (h : ¬ (Vname.subscript span (some element) isVariable array index).Oversteps) :=
    inside_of_within htype hfolds hwidth h
  have hsteady' : P ∨ ¬ (Vname.subscript span (some element) isVariable array index).Oversteps :=
    hsteady.imp id fun h => h.resolve_left (not_not_intro hhardens)
  -- the encoder adds up words, in bounds or in the case `P`
  refine .right (.word_or (hsteady'.symm.imp (fun h => distance_fits hlocated (hinside h)) id))
    fun distance after h => ?_
  obtain ⟨rfl, hdistance⟩ := h
  have hoffset : Word.Fits (place'.2.offset + distance) ∨ P := by
    refine hsteady'.symm.imp (fun hwithin => ?_) id
    obtain ⟨harrayWithin, hlower, hsize, hupper⟩ := hinside hwithin
    obtain ⟨hstart, hend⟩ := hlocated.inside harrayWithin
    rw [hdistance (distance_fits hlocated (hinside hwithin))]
    exact Word.fits_inside hstart hlower hsize (by omega) hlocated.words
  refine .right (.word_or hoffset) fun offset after h => ?_
  obtain ⟨rfl, hadded⟩ := h
  have hresult : (Vname.subscript span (some element) isVariable array index).Located element
      frame.level width 2 (place.1, { place.2 with indexed := true })
      (place'.1, { place'.2 with offset }) := by
    refine ⟨hlocated.entity, ⟨fun _ => rfl, .inr rfl⟩, hlocated.fits, hlocated.words,
      fun hsoft => absurd hhardens hsoft, fun hwithin => ?_⟩
    obtain ⟨harrayWithin, hlower, hsize, hupper⟩ := hinside hwithin
    obtain ⟨hstart, hend⟩ := hlocated.inside harrayWithin
    have hword := hdistance (distance_fits hlocated (hinside hwithin))
    have hfits := Word.fits_inside hstart hlower hsize (by omega) hlocated.words
    rw [hword] at hadded
    show 0 ≤ offset ∧ offset + element.width ≤ width
    rw [hadded hfits]
    omega
  -- the ideal machine computes the subscript
  have hcomputes {inner inner' : Frame} (hinner : Setting Γ n' start inner inner') :=
    (hindex.alone hvalue' hindexType hinner hlead').bind fun a after h =>
      (leads_scale : start.Leads P after (if element.width ≠ 1 then _ else _) fun a last =>
        a = (place.1, { place.2 with indexed := true }) ∧ after + place.2.waiting ≤ last).mono
        fun a last h' => show a = (place.1, { place.2 with indexed := true }) ∧
          place.lead place' slack lead + 1 + place.2.waiting ≤ last from ⟨h'.1, by omega⟩
  refine .weaken (Start.Leads.keeps (Q := fun a last =>
    a = (place.1, { place.2 with indexed := true }) ∧
      place.lead place' slack lead + 1 + place.2.waiting ≤ last) ?_ fun a last h => ?_)
  · by_cases hleft : place.2.indexed = true
    · rw [if_pos hleft]
      refine (Start.Leads.grow ..).bind fun _ after h => ?_
      obtain ⟨rfl, rfl, hfits⟩ := h
      exact hcomputes ((hset.grow (Int.le_refl 0) (by decide) hfits).later hn)
    · rw [if_neg hleft]
      exact hcomputes (hset.later hn)
  · obtain ⟨rfl, hle⟩ := h
    refine ⟨_, ?_, width, 2, hresult, rfl⟩
    show lead + place'.2.waiting + 2 - 1 ≤ last
    unfold Encode.Place.lead at hle
    rcases hlocated.access.lead with ⟨rfl, hsame⟩ | rfl <;> omega

/-- The subscript is no literal after folding either. -/
theorem subscript_open {indexType : TypeDenoter}
    (harray : Vname.Eases P Γ n array array' (.array serial arraySpan length element))
    (hindex : Expression.Eases P Γ n' index index' indexType) (hn : n ≤ n')
    (htype : array.type = some (.array serial arraySpan length element))
    (hvalue : index.integerValue? = none) (hvalue' : index'.integerValue? = none)
    (hwidth : 0 ≤ element.width) :
    Vname.Eases P Γ n (.subscript span (some element) isVariable array index)
      (.subscript span (some element) isVariable' array' index') element := by
  intro start frame frame' hset lead hlead
  simp only [Assembler.place, hvalue, hvalue']
  refine (harray hset hlead).bind fun place place' after hafter => ?_
  obtain ⟨width, slack, hlocated, rfl⟩ := hafter
  have hlead' := hlocated.access.lead_nonneg hlead
  refine (Start.Matches.sizeOf? element span span).before hlead' fun a b hab => ?_
  obtain ⟨rfl, rfl, -⟩ := hab
  have hresult : (Vname.subscript span (some element) isVariable array index).Located element
      frame.level width slack (place.1, { place.2 with indexed := true })
      (place'.1, { place'.2 with indexed := true }) := by
    refine ⟨hlocated.entity, ⟨fun _ => rfl, ?_⟩, hlocated.fits, hlocated.words, fun hsoft => ?_,
      fun hwithin => ?_⟩
    · exact hlocated.access.lead.imp (fun ⟨hslack, hsame⟩ => ⟨hslack, by rw [hsame]⟩) id
    · show ({ place'.2 with indexed := true } : Access) = _
      rw [hlocated.same (not_or.1 hsoft).1]
    · obtain ⟨harrayWithin, hle⟩ := element_le_of_within htype hwidth hwithin
      obtain ⟨hstart, hend⟩ := hlocated.inside harrayWithin
      show 0 ≤ place'.2.offset ∧ place'.2.offset + element.width ≤ width
      omega
  -- wherever the index is computed, both scale it and add it to one that waits
  have hcomputes {inner inner' : Frame} (hinner : Setting Γ n' start inner inner') :=
    (hindex hinner).before hlead' fun _ _ _ =>
      (keeps_scale hlocated.access.indexed hlead' : start.Keeps P _
        (if element.width ≠ 1 then _ else _) (if element.width ≠ 1 then _ else _) fun a b after =>
          a = (place.1, { place.2 with indexed := true }) ∧
          b = (place'.1, { place'.2 with indexed := true }) ∧
          after = place.lead place' slack lead + place.2.waiting - place'.2.waiting).mono
        fun a b after ⟨ha, hb, hafter⟩ => show ∃ width slack,
          (Vname.subscript span (some element) isVariable array index).Located element frame.level
            width slack a b ∧ after = Encode.Place.lead a b slack lead by
          subst ha hb
          refine ⟨width, slack, hresult, hafter.trans ?_⟩
          show _ = lead + 1 + slack - 1
          unfold Encode.Place.lead
          omega
  by_cases hright : place'.2.indexed = true
  · rw [if_pos (hlocated.access.indexed hright), if_pos hright]
    refine (Start.Matches.grow (hset.fits (by decide) (Int.le_refl _))).before hlead'
      fun _ _ hframes => ?_
    obtain ⟨rfl, rfl, hfits⟩ := hframes
    exact hcomputes ((hset.grow (by decide) (Int.le_refl _) hfits).later hn)
  · by_cases hleft : place.2.indexed = true
    · rw [if_pos hleft, if_neg hright]
      refine .left (.grow ..) fun _ after h => ?_
      obtain ⟨rfl, rfl, hfits⟩ := h
      have hset' := (hset.grow (Int.le_refl 0) (by decide) hfits).later hn
      rw [Int.add_zero] at hset'
      exact hcomputes hset'
    · rw [if_neg hleft, if_neg hright]
      exact hcomputes (hset.later hn)

end

end Vname.Eases

end

end TriangleTam
