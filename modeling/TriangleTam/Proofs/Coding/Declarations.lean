import TriangleTam.Proofs.Coding.Routines
import TriangleTam.Proofs.Coding.Visits
import TriangleTam.Proofs.Coding.Vnames

/-! # Encoding of parameters and declarations

  A declaration encodes if its parts do, and afterwards what it declares is
  represented. The body of a routine is encoded in a frame of its own, which
  starts with the link data; the arguments lie below it, and the place of each
  parameter is counted from the last one.
-/

namespace TriangleTam

variable {made : List TypeDenoter} {π : Plan} {Γ : Env} {lo mid hi : Nat}

/-! ## Actual parameters -/

namespace Actual.Encodes

theorem of_inner {actual : Actual} {shape : FormalShape}
    (h : ∀ frame s, s.Ready made π Γ (Set.Ico lo hi) →
      (Encode.actual actual frame).Does made (Set.Ico lo hi) s fun n s' =>
        s.Yields π s' (actual.inner frame s) frame.size (frame.size + n)
          fun lines => n = shape.words ∧ Actual.Code π frame s.start actual lines n) :
    actual.Encodes made π Γ lo hi shape := by
  intro frame s hready
  exact Encode.Does.call (.actual actual) (h frame s hready) (fun _ => trivial)
    fun _ _ hcode => hcode.2.closed

theorem const {span : Span} {value : Expression} {type expected : TypeDenoter}
    (hvalue : value.Encodes made π Γ lo hi type) (hequivalent : expected.equivalent type = true) :
    (Actual.const span value).Encodes made π Γ lo hi (.const expected) := by
  apply of_inner
  intro frame s hready
  unfold Encode.actual
  refine (hvalue frame s hready).mono subset_rfl ?_
  intro n s' _ _ hyields hfinal
  obtain ⟨l, ⟨hexact, hn, hcode⟩, hwrote⟩ := hyields hfinal
  refine ⟨l, ⟨?_, .const hcode⟩, hwrote⟩
  show n = expected.size
  rw [hn, ← hexact.size_eq, TypeDenoter.size_eq_of_equivalent hequivalent]

theorem var {span : Span} {found : Vname} {type expected : TypeDenoter}
    (hfound : found.Encodes made π Γ lo hi type) (hvariable : found.isVariable = true) :
    (Actual.var span found).Encodes made π Γ lo hi (.var expected) := by
  apply of_inner
  intro frame s hready
  unfold Encode.actual
  refine (hfound frame s hready).bind subset_rfl ?_
  intro ⟨entity, access⟩ s₁ _ hbefore₁ ⟨_, hentity, hyields⟩
  refine (Encode.fetchAddress_does (hentity hvariable) access frame).step ?_
  intro _ s₂ _ hbefore₂ hwrites
  refine .pure fun hfinal => ?_
  obtain ⟨l, hcode, hwrote⟩ := hyields (hbefore₂.final hfinal)
  refine ⟨_, ⟨rfl, .var hcode (hentity hvariable)⟩, ?_⟩
  have hnil := (hentity hvariable).addressCode_ne_nil frame access
  exact hwrote.append_straight hwrites hfinal.quiet fun h => absurd h hnil

/-- Pushing the closure of a routine. -/
theorem closure_does (π : Plan) {name : Name} {id : BindingId} {entity : Entity} {s : Encoder}
    (hname : name.binding = some id) (hat : s.entities.lookup id = some entity)
    (hroutine : entity.IsRoutine) (frame : Frame) :
    (do
      let entity ← Encode.entityOf name
      Encode.requesting (entity.fetchClosure frame)
      return Machine.closureSize).Does made (Set.Ico lo hi) s fun n s' =>
        n = Machine.closureSize ∧
          s.Yields π s' [] frame.size (frame.size + n) fun lines =>
            π.entity id = some entity ∧ lines = Line.straight frame.size (entity.closureCode frame)
    := by
  refine (Encode.entityOf_does hname hat).step ?_
  rintro _ _ - - ⟨rfl, rfl⟩
  refine (Encode.requesting_does (Entity.fetchClosure_appends hroutine frame s.emitter)).step ?_
  intro _ s₁ _ hbefore hwrites
  refine .pure ⟨rfl, fun hfinal => ?_⟩
  refine ⟨_, ⟨(hbefore.final hfinal).entities hat, rfl⟩, ?_⟩
  have hnil := hroutine.closureCode_ne_nil frame
  exact .of_writes hwrites hfinal.quiet (codeOf_straight _ _)
    (Line.depthAt_straight fun h => absurd h hnil)

theorem proc {span : Span} {found : Name} {name : String} {id : BindingId}
    {shapes expected : Signature} (hname : found.binding = some id)
    (hfind : Γ.find? name = some (id, .proc shapes)) :
    (Actual.proc span found).Encodes made π Γ lo hi (.proc expected) := by
  apply of_inner
  intro frame s hready
  obtain ⟨entity, hat, htransfers⟩ := hready.found hfind fun _ => BindingKind.noConfusion
  have hroutine := htransfers.1.isRoutine
  unfold Encode.actual
  refine (closure_does π hname hat hroutine frame).mono subset_rfl ?_
  rintro _ s' - - ⟨rfl, hyields⟩ hfinal
  obtain ⟨_, ⟨hplan, rfl⟩, hwrote⟩ := hyields hfinal
  exact ⟨_, ⟨rfl, .proc hname hplan hroutine⟩, hwrote⟩

theorem func {span : Span} {found : Name} {name : String} {id : BindingId}
    {shapes expected : Signature} {result expectedResult : TypeDenoter}
    (hname : found.binding = some id)
    (hfind : Γ.find? name = some (id, .func shapes result)) :
    (Actual.func span found).Encodes made π Γ lo hi (.func expected expectedResult) := by
  apply of_inner
  intro frame s hready
  obtain ⟨entity, hat, htransfers⟩ := hready.found hfind fun _ => BindingKind.noConfusion
  have hroutine := htransfers.1.isRoutine
  unfold Encode.actual
  refine (closure_does π hname hat hroutine frame).mono subset_rfl ?_
  rintro _ s' - - ⟨rfl, hyields⟩ hfinal
  obtain ⟨_, ⟨hplan, rfl⟩, hwrote⟩ := hyields hfinal
  exact ⟨_, ⟨rfl, .func hname hplan hroutine⟩, hwrote⟩

end Actual.Encodes

namespace Actuals.Encodes

theorem of_inner {actuals : Actuals} {shapes : Signature}
    (h : ∀ frame s, s.Ready made π Γ (Set.Ico lo hi) →
      (Encode.actuals actuals frame).Does made (Set.Ico lo hi) s fun n s' =>
        s.Yields π s' (actuals.inner frame s) frame.size (frame.size + n)
          fun lines => n = Signature.words shapes ∧
            Actuals.Code π frame s.start actuals lines n) :
    actuals.Encodes made π Γ lo hi shapes := by
  intro frame s hready
  exact Encode.Does.call (.actuals actuals) (h frame s hready) (fun _ => trivial)
    fun _ _ hcode => hcode.2.closed

theorem empty {span : Span} : (Actuals.empty span).Encodes made π Γ lo hi [] := by
  apply of_inner
  intro frame s _
  unfold Encode.actuals
  refine .pure fun hfinal => ⟨[], ⟨rfl, .empty⟩, ?_⟩
  rw [Int.add_zero]
  exact .nil (.refl s) hfinal.quiet frame.size

theorem one {span : Span} {first : Actual} {shape : FormalShape}
    (hfirst : first.Encodes made π Γ lo hi shape) :
    (Actuals.one span first).Encodes made π Γ lo hi [shape] := by
  apply of_inner
  intro frame s hready
  unfold Encode.actuals
  refine (hfirst frame s hready).mono subset_rfl ?_
  intro n s' _ _ hyields hfinal
  obtain ⟨l, ⟨hn, hcode⟩, hwrote⟩ := hyields hfinal
  refine ⟨l, ⟨?_, .one hcode⟩, hwrote⟩
  rw [hn]
  exact (Int.add_zero _).symm

theorem more {span : Span} {first : Actual} {rest : Actuals} {shape : FormalShape}
    {shapes : Signature} (hfirst : first.Encodes made π Γ lo mid shape)
    (hrest : rest.Encodes made π Γ mid hi shapes) (hlo : lo ≤ mid) (hhi : mid ≤ hi) :
    (Actuals.more span first rest).Encodes made π Γ lo hi (shape :: shapes) := by
  apply of_inner
  intro frame s hready
  refine (Encode.pair_does frame hready hlo hhi
    (fun frame s hready => (hfirst frame s hready).fits hready)
    fun frame s hready => (hrest frame s hready).fits hready).mono subset_rfl ?_
  intro n s' _ _ ⟨_, hyields⟩ hfinal
  obtain ⟨_, ⟨n₁, n₂, l₁, l₂, s₂, rfl, rfl, ⟨hn₁, hcode₁⟩, hstart, hn₂, hcode₂⟩, hwrote⟩ :=
    hyields hfinal
  rw [hstart] at hcode₂
  refine ⟨_, ⟨?_, .more hcode₁ hcode₂⟩, hwrote⟩
  rw [hn₁, hn₂]
  rfl

end Actuals.Encodes

/-! ## Formal parameters -/

namespace Encode

/-- A parameter is represented at an address below the link data. -/
theorem parameter_does {name : Name} {id : BindingId} (entity : Address → Entity) {frame : Frame}
    {size : Int} {s : Encoder} (hname : name.binding = some id)
    (hnew : s.entities.lookup id = none) :
    (do
      let address ← (do
        let depth ← word (frame.size + size)
        return ⟨frame.level, -depth⟩ : Encode Address)
      bind name (entity address)
      return size).Does made {id} s fun n s' =>
        (∃ address, s'.entities.lookup id = some (entity address) ∧
          (s'.Quiet → address = (⟨frame.level, -(frame.size + size)⟩ : Address))) ∧
        s.Writes s' [] ∧ n = size := by
  have haddress : (do
      let depth ← word (frame.size + size)
      return ⟨frame.level, -depth⟩ : Encode Address).Does made ∅ s fun address s' =>
        s.Writes s' [] ∧ (s'.Quiet → address = (⟨frame.level, -(frame.size + size)⟩ : Address)) := by
    refine (word_does _).step ?_
    intro depth s' _ _ ⟨hwrites, hdepth⟩
    exact .pure ⟨hwrites, fun hquiet => by rw [hdepth hquiet]⟩
  refine haddress.step ?_
  intro address s₁ _ hbefore₁ ⟨hwrites, hplace⟩
  have hnew₁ : s₁.entities.lookup id = none := by rw [hbefore₁.within id nofun, hnew]
  refine (bind_does hname hnew₁ (entity address)).bind subset_rfl ?_
  intro _ s₂ _ hbefore₂ ⟨hat, hcode⟩
  refine .pure ⟨⟨address, hat, fun hquiet => hplace (hbefore₂.quiet hquiet)⟩, ?_, rfl⟩
  intro hquiet
  rw [hcode, hwrites (hbefore₂.quiet hquiet)]

end Encode

/-- How a parameter is represented at an address. -/
def Formal.entity (formal : Formal) (address : Address) : Entity :=
  match formal with
  | .const _ _ _ type => .unknownValue type.size address
  | .var .. => .unknownAddress Machine.addressSize address
  | .proc .. | .func .. => .unknownRoutine Machine.closureSize address

/-- The values for the parameter, or the variables, are of an exact type. -/
def Formal.Sized : Formal → Prop
  | .const _ _ _ type | .var _ _ _ type => type.Exact ∧ 0 ≤ type.size
  | .proc .. | .func .. => True

theorem Formal.Sized.words_nonneg {formal : Formal} (h : formal.Sized) : 0 ≤ formal.words := by
  cases formal with
  | const => exact h.2
  | var => exact (by decide : (0 : Int) ≤ Machine.addressSize)
  | proc | func => exact (by decide : (0 : Int) ≤ Machine.closureSize)

/-- The parameter is represented at the words for it that lie `below` words below the link data
    of a routine whose body has the level. -/
def Formal.Placed (π : Plan) (level : Nat) (below : Int) (formal : Formal) : Prop :=
  formal.Sized ∧ ∃ id, formal.name.binding = some id ∧
    π.entity id = some (formal.entity ⟨level, -(below + formal.words)⟩)

/-- Each parameter is represented below those after it. -/
def Formals.Placed (π : Plan) (level : Nat) (below : Int) : Formals → Prop
  | .empty _ => True
  | .one _ first => first.Placed π level below
  | .more _ first rest => first.Placed π level (below + rest.words) ∧ rest.Placed π level below

/-- Parameters are given places if the encoder has none for them: afterwards every entry of
    `Γ'` fits that is new, and what is returned is what the parameters take. -/
def Formals.Places (made : List TypeDenoter) (π : Plan) (Γ : Env) (lo hi : Nat) (Γ' : Env)
    (words : Int) (placed : Nat → Int → Prop) (m : Frame → Encode Int) : Prop :=
  ∀ frame, ∀ s : Encoder, (∀ id ∈ Set.Ico lo hi, s.entities.lookup id = none) → s.Laid made →
    (m frame).Does made (Set.Ico lo hi) s fun n s' =>
      (∀ entry ∈ Γ'.entries, entry ∈ Γ.entries ∨ s'.Fits π entry) ∧ s.Writes s' [] ∧
        (s'.Quiet → n = words) ∧ (s'.Final π → placed frame.level frame.size)

open Encode (parameter_does sizeOf_does)

/-- The entry of a parameter fits once its binding is represented. -/
theorem Env.fits_enter {s : Encoder} {name : String} {id : BindingId} {kind : BindingKind}
    {entity : Entity} (hat : s.entities.lookup id = some entity)
    (hrep : kind.RepresentedBy π id entity) :
    ∀ entry ∈ (Γ.enter name id kind).entries, entry ∈ Γ.entries ∨ s.Fits π entry := by
  intro entry hmem
  rcases List.mem_cons.1 hmem with rfl | hmem
  · exact .inr (.inr ⟨entity, hat, hrep⟩)
  · exact .inl hmem

theorem Formal.Typed.places {Γ' : Env} {p p' : Supply} {formal formal' : Formal}
    {shape : FormalShape} (h : Formal.Typed Γ p formal formal' shape Γ' p')
    (hknown : formal'.All (TypeDenoter.Known made))
    (hplan : formal'.routines ⊆ π.routines) :
    Formals.Places made π Γ p.bindings p'.bindings Γ' formal'.words (formal'.Placed π)
      (Encode.formal formal') := by
  intro frame s hnew hlaid
  cases h with
  | @const _ _ span _ name _ type p₁ htype _ =>
    -- a parameter is bound once what stands in it is
    have hmem : p₁.bindings ∈ Set.Ico p.bindings p₁.bind.bindings :=
      ⟨htype.before.bindings, Nat.lt_succ_self _⟩
    unfold Encode.formal
    refine (sizeOf_does hknown hlaid).step ?_
    rintro _ s₁ - hbefore₁ ⟨rfl, hwrites₁, hexact⟩
    have hnew₁ : s₁.entities.lookup p₁.bindings = none := by
      rw [hbefore₁.within _ nofun, hnew _ hmem]
    refine (parameter_does (.unknownValue type.size) rfl hnew₁).mono
      (Set.singleton_subset_iff.2 hmem) ?_
    rintro _ s₂ - hbefore₂ ⟨⟨address, hat, hplace⟩, hwrites₂, rfl⟩
    have hrep : (BindingKind.const type).RepresentedBy π p₁.bindings
        (.unknownValue type.size address) := .inl trivial
    refine ⟨Env.fits_enter hat hrep, hwrites₁.trans hbefore₂ hwrites₂, fun _ => rfl, ?_⟩
    intro hfinal
    -- the place depends on the size, which is exact if nothing was reported
    obtain rfl := hplace hfinal.quiet
    have hsized : (Formal.const span false (name.link p₁.bindings) type).Sized :=
      ⟨hexact (hbefore₂.quiet hfinal.quiet), hknown.size_nonneg⟩
    exact ⟨hsized, p₁.bindings, rfl, hfinal.entities hat⟩
  | @var _ _ span _ name _ type p₁ htype _ =>
    have hmem : p₁.bindings ∈ Set.Ico p.bindings p₁.bind.bindings :=
      ⟨htype.before.bindings, Nat.lt_succ_self _⟩
    unfold Encode.formal
    refine (sizeOf_does hknown hlaid).step ?_
    rintro _ s₁ - hbefore₁ ⟨rfl, hwrites₁, hexact⟩
    have hnew₁ : s₁.entities.lookup p₁.bindings = none := by
      rw [hbefore₁.within _ nofun, hnew _ hmem]
    refine (parameter_does (.unknownAddress Machine.addressSize) rfl hnew₁).mono
      (Set.singleton_subset_iff.2 hmem) ?_
    rintro _ s₂ - hbefore₂ ⟨⟨address, hat, hplace⟩, hwrites₂, rfl⟩
    have hrep : (BindingKind.var type).RepresentedBy π p₁.bindings
        (.unknownAddress Machine.addressSize address) := trivial
    refine ⟨Env.fits_enter hat hrep, hwrites₁.trans hbefore₂ hwrites₂, fun _ => rfl, ?_⟩
    intro hfinal
    obtain rfl := hplace hfinal.quiet
    have hsized : (Formal.var span false (name.link p₁.bindings) type).Sized :=
      ⟨hexact (hbefore₂.quiet hfinal.quiet), hknown.size_nonneg⟩
    exact ⟨hsized, p₁.bindings, rfl, hfinal.entities hat⟩
  | @proc _ _ span _ name _ inner shapes _ p₁ hinner _ =>
    have hmem : p₁.bindings ∈ Set.Ico p.bindings p₁.bind.bindings :=
      ⟨hinner.before.bindings, Nat.lt_succ_self _⟩
    -- the plan has the routine, with the words that its parameters take
    have hmem' : ⟨p₁.bindings, ⟨Signature.words shapes, 0⟩, false⟩ ∈ π.routines := by
      rw [← hinner.words_eq]
      exact hplan (List.mem_singleton_self _)
    unfold Encode.formal
    refine (parameter_does (.unknownRoutine Machine.closureSize) rfl (hnew _ hmem)).mono
      (Set.singleton_subset_iff.2 hmem) ?_
    rintro _ s₁ - - ⟨⟨address, hat, hplace⟩, hwrites, rfl⟩
    have hrep : (BindingKind.proc shapes).RepresentedBy π p₁.bindings
        (.unknownRoutine Machine.closureSize address) := ⟨.closure hmem', nofun⟩
    refine ⟨Env.fits_enter hat hrep, hwrites, fun _ => rfl, ?_⟩
    intro hfinal
    obtain rfl := hplace hfinal.quiet
    exact ⟨trivial, p₁.bindings, rfl, hfinal.entities hat⟩
  | @func _ _ span _ name _ _ result p₁ inner shapes _ p₂ hresult hinner _ =>
    have hmem : p₂.bindings ∈ Set.Ico p.bindings p₂.bind.bindings :=
      ⟨(hresult.before.trans hinner.before).bindings, Nat.lt_succ_self _⟩
    -- and this one with the words of its result too
    have hmem' : ⟨p₂.bindings, ⟨Signature.words shapes, result.size⟩, false⟩ ∈ π.routines := by
      rw [← hinner.words_eq]
      exact hplan (List.mem_singleton_self _)
    unfold Encode.formal
    refine (parameter_does (.unknownRoutine Machine.closureSize) rfl (hnew _ hmem)).mono
      (Set.singleton_subset_iff.2 hmem) ?_
    rintro _ s₁ - - ⟨⟨address, hat, hplace⟩, hwrites, rfl⟩
    have hrep : (BindingKind.func shapes result).RepresentedBy π p₂.bindings
        (.unknownRoutine Machine.closureSize address) := ⟨.closure hmem', nofun⟩
    refine ⟨Env.fits_enter hat hrep, hwrites, fun _ => rfl, ?_⟩
    intro hfinal
    obtain rfl := hplace hfinal.quiet
    exact ⟨trivial, p₂.bindings, rfl, hfinal.entities hat⟩

/-- The last parameter comes first. -/
theorem Formals.Places.more {span : Span} {first : Formal} {rest : Formals} {Γ' Γ'' : Env}
    {n n' : Int} {placed placed' : Nat → Int → Prop}
    (hfirst : Formals.Places made π Γ lo mid Γ' n placed (Encode.formal first))
    (hrest : Formals.Places made π Γ' mid hi Γ'' n' placed' (Encode.formals rest))
    (hlo : lo ≤ mid) (hhi : mid ≤ hi) :
    Formals.Places made π Γ lo hi Γ'' (n + n')
      (fun level below => placed level (below + n') ∧ placed' level below)
      (Encode.formals (.more span first rest)) := by
  intro frame s hnew hlaid
  unfold Encode.formals
  have hnew₂ : ∀ id ∈ Set.Ico mid hi, s.entities.lookup id = none :=
    fun id hid => hnew id ⟨Nat.le_trans hlo hid.1, hid.2⟩
  refine (hrest frame s hnew₂ hlaid).bind (Set.Ico_subset_Ico_left hlo) ?_
  intro n₂ s₁ _ hbefore₁ ⟨hfits₁, hwrites₁, hn₂, hplaced₁⟩
  refine (Encode.grow_does frame n₂).step ?_
  intro frame' s₂ _ hbefore₂ ⟨hgrow, hframe⟩
  -- the parameters behind the first one have other bindings
  have hnew₁ : ∀ id ∈ Set.Ico lo mid, s₂.entities.lookup id = none := by
    intro id hid
    have hnot : id ∉ Set.Ico mid hi := fun h => absurd h.1 (Nat.not_le.2 hid.2)
    rw [hbefore₂.within id nofun, hbefore₁.within id hnot]
    exact hnew id ⟨hid.1, Nat.lt_of_lt_of_le hid.2 hhi⟩
  have hlaid₂ := hbefore₂.laid (hbefore₁.laid hlaid)
  refine (hfirst frame' s₂ hnew₁ hlaid₂).bind (Set.Ico_subset_Ico_right hhi) ?_
  intro n₁ s₃ _ hbefore₃ ⟨hfits₃, hwrites₃, hn₁, hplaced₃⟩
  refine (Encode.word_does (n₂ + n₁)).last ?_
  intro n s₄ _ hbefore₄ ⟨hword, hn⟩
  refine ⟨?_, ?_, ?_, ?_⟩
  · -- an entry is of the first parameter, of one behind it, or was there before
    intro entry hmem
    rcases hfits₁ entry hmem with hmem₁ | hfits
    · rcases hfits₃ entry hmem₁ with hmem₃ | hfits
      · exact .inl hmem₃
      · exact .inr (hfits.later hbefore₄)
    · exact .inr (((hfits.later hbefore₂).later hbefore₃).later hbefore₄)
  · have hwrites := hwrites₁.trans hbefore₂ hgrow
    have hwrites' := hwrites.trans hbefore₃ hwrites₃
    exact hwrites'.trans hbefore₄ hword
  · intro hquiet
    have hquiet₃ := hbefore₄.quiet hquiet
    have hquiet₁ := hbefore₂.quiet (hbefore₃.quiet hquiet₃)
    rw [hn hquiet, hn₂ hquiet₁, hn₁ hquiet₃, Int.add_comm]
  · intro hfinal
    have hfinal₃ := hbefore₄.final hfinal
    have hfinal₂ := hbefore₃.final hfinal₃
    have hfinal₁ := hbefore₂.final hfinal₂
    have hplaced := hplaced₃ hfinal₃
    rw [hframe hfinal₂.quiet, hn₂ hfinal₁.quiet] at hplaced
    exact ⟨hplaced, hplaced₁ hfinal₁⟩

theorem Formals.Typed.places {Γ Γ' : Env} {p p' : Supply} {formals formals' : Formals}
    {shapes : Signature} : Formals.Typed Γ p formals formals' shapes Γ' p' →
    formals'.All (TypeDenoter.Known made) →
    formals'.routines ⊆ π.routines →
    Formals.Places made π Γ p.bindings p'.bindings Γ' formals'.words (formals'.Placed π)
      (Encode.formals formals')
  | .empty, _, _ => by
    intro frame s _ _
    unfold Encode.formals
    exact .pure ⟨fun entry hmem => .inl hmem, .refl s, fun _ => rfl, fun _ => trivial⟩
  | .one hfirst, hknown, hplan => by
    intro frame s hnew hlaid
    unfold Encode.formals
    exact hfirst.places hknown hplan frame s hnew hlaid
  | .more hfirst hrest, ⟨hknown₁, hknown₂⟩, hplan => by
    obtain ⟨hplan₁, hplan₂⟩ := List.append_subset.1 hplan
    exact .more (hfirst.places hknown₁ hplan₁) (hrest.places hknown₂ hplan₂)
      hfirst.before.bindings hrest.before.bindings

/-! ## Routines -/

/-- A jump over the code of a routine, the code of its body and its return. -/
def Line.routine (frame : Frame) (a : Nat) (body : List Line) (n words : Int) : List Line :=
  jump (a + 1 + body.length + 1) frame.size ::
    (body ++ [ret n words (Machine.linkDataSize + n)])

/-- The body of a routine was encoded, in the environment `Γ'`, after its parameters were given
    places. -/
def Encode.Enters (made : List TypeDenoter) (π : Plan) (Γ' : Env) (new : Set BindingId)
    (placed : Nat → Int → Prop) (name : Name) (parameters : Formals) (frame : Frame)
    (body : Frame → Encode Int) (s : Encoder) : Prop :=
  frame.level < Machine.maxRoutineLevel ∧ placed (frame.level + 1) 0 ∧
    ∃ s₁, (enterBody name parameters frame).exec s =
        (.ok (frame.push Machine.linkDataSize), s₁) ∧
      s₁.Ready made π Γ' new ∧
      ∃ n s₂, (body (frame.push Machine.linkDataSize)).exec s₁ = (.ok n, s₂) ∧ s₂.Final π

/-- A routine is represented before its parameters and its body are encoded. -/
theorem Encode.routine_does {name : Name} {id : BindingId} {kind : BindingKind} {inner : Nat}
    {parameters : Formals} {words : Int} {placed : Nat → Int → Prop} {Γ' : Env}
    {body : Frame → Encode Int}
    {calls : Frame → Encoder → List Call} {C : Frame → Nat → Int → List Line → Prop}
    (hname : name.binding = some id) (hid : lo ≤ id) (hinner : id < inner) (hmid : inner ≤ mid)
    (hhi : mid ≤ hi)
    (hrep : ∀ address, kind.RepresentedBy π id (.knownRoutine Machine.closureSize address))
    (hparameters : Formals.Places made π (Γ.enter name.spelling id kind).enclose inner mid Γ' words
      placed (Encode.formals parameters))
    (hbody : ∀ frame s, s.Ready made π Γ' (Set.Ico mid hi) →
      (body frame).Does made (Set.Ico mid hi) s fun n s' =>
        s.Yields π s' (calls frame s) frame.size (frame.size + n) (C frame s.start n))
    {frame : Frame} {s : Encoder} (hready : s.Ready made π Γ (Set.Ico lo hi)) :
    (Encode.routine name parameters frame body).Does made (Set.Ico lo hi) s fun _ s' =>
      (∀ entry ∈ (Γ.enter name.spelling id kind).entries, s'.Fits π entry) ∧
        (s'.Final π → Enters made π Γ' (Set.Ico mid hi) placed name parameters frame body s) ∧
        s.Yields π s' (Encode.routineCalls name parameters frame s calls) frame.size frame.size
          fun lines => ∃ n l, lines = Line.routine frame s.start l n words ∧
            π.entity id = some (.knownRoutine Machine.closureSize
              ⟨frame.level, (s.start + 1 : Nat)⟩) ∧
            C (frame.push Machine.linkDataSize) (s.start + 1) n l := by
  have hlo : lo ≤ inner := Nat.le_trans hid (Nat.le_of_lt hinner)
  have hmem : id ∈ Set.Ico lo hi :=
    ⟨hid, Nat.lt_of_lt_of_le hinner (Nat.le_trans hmid hhi)⟩
  unfold Encode.routine
  refine (emitForward_does .jump 0).step ?_
  rintro _ s₁ hrun₁ hbefore₁ ⟨rfl, hjump⟩
  refine next_does.step ?_
  rintro _ _ hrun₁' - ⟨rfl, rfl⟩
  have hready₁ := hready.step hbefore₁
  refine (bind_does hname (hready₁.fresh id hmem) _).bind (Set.singleton_subset_iff.2 hmem) ?_
  intro _ s₂ hrun₂ hbefore₂ ⟨hat, hcode₂⟩
  -- the routine fits from here on
  have hfits₂ : ∀ entry ∈ (Γ.enter name.spelling id kind).entries, s₂.Fits π entry := by
    intro entry hentry
    rcases List.mem_cons.1 hentry with rfl | hentry
    · exact .inr ⟨_, hat, hrep _⟩
    · exact (hready₁.fits entry hentry).later hbefore₂
  have hafter₂ := hready₁.mono (Set.Ico_subset_Ico_left hlo)
  have hready₂ : s₂.Ready made π (Γ.enter name.spelling id kind).enclose (Set.Ico inner hi) := by
    have hdisjoint : Disjoint {id} (Set.Ico inner hi) :=
      Set.disjoint_singleton_left.2 fun h => absurd h.1 (Nat.not_le.2 hinner)
    exact ((hafter₂.after hbefore₂ hdisjoint).entering hfits₂).enclose
  dsimp only
  by_cases hlevel : frame.level ≥ Machine.maxRoutineLevel
  · rw [if_pos hlevel]
    refine (restrict_does _).step ?_
    intro _ s₃ _ hbefore₃ hrestricted
    refine (emitPlain_does .ret 0 0).step ?_
    intro _ s₄ _ hbefore₄ _
    refine (patch_does s.start).last ?_
    intro _ s₅ _ hbefore₅ _
    have hbefore := (hbefore₃.trans hbefore₄).trans hbefore₅
    have hnever (hfinal : s₅.Final π) : False :=
      hrestricted ((hbefore₄.trans hbefore₅).final hfinal).quiet
    exact ⟨fun entry hentry => (hfits₂ entry hentry).later hbefore,
      fun hfinal => (hnever hfinal).elim, fun hfinal => (hnever hfinal).elim⟩
  · rw [if_neg hlevel]
    refine (hparameters (frame.push 0) s₂ (hready₂.front hhi).fresh hready₂.laid).bind
      (Set.Ico_subset_Ico hlo hhi) ?_
    intro words' s₃ hrun₃ hbefore₃ ⟨hfits₃, hwrites₃, hwords, hplaced⟩
    have hready₃ : s₃.Ready made π Γ' (Set.Ico mid hi) := by
      refine (hready₂.back hbefore₃ hmid).entering fun entry hentry => ?_
      rcases hfits₃ entry hentry with houter | hfits
      · exact (hready₂.fits entry houter).later hbefore₃
      · exact hfits
    refine (hbody _ s₃ hready₃).bind (Set.Ico_subset_Ico_left (Nat.le_trans hlo hmid)) ?_
    intro n s₄ hrun₄ hbefore₄ hyields₄
    refine (emitPlain_does .ret n words').step ?_
    intro _ s₅ _ hbefore₅ hret
    refine (patch_does s.start).last ?_
    intro _ s₆ _ hbefore₆ hpatch
    refine ⟨?_, fun hfinal => ?_, fun hfinal => ?_⟩
    · intro entry hentry
      have hbefore := ((hbefore₃.mono (Set.subset_univ _)).trans
        (hbefore₄.mono (Set.subset_univ _))).trans
          ((hbefore₅.trans hbefore₆).mono (Set.empty_subset _))
      exact (hfits₂ entry hentry).later hbefore
    · have hfinal₄ := hbefore₅.final (hbefore₆.final hfinal)
      have henter : (enterBody name parameters frame).exec s =
          (.ok (frame.push Machine.linkDataSize), s₃) := by
        unfold enterBody
        rw [exec_bind hrun₁, exec_bind hrun₁', exec_bind hrun₂, exec_bind hrun₃]
        rfl
      exact ⟨Nat.lt_of_not_le hlevel, hplaced (hbefore₄.final hfinal₄), s₃, henter, hready₃, n, s₄,
        hrun₄, hfinal₄⟩
    · have hfinal₅ := hbefore₆.final hfinal
      have hfinal₄ := hbefore₅.final hfinal₅
      have hfinal₃ := hbefore₄.final hfinal₄
      have hfinal₂ := hbefore₃.final hfinal₃
      have hfinal₁ := hbefore₂.final hfinal₂
      obtain rfl := hwords hfinal₃.quiet
      obtain ⟨l, hcode, hwrote⟩ := hyields₄ hfinal₄
      have hforward : s.Wrote s₁ [] frame.size Machine.linkDataSize
          [⟨.plain .jump 0 0, frame.size, ⟨0, 0⟩⟩] := .of_writes hjump hfinal₁.quiet rfl rfl
      have hbind : s₁.Writes s₂ [] := by
        intro _
        rw [hcode₂, List.append_nil]
      have hforward₃ := (hforward.append_nil hbind hfinal₂.quiet).append_nil hwrites₃
        hfinal₃.quiet
      have hback : s₄.Wrote s₅ [] (Machine.linkDataSize + n) frame.size
          [Line.ret n words' (Machine.linkDataSize + n)] := .of_writes hret hfinal₅.quiet rfl rfl
      have hall := (hforward₃.append hwrote.plain).append hback
      have hstart₁ : s₁.start = s.start + 1 := hforward.start_eq
      have hstart₃ : s₃.start = s.start + 1 := hforward₃.start_eq
      have hstart₅ : s₅.start = s.start + 1 + l.length + 1 := by
        rw [hback.start_eq, hwrote.start_eq, hstart₃]
        rfl
      have hpatched := hall.patch [] hpatch rfl
      have hentity := hfinal₂.entities hat
      rw [hstart₃] at hcode
      refine ⟨_, ⟨n, l, rfl, ?_, hcode⟩, ?_⟩
      · rw [hentity, ← hstart₁]
      · rw [Encode.routineCalls, after_eq hrun₁, after_eq hrun₁', after_eq hrun₂, if_neg hlevel,
          after_eq hrun₃]
        rw [hstart₅] at hpatched
        refine hpatched.with_calls fun call hmem => ?_
        have hplaced := hwrote.calls call hmem
        rw [hstart₃] at hplaced
        exact .cons (hplaced.append_left rfl)

/-! ## Declarations -/

namespace Declaration.Encodes

theorem of_inner {declaration : Declaration} {Γ' : Env}
    (h : ∀ frame s, s.Ready made π Γ (Set.Ico lo hi) →
      (Encode.declaration declaration frame).Does made (Set.Ico lo hi) s fun extra s' =>
        (∀ entry ∈ Γ'.entries, s'.Fits π entry) ∧
        s.Yields π s' (declaration.inner frame s) frame.size (frame.size + extra)
          fun lines => Declaration.Code π frame s.start declaration lines extra) :
    declaration.Encodes made π Γ lo hi Γ' := by
  intro frame s hready
  refine (h frame s hready).mono subset_rfl ?_
  intro extra s' hrun _ ⟨hfits, hyields⟩
  refine ⟨hfits, fun hfinal => ?_⟩
  obtain ⟨lines, hcode, hwrote⟩ := hyields hfinal
  have hreturns : ((Phrase.declaration declaration).encode frame).exec s = (.ok extra, s') := hrun
  exact ⟨lines, hcode, hwrote.call rfl hreturns trivial hcode.closed⟩

/-- Once its binding is represented, a declared name fits. -/
theorem fits_enter {s s' : Encoder} {new : Set BindingId} (hready : s.Ready made π Γ new)
    (hbefore : s.Before made new s') {name : String} {id : BindingId} {kind : BindingKind}
    {entity : Entity} (hat : s'.entities.lookup id = some entity)
    (hrep : kind.RepresentedBy π id entity) :
    ∀ entry ∈ (Γ.enter name id kind).entries, s'.Fits π entry := by
  intro entry hmem
  rcases List.mem_cons.1 hmem with rfl | hmem
  · exact .inr ⟨entity, hat, hrep⟩
  · exact (hready.fits entry hmem).later hbefore

theorem literal {span : Span} {duplicated : Bool} {name : Name} {value : Expression}
    {type : TypeDenoter} {known : Int} {id : BindingId} (hname : name.binding = some id)
    (hid : id ∈ Set.Ico lo hi) (htype : value.type = some type) (hknown : type.Known made)
    (hscalar : type.IsScalar) (hliteral : value.literalValue? = some known) :
    (Declaration.const span duplicated name value).Encodes made π Γ lo hi
      (Γ.enter name.spelling id (.const type)) := by
  apply of_inner
  intro frame s hready
  unfold Encode.declaration
  rw [hliteral, htype]
  refine (Encode.sizeOf?_does hknown hready.laid _).step ?_
  rintro _ s₁ - hbefore₁ ⟨rfl, hwrites, _⟩
  have hready₁ := hready.step hbefore₁
  refine (Encode.bind_does hname (hready₁.fresh id hid) (.knownValue type.size known)).bind
    (Set.singleton_subset_iff.2 hid) ?_
  intro _ s₂ _ hbefore₂ ⟨hat, hcode⟩
  have hrep : (BindingKind.const type).RepresentedBy π id (.knownValue type.size known) :=
    .inr ⟨hscalar, rfl, type.size, known, rfl⟩
  refine .pure ⟨fits_enter hready₁ (hbefore₂.mono (Set.singleton_subset_iff.2 hid)) hat hrep, ?_⟩
  intro hfinal
  refine ⟨[], .literal hliteral hname (hfinal.entities hat), ?_⟩
  have hbind : s₁.Writes s₂ [] := by
    intro _
    rw [hcode, List.append_nil]
  rw [Declaration.inner, if_pos (by rw [hliteral]; rfl), Int.add_zero]
  exact .nil (hwrites.trans hbefore₂ hbind) hfinal.quiet frame.size

theorem const {span : Span} {duplicated : Bool} {name : Name} {value : Expression}
    {type : TypeDenoter} {id : BindingId} (hvalue : value.Encodes made π Γ lo mid type)
    (hname : name.binding = some id) (hid : id ∈ Set.Ico mid hi) (hlo : lo ≤ mid)
    (hknown : type.Known made) (hliteral : value.literalValue? = none) :
    (Declaration.const span duplicated name value).Encodes made π Γ lo hi
      (Γ.enter name.spelling id (.const type)) := by
  apply of_inner
  intro frame s hready
  have hhi : mid ≤ hi := Nat.le_of_lt (Nat.lt_of_le_of_lt hid.1 hid.2)
  unfold Encode.declaration
  rw [hliteral]
  refine (hvalue frame s (hready.front hhi)).bind (Set.Ico_subset_Ico_right hhi) ?_
  intro n s₁ hrun₁ hbefore₁ hyields₁
  have hready₁ := hready.back hbefore₁ hlo
  refine (Encode.bind_does hname (hready₁.fresh id hid) (.unknownValue n frame.address)).bind
    (Set.singleton_subset_iff.2 ⟨Nat.le_trans hlo hid.1, hid.2⟩) ?_
  intro _ s₂ _ hbefore₂ ⟨hat, hcode⟩
  have hrep : (BindingKind.const type).RepresentedBy π id (.unknownValue n frame.address) :=
    .inl trivial
  refine .pure ⟨fits_enter hready₁ (hbefore₂.mono (Set.singleton_subset_iff.2 hid)) hat hrep, ?_⟩
  intro hfinal
  obtain ⟨l, ⟨hexact, hn, hvalueCode⟩, hwrote⟩ := hyields₁ (hbefore₂.final hfinal)
  have hnonneg : 0 ≤ n := by
    rw [hn, ← hexact.size_eq]
    exact hknown.size_nonneg
  have hbind : s₁.Writes s₂ [] := by
    intro _
    rw [hcode, List.append_nil]
  refine ⟨l, .const hliteral hvalueCode hnonneg hname (hfinal.entities hat), ?_⟩
  rw [Declaration.inner, if_neg (by rw [hliteral]; nofun)]
  exact hwrote.append_nil hbind hfinal.quiet

theorem var {span : Span} {duplicated : Bool} {name : Name} {type : TypeDenoter}
    {id : BindingId} (hname : name.binding = some id) (hid : id ∈ Set.Ico lo hi)
    (hknown : type.Known made) :
    (Declaration.var span duplicated name type).Encodes made π Γ lo hi
      (Γ.enter name.spelling id (.var type)) := by
  apply of_inner
  intro frame s hready
  unfold Encode.declaration
  refine (Encode.sizeOf_does hknown hready.laid).step ?_
  rintro _ s₁ - hbefore₁ ⟨rfl, hwrites, hexact⟩
  refine (Encode.emitPlain_does .push 0 type.size).step ?_
  intro _ s₂ _ hbefore₂ hpush
  have hready₂ := (hready.step hbefore₁).step hbefore₂
  refine (Encode.bind_does hname (hready₂.fresh id hid)
    (.knownAddress Machine.addressSize frame.address)).bind (Set.singleton_subset_iff.2 hid) ?_
  intro _ s₃ _ hbefore₃ ⟨hat, hcode⟩
  have hrep : (BindingKind.var type).RepresentedBy π id
      (.knownAddress Machine.addressSize frame.address) := trivial
  refine .pure ⟨fits_enter hready₂ (hbefore₃.mono (Set.singleton_subset_iff.2 hid)) hat hrep, ?_⟩
  intro hfinal
  have hfinal₂ := hbefore₃.final hfinal
  have hfinal₁ := hbefore₂.final hfinal₂
  have hsize := (hexact hfinal₁.quiet).size_eq
  have hnonneg : 0 ≤ type.width := hsize ▸ hknown.size_nonneg
  have hbind : s₂.Writes s₃ [] := by
    intro _
    rw [hcode, List.append_nil]
  have hwrites₃ := (hwrites.trans hbefore₂ hpush).trans hbefore₃ hbind
  rw [hsize] at hwrites₃ ⊢
  exact ⟨_, .var hnonneg hname (hfinal.entities hat),
    .of_writes hwrites₃ hfinal.quiet (codeOf_straight _ _) rfl⟩

/-- A procedure is represented by its entry. -/
theorem proc_represented {id : BindingId} {parameters : Formals} {shapes : Signature}
    (hplan : ⟨id, ⟨parameters.words, 0⟩, true⟩ ∈ π.routines)
    (hwords : parameters.words = Signature.words shapes) (address : Address) :
    (BindingKind.proc shapes).RepresentedBy π id (.knownRoutine Machine.closureSize address) := by
  refine ⟨?_, nofun⟩
  rw [← hwords]
  exact .routine hplan

theorem func_represented {id : BindingId} {parameters : Formals} {shapes : Signature}
    {result : TypeDenoter} (hplan : ⟨id, ⟨parameters.words, result.size⟩, true⟩ ∈ π.routines)
    (hwords : parameters.words = Signature.words shapes) (address : Address) :
    (BindingKind.func shapes result).RepresentedBy π id
      (.knownRoutine Machine.closureSize address) := by
  refine ⟨?_, nofun⟩
  rw [← hwords]
  exact .routine hplan

/-- The body of a procedure leaves nothing. -/
theorem leaves_nothing {body : Command} (h : body.Encodes made π Γ lo hi) (frame : Frame) (s : Encoder)
    (hready : s.Ready made π Γ (Set.Ico lo hi)) :
    (do
      Encode.command body frame
      return 0 : Encode Int).Does made (Set.Ico lo hi) s fun n s' =>
        s.Yields π s' ((Phrase.command body).calls frame s (body.inner frame s)) frame.size
          (frame.size + n) fun lines => n = 0 ∧ Command.Code π frame s.start body lines := by
  refine (h frame s hready).bind subset_rfl ?_
  intro _ s' _ _ hyields
  refine .pure fun hfinal => ?_
  obtain ⟨l, hcode, hwrote⟩ := hyields hfinal
  rw [Int.add_zero]
  exact ⟨l, ⟨rfl, hcode⟩, hwrote⟩

theorem proc {span : Span} {duplicated : Bool} {name : Name} {parameters : Formals}
    {body : Command} {shapes : Signature} {Γ' : Env} {id : BindingId} {inner : Nat}
    (hname : name.binding = some id) (hid : lo ≤ id) (hinner : id < inner) (hmid : inner ≤ mid)
    (hhi : mid ≤ hi) (hplan : ⟨id, ⟨parameters.words, 0⟩, true⟩ ∈ π.routines)
    (hwords : parameters.words = Signature.words shapes)
    (hparameters : Formals.Places made π (Γ.enter name.spelling id (.proc shapes)).enclose inner mid
      Γ' parameters.words (parameters.Placed π) (Encode.formals parameters))
    (hbody : body.Encodes made π Γ' mid hi) :
    (Declaration.proc span duplicated name parameters body).Encodes made π Γ lo hi
      (Γ.enter name.spelling id (.proc shapes)) := by
  apply of_inner
  intro frame s hready
  unfold Encode.declaration
  refine (Encode.routine_does hname hid hinner hmid hhi (proc_represented hplan hwords) hparameters
    (C := fun frame a n lines => n = 0 ∧ Command.Code π frame a body lines)
    (leaves_nothing hbody) hready).bind subset_rfl ?_
  intro _ s₁ _ _ ⟨hfits, _, hyields⟩
  refine .pure ⟨hfits, fun hfinal => ?_⟩
  obtain ⟨_, ⟨_, l, rfl, hentity, rfl, hcode⟩, hwrote⟩ := hyields hfinal
  rw [Int.add_zero]
  exact ⟨_, .proc hname hentity hcode, hwrote⟩

theorem func {span : Span} {duplicated : Bool} {name : Name} {parameters : Formals}
    {result bodyType : TypeDenoter} {body : Expression} {shapes : Signature} {Γ' : Env}
    {id : BindingId} {inner : Nat} (hname : name.binding = some id) (hid : lo ≤ id)
    (hinner : id < inner) (hmid : inner ≤ mid) (hhi : mid ≤ hi)
    (hplan : ⟨id, ⟨parameters.words, result.size⟩, true⟩ ∈ π.routines)
    (hwords : parameters.words = Signature.words shapes)
    (hparameters : Formals.Places made π (Γ.enter name.spelling id (.func shapes result)).enclose
      inner mid Γ' parameters.words (parameters.Placed π) (Encode.formals parameters))
    (hbody : body.Encodes made π Γ' mid hi bodyType)
    (hequivalent : result.equivalent bodyType = true) :
    (Declaration.func span duplicated name parameters result body).Encodes made π Γ lo hi
      (Γ.enter name.spelling id (.func shapes result)) := by
  apply of_inner
  intro frame s hready
  unfold Encode.declaration
  refine (Encode.routine_does hname hid hinner hmid hhi (func_represented hplan hwords) hparameters
    (C := fun frame a n lines => bodyType.Exact ∧ n = bodyType.width ∧
      Expression.Code π frame a body lines n) hbody hready).bind subset_rfl ?_
  intro _ s₁ _ _ ⟨hfits, _, hyields⟩
  refine .pure ⟨hfits, fun hfinal => ?_⟩
  obtain ⟨_, ⟨n, l, rfl, hentity, hexact, hn, hcode⟩, hwrote⟩ := hyields hfinal
  have hresult : n = result.size := by
    rw [hn, ← hexact.size_eq, TypeDenoter.size_eq_of_equivalent hequivalent]
  subst hresult
  rw [Int.add_zero]
  exact ⟨_, .func hname hentity hcode, hwrote⟩

theorem type {span : Span} {duplicated : Bool} {name : Name} {type : TypeDenoter}
    {id : BindingId} (hknown : type.Known made) :
    (Declaration.type span duplicated name type).Encodes made π Γ lo hi
      (Γ.enter name.spelling id (.type type)) := by
  apply of_inner
  intro frame s hready
  unfold Encode.declaration
  refine (Encode.sizeOf_does hknown hready.laid).step ?_
  rintro _ s₁ - hbefore₁ ⟨-, hwrites, _⟩
  refine .pure ⟨?_, fun hfinal => ⟨[], .type, ?_⟩⟩
  · intro entry hmem
    rcases List.mem_cons.1 hmem with rfl | hmem
    · exact .inl ⟨type, rfl⟩
    · exact (hready.fits entry hmem).later hbefore₁
  · rw [Int.add_zero]
    exact .nil hwrites hfinal.quiet frame.size

theorem sequence {span : Span} {first second : Declaration} {Γ' Γ'' : Env}
    (hfirst : first.Encodes made π Γ lo mid Γ') (hsecond : second.Encodes made π Γ' mid hi Γ'')
    (hlo : lo ≤ mid) (hhi : mid ≤ hi) :
    (Declaration.sequence span first second).Encodes made π Γ lo hi Γ'' := by
  apply of_inner
  intro frame s hready
  unfold Encode.declaration
  refine (Encode.pair_does frame hready hlo hhi hfirst hsecond).mono subset_rfl ?_
  intro n s' _ _ ⟨hfits, hyields⟩
  refine ⟨hfits, fun hfinal => ?_⟩
  obtain ⟨_, ⟨n₁, n₂, l₁, l₂, s₂, rfl, rfl, hcode₁, hstart, hcode₂⟩, hwrote⟩ := hyields hfinal
  rw [hstart] at hcode₂
  exact ⟨_, .sequence hcode₁ hcode₂, hwrote⟩

end Declaration.Encodes

end TriangleTam
