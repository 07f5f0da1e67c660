import Mathlib
import TriangleTam.Proofs.Coding.Encoding
import TriangleTam.Proofs.Coding.Visits

/-! # Storage

  The words on the stack that are an item's own: those of a variable, of a
  constant that is computed at run time, and those in which a parameter is
  passed. A declaration **stores** its items one after the other where its
  frame ends, and parameters lie below the link data.
-/

namespace TriangleTam

/-- Words on the stack, in frames of a level, from a displacement on. -/
structure Storage where
  level : Nat
  start : Int
  words : Int

namespace Storage

/-- The displacements of the words. -/
def range (storage : Storage) : Set Int := Set.Ico storage.start (storage.start + storage.words)

/-- The words lie from `lo` on and below `hi`. -/
structure Within (lo hi : Int) (storage : Storage) : Prop where
  lower : lo ≤ storage.start
  words : 0 ≤ storage.words
  upper : storage.start + storage.words ≤ hi

/-- No word of the stack belongs to both. -/
def Apart (first second : Storage) : Prop :=
  first.level = second.level → Disjoint first.range second.range

variable {storage first second : Storage} {lo mid hi lo' hi' : Int}

theorem Within.mono (h : storage.Within lo hi) (hlo : lo' ≤ lo) (hhi : hi ≤ hi') :
    storage.Within lo' hi' := by
  obtain ⟨hlower, hwords, hupper⟩ := h
  exact ⟨by omega, hwords, by omega⟩

/-- Words on both sides of a displacement. -/
theorem Within.apart (h : first.Within mid hi) (h' : second.Within lo mid) :
    first.Apart second := by
  obtain ⟨hlower, -, -⟩ := h
  obtain ⟨-, -, hupper⟩ := h'
  intro _
  refine Set.disjoint_left.2 fun word hword hword' => ?_
  have hfirst : first.start ≤ word := hword.1
  have hsecond : word < second.start + second.words := hword'.2
  omega

theorem Apart.symm (h : first.Apart second) : second.Apart first :=
  fun hlevel => (h hlevel.symm).symm

end Storage

/-! ## Storage of items -/

/-- The words of its own that an item needs, if it is a variable, a constant that is computed at
    run time, or a parameter. -/
def Item.words? : Item → Option Int
  | .declared (.var _ _ _ type) => some type.size
  | .declared (.const _ _ _ value) =>
    if value.literalValue?.isSome then none else value.type.map TypeDenoter.size
  | .declared (.proc ..) | .declared (.func ..) | .declared (.type ..)
  | .declared (.sequence ..) => none
  | .standard .. => none
  | .parameter formal => some formal.words

/-- Where the words of an item's own are, if the entity is one for such an item. -/
def Item.address? : Item → Entity → Option Address
  | .declared (.var ..), .knownAddress _ address => some address
  | .declared (.const ..), .unknownValue _ address => some address
  | .parameter (.const ..), .unknownValue _ address => some address
  | .parameter (.var ..), .unknownAddress _ address => some address
  | .parameter (.proc ..), .unknownRoutine _ address => some address
  | .parameter (.func ..), .unknownRoutine _ address => some address
  | _, _ => none

/-- The words of an item's own, as its binding is represented. -/
def Item.storage? (entities : BindingId → Option Entity) (item : Item) : Option Storage := do
  let words ← item.words?
  let id ← item.binding?
  let entity ← entities id
  let address ← item.address? entity
  return ⟨address.level, address.displacement, words⟩

theorem Item.storage?_eq {entities : BindingId → Option Entity} {item : Item} {words : Int}
    {id : BindingId} {entity : Entity} {address : Address} (hwords : item.words? = some words)
    (hbinding : item.binding? = some id) (hat : entities id = some entity)
    (haddress : item.address? entity = some address) :
    item.storage? entities = some ⟨address.level, address.displacement, words⟩ := by
  unfold storage?
  rw [hwords, hbinding]
  show ((entities id).bind _) = _
  rw [hat]
  show ((item.address? entity).bind _) = _
  rw [haddress]
  rfl

/-- Where storage comes from. -/
theorem Item.of_storage? {entities : BindingId → Option Entity} {item : Item}
    {storage : Storage} (h : item.storage? entities = some storage) :
    ∃ id entity address, item.words? = some storage.words ∧ item.binding? = some id ∧
      entities id = some entity ∧ item.address? entity = some address ∧
      storage.level = address.level ∧ storage.start = address.displacement := by
  simp only [storage?, Option.bind_eq_bind, Option.bind_eq_some_iff] at h
  obtain ⟨words, hwords, id, hbinding, entity, hat, address, haddress, hstorage⟩ := h
  obtain rfl := Option.some.inj hstorage
  exact ⟨id, entity, address, hwords, hbinding, hat, haddress, rfl, rfl⟩

/-- Storage has the words that the item needs. -/
theorem Item.words?_of_storage? {entities : BindingId → Option Entity} {item : Item}
    {storage : Storage} (h : item.storage? entities = some storage) :
    item.words? = some storage.words := by
  obtain ⟨_, _, _, hwords, -⟩ := Item.of_storage? h
  exact hwords

theorem Item.binding?_parameter (formal : Formal) :
    (Item.parameter formal).binding? = formal.name.binding := by
  show (formal.name.binding.map _).map _ = _
  cases formal.name.binding with
  | none => rfl
  | some => rfl

theorem Item.binding?_declared {declaration : Declaration} {name : Name} {kind : BindingKind}
    {id : BindingId} (h : declaration.introduces = some (name, kind))
    (hname : name.binding = some id) : (Item.declared declaration).binding? = some id := by
  show (declaration.introduces.bind _).map _ = _
  rw [h]
  show ((name.binding.bind fun id => some (name.spelling, id, kind)).map fun entry => entry.2.1) = _
  rw [hname]
  rfl

theorem Declaration.introduces_const {span : Span} {duplicated : Bool} {name : Name}
    {value : Expression} {type : TypeDenoter} (h : value.type = some type) :
    (Declaration.const span duplicated name value).introduces = some (name, .const type) := by
  rw [introduces, h]
  rfl

/-! ## Exact items -/

/-- The type of the constant or variable is exact. -/
def BindingKind.Exact : BindingKind → Prop
  | .const denoter | .var denoter => denoter.Exact
  | .proc _ | .func .. | .unary .. | .binary .. | .type _ => True

/-- What the name of the item stands for is exact. -/
def Item.Exact (item : Item) : Prop := ∀ entry, item.entered? = some entry → entry.2.2.Exact

/-- Where the entry of a declared item comes from. -/
theorem Item.introduced_of_entered? {declaration : Declaration} {entry : Env.Entry}
    (h : (Item.declared declaration).entered? = some entry) :
    ∃ name kind, declaration.introduces = some (name, kind) ∧
      name.binding = some entry.2.1 ∧ kind = entry.2.2 := by
  have hmade : (declaration.introduces.bind fun introduced =>
      introduced.1.binding.bind fun id =>
        some (introduced.1.spelling, id, introduced.2)) = some entry := h
  obtain ⟨⟨name, kind⟩, hintroduces, hname⟩ := Option.bind_eq_some_iff.1 hmade
  obtain ⟨id, hid, heq⟩ := Option.bind_eq_some_iff.1 hname
  obtain rfl := Option.some.inj heq
  exact ⟨name, kind, hintroduces, hid, rfl⟩

theorem Item.Exact.declared {declaration : Declaration} {name : Name} {kind : BindingKind}
    (h : declaration.introduces = some (name, kind)) (hkind : kind.Exact) :
    (Item.declared declaration).Exact := by
  intro entry hentry
  obtain ⟨_, kind', hintroduces, -, heq⟩ := Item.introduced_of_entered? hentry
  obtain ⟨-, rfl⟩ := Prod.mk.inj (Option.some.inj (h.symm.trans hintroduces))
  rwa [← heq]

theorem Item.Exact.parameter {formal : Formal} (h : formal.Sized) :
    (Item.parameter formal).Exact := by
  intro entry hentry
  obtain ⟨id, -, rfl⟩ := Option.map_eq_some_iff.1 hentry
  show formal.shape.kind.Exact
  cases formal with
  | const | var => exact h.1
  | proc | func => trivial

theorem TypeDenoter.IsScalar.exact {type : TypeDenoter} (h : type.IsScalar) : type.Exact := by
  cases type with
  | boolean | character | integer => trivial
  | _ => exact h.elim

/-! ## Declarations that store -/

namespace Encode

/-- What a step does is what happens when it runs. -/
theorem Does.ends {α : Type} {made : List TypeDenoter} {s s' : Encoder} {m : Encode α} {new : Set BindingId} {Q : α → Encoder → Prop} {a : α}
    (h : m.Does made new s Q) (hrun : m.exec s = (.ok a, s')) : Q a s' := by
  obtain ⟨b, s'', hrun', -, hQ⟩ := h
  rw [hrun] at hrun'
  obtain ⟨hab, rfl⟩ := Prod.mk.inj hrun'
  obtain rfl := Except.ok.inj hab
  exact hQ

end Encode

/-- What the declaration stores takes `extra` words where the frame ends. -/
inductive Declaration.Stores (π : Plan) : Frame → Declaration → Int → Prop
  | literal {F span duplicated name value type} :
      value.literalValue?.isSome = true →
      value.type = some type →
      type.Exact →
      Declaration.Stores π F (.const span duplicated name value) 0
  | const {F span duplicated name value type id} :
      value.literalValue? = none →
      value.type = some type →
      type.Exact →
      0 ≤ type.size →
      name.binding = some id →
      π.entity id = some (.unknownValue type.size F.address) →
      Declaration.Stores π F (.const span duplicated name value) type.size
  | var {F span duplicated name type id} :
      type.Exact →
      0 ≤ type.size →
      name.binding = some id →
      π.entity id = some (.knownAddress Machine.addressSize F.address) →
      Declaration.Stores π F (.var span duplicated name type) type.size
  | proc {F span duplicated name parameters body} :
      Declaration.Stores π F (.proc span duplicated name parameters body) 0
  | func {F span duplicated name parameters result body} :
      Declaration.Stores π F (.func span duplicated name parameters result body) 0
  | type {F span duplicated name type} :
      Declaration.Stores π F (.type span duplicated name type) 0
  | sequence {F span first second n₁ n₂} :
      Declaration.Stores π F first n₁ →
      Declaration.Stores π (F.more n₁) second n₂ →
      Declaration.Stores π F (.sequence span first second) (n₁ + n₂)

variable {made : List TypeDenoter} {π : Plan} {Γ : Env} {lo mid hi : Nat}

/-- The run for the declaration returns the words that the declaration stores. -/
def Declaration.Fills (made : List TypeDenoter) (π : Plan) (Γ : Env) (lo hi : Nat)
    (declaration : Declaration) : Prop :=
  ∀ frame s, s.Ready made π Γ (Set.Ico lo hi) →
    (Encode.declaration declaration frame).Does made (Set.Ico lo hi) s fun extra s' =>
      s'.Final π → declaration.Stores π frame extra

namespace Declaration.Fills

theorem const {span : Span} {duplicated : Bool} {name : Name} {value : Expression}
    {type : TypeDenoter} {id : BindingId} (hvalue : value.Encodes made π Γ lo mid type)
    (hname : name.binding = some id) (hid : id ∈ Set.Ico mid hi) (hlo : lo ≤ mid)
    (hknown : type.Known made) (htype : value.type = some type)
    (hliteral : value.literalValue? = none) :
    (Declaration.const span duplicated name value).Fills made π Γ lo hi := by
  intro frame s hready
  have hhi : mid ≤ hi := Nat.le_of_lt (Nat.lt_of_le_of_lt hid.1 hid.2)
  unfold Encode.declaration
  rw [hliteral]
  refine (hvalue frame s (hready.front hhi)).bind (Set.Ico_subset_Ico_right hhi) ?_
  intro n s₁ _ hbefore₁ hyields₁
  have hready₁ := hready.back hbefore₁ hlo
  refine (Encode.bind_does hname (hready₁.fresh id hid) (.unknownValue n frame.address)).bind
    (Set.singleton_subset_iff.2 ⟨Nat.le_trans hlo hid.1, hid.2⟩) ?_
  intro _ s₂ _ hbefore₂ ⟨hat, _⟩
  refine .pure fun hfinal => ?_
  obtain ⟨_, ⟨hexact, hn, -⟩, -⟩ := hyields₁ (hbefore₂.final hfinal)
  obtain rfl : n = type.size := hn.trans hexact.size_eq.symm
  exact .const hliteral htype hexact hknown.size_nonneg hname (hfinal.entities hat)

theorem var {span : Span} {duplicated : Bool} {name : Name} {type : TypeDenoter}
    {id : BindingId} (hname : name.binding = some id) (hid : id ∈ Set.Ico lo hi)
    (hknown : type.Known made) :
    (Declaration.var span duplicated name type).Fills made π Γ lo hi := by
  intro frame s hready
  unfold Encode.declaration
  refine (Encode.sizeOf_does hknown hready.laid).step ?_
  rintro _ s₁ - hbefore₁ ⟨rfl, -, hexact⟩
  refine (Encode.emitPlain_does .push 0 type.size).step ?_
  intro _ s₂ _ hbefore₂ _
  have hready₂ := (hready.step hbefore₁).step hbefore₂
  refine (Encode.bind_does hname (hready₂.fresh id hid)
    (.knownAddress Machine.addressSize frame.address)).bind (Set.singleton_subset_iff.2 hid) ?_
  intro _ s₃ _ hbefore₃ ⟨hat, _⟩
  refine .pure fun hfinal => ?_
  have hfinal₁ := hbefore₂.final (hbefore₃.final hfinal)
  exact .var (hexact hfinal₁.quiet) hknown.size_nonneg hname (hfinal.entities hat)

/-- Where the code says it all. -/
theorem of_code {declaration : Declaration} {Γ' : Env}
    (h : declaration.Encodes made π Γ lo hi Γ')
    (hcode : ∀ frame a lines extra, Declaration.Code π frame a declaration lines extra →
      declaration.Stores π frame extra) :
    declaration.Fills made π Γ lo hi := by
  intro frame s hready
  refine (h frame s hready).mono subset_rfl ?_
  intro extra s' _ _ ⟨_, hyields⟩ hfinal
  obtain ⟨lines, hlines, -⟩ := hyields hfinal
  exact hcode _ _ _ _ hlines

theorem sequence {span : Span} {first second : Declaration} {Γ' : Env}
    (hencodes : first.Encodes made π Γ lo mid Γ') (hfirst : first.Fills made π Γ lo mid)
    (hsecond : second.Fills made π Γ' mid hi) (hlo : lo ≤ mid) (hhi : mid ≤ hi) :
    (Declaration.sequence span first second).Fills made π Γ lo hi := by
  intro frame s hready
  unfold Encode.declaration
  refine (hencodes frame s (hready.front hhi)).bind (Set.Ico_subset_Ico_right hhi) ?_
  intro n₁ s₁ hrun₁ hbefore₁ ⟨hfits, _⟩
  have hstores₁ := (hfirst frame s (hready.front hhi)).ends hrun₁
  refine (Encode.grow_does frame n₁).step ?_
  intro frame' s₂ _ hbefore₂ ⟨_, hframe⟩
  have hready₂ := ((hready.back hbefore₁ hlo).entering hfits).step hbefore₂
  refine (hsecond frame' s₂ hready₂).bind (Set.Ico_subset_Ico_left hlo) ?_
  intro n₂ s₃ _ hbefore₃ hstores₂
  refine (Encode.word_does (n₁ + n₂)).last ?_
  intro n s₄ _ hbefore₄ ⟨_, hn⟩ hfinal
  have hfinal₃ := hbefore₄.final hfinal
  have hfinal₂ := hbefore₃.final hfinal₃
  obtain rfl := hn hfinal.quiet
  obtain rfl := hframe hfinal₂.quiet
  exact .sequence (hstores₁ (hbefore₂.final hfinal₂)) (hstores₂ hfinal₃)

end Declaration.Fills

theorem Declaration.Typed.fills {Γ Γ' : Env} {p p' : Supply}
    {declaration declaration' : Declaration}
    (h : Declaration.Typed Γ p declaration declaration' Γ' p')
    (hknown : declaration'.All (TypeDenoter.Known made) (Finds (TypeDenoter.Known made)))
    (hplan : declaration'.routines ⊆ π.routines) :
    declaration'.Fills made π Γ p.bindings p'.bindings := by
  have hencodes := h.encodes hknown hplan
  cases h with
  | @const _ _ _ _ _ _ value _ _ hvalue _ =>
    cases hliteral : value.literalValue? with
    | some literal =>
      refine .of_code hencodes ?_
      intro frame a lines extra hcode
      cases hcode with
      | literal =>
        have hexact := (hvalue.isScalar_of_literalValue? hliteral).exact
        exact .literal (by rw [hliteral]; rfl) hvalue.type_eq hexact
      | const hnone =>
        rw [hliteral] at hnone
        cases hnone
    | none =>
      exact .const (hvalue.encodes hknown hplan) rfl ⟨Nat.le_refl _, Nat.lt_succ_self _⟩
        hvalue.before.bindings (hvalue.known_of_all hknown) hvalue.type_eq hliteral
  | var htype _ => exact .var rfl ⟨htype.before.bindings, Nat.lt_succ_self _⟩ hknown
  | proc | func | type =>
    refine .of_code hencodes ?_
    intro frame a lines extra hcode
    cases hcode
    constructor
  | sequence hfirst hsecond =>
    obtain ⟨hplan₁, hplan₂⟩ := List.append_subset.1 hplan
    exact .sequence (hfirst.encodes hknown.1 hplan₁) (hfirst.fills hknown.1 hplan₁)
      (hsecond.fills hknown.2 hplan₂) hfirst.before.bindings hsecond.before.bindings

end TriangleTam
