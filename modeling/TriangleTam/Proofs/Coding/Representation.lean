import Mathlib.Order.CompletePartialOrder
import Mathlib.Order.Interval.Set.Disjoint
import TriangleTam.Proofs.Coding.Calls
import TriangleTam.Proofs.Typing.Rules

/-! # Representation of bindings

  What the entity of a binding has to be able to do follows from the kind of
  the binding: it is the invariant of encoding that every entry of an
  environment **fits**, that is, has been given an entity that can do what its
  kind allows to be asked. The plan of a program says beforehand which routine
  takes and leaves how many words, and is compared with the entities at the
  end of the run, when all of them are known.

  A phrase **encodes** if this invariant is enough for its encoder to return,
  and to write the code that the scheme gives to the phrase.
-/

namespace TriangleTam

/-! ## Entities of kinds -/

/-- The values of the type are single words. -/
def TypeDenoter.IsScalar : TypeDenoter → Prop
  | .boolean | .character | .integer => True
  | _ => False

theorem TypeDenoter.IsScalar.width_eq {type : TypeDenoter} (h : type.IsScalar) :
    type.width = Machine.scalarSize := by
  cases type <;> first | rfl | exact h.elim

namespace Entity

/-- The entity is a routine that takes and leaves so many words. An equality is none: what it
    takes depends on its call. -/
def Transfers (π : Plan) (id : BindingId) (t : Transfer) (entity : Entity) : Prop :=
  entity.Performs π id t ∧ ∀ p, entity ≠ .equalityRoutine p

/-- The place is one of a value of the type. Only a value of one word is known beforehand. -/
def Holds (type : TypeDenoter) (access : Access) (entity : Entity) : Prop :=
  entity.IsStored ∨ type.IsScalar ∧ access = {} ∧ ∃ size value, entity = .knownValue size value

theorem IsVariable.isStored {entity : Entity} (h : entity.IsVariable) : entity.IsStored := by
  cases entity <;> first | exact h.elim | exact trivial

theorem IsStored.isValue {entity : Entity} (h : entity.IsStored) : entity.IsValue := by
  cases entity <;> first | exact h.elim | exact trivial

theorem IsStored.suits {entity : Entity} (h : entity.IsStored) (access : Access) (n : Int) :
    entity.Suits access n := by
  cases entity <;> first | exact h.elim | exact trivial

theorem Suits.isValue {entity : Entity} {access : Access} {n : Int}
    (h : entity.Suits access n) : entity.IsValue := by
  cases entity <;> first | exact trivial | exact False.elim h

theorem Holds.isValue {type : TypeDenoter} {access : Access} {entity : Entity}
    (h : entity.Holds type access) : entity.IsValue := by
  rcases h with hstored | ⟨-, -, size, value, rfl⟩
  · exact hstored.isValue
  · exact trivial

/-- What has parts is stored. -/
theorem Holds.isStored {type : TypeDenoter} {access : Access} {entity : Entity}
    (h : entity.Holds type access) (hparts : ¬ type.IsScalar) : entity.IsStored := by
  rcases h with hstored | ⟨hscalar, -⟩
  · exact hstored
  · exact absurd hscalar hparts

theorem Holds.suits {type : TypeDenoter} {access : Access} {entity : Entity}
    (h : entity.Holds type access) : entity.Suits access type.width := by
  rcases h with hstored | ⟨hscalar, haccess, size, value, rfl⟩
  · exact hstored.suits access _
  · exact ⟨haccess, hscalar.width_eq⟩

theorem IsValue.fetchCode_ne_nil {entity : Entity} (h : entity.IsValue) (frame : Frame)
    (size : Int) (access : Access) : entity.fetchCode frame size access ≠ [] := by
  cases entity <;> unfold fetchCode <;> dsimp only <;> first
    | exact h.elim
    | exact List.cons_ne_nil _ _
    | exact List.append_ne_nil_of_right_ne_nil _ (List.cons_ne_nil _ _)
    | split <;> simp

theorem IsVariable.storeCode_ne_nil {entity : Entity} (h : entity.IsVariable) (frame : Frame)
    (size : Int) (access : Access) : entity.storeCode frame size access ≠ [] := by
  cases entity <;> unfold storeCode <;> dsimp only <;> first
    | exact h.elim
    | exact List.append_ne_nil_of_right_ne_nil _ (List.cons_ne_nil _ _)
    | split <;> simp

theorem IsVariable.addressCode_ne_nil {entity : Entity} (h : entity.IsVariable) (frame : Frame)
    (access : Access) : entity.addressCode frame access ≠ [] := by
  cases entity <;> first | exact h.elim | exact List.cons_ne_nil _ _

theorem IsRoutine.closureCode_ne_nil {entity : Entity} (h : entity.IsRoutine) (frame : Frame) :
    entity.closureCode frame ≠ [] := by
  cases entity <;> first | exact h.elim | exact List.cons_ne_nil _ _

theorem Performs.isRoutine {π : Plan} {id : BindingId} {t : Transfer} {entity : Entity}
    (h : entity.Performs π id t) : entity.IsRoutine := by
  cases h <;> exact trivial

/-- Only a call that leaves its one argument as it is takes no code. -/
theorem Performs.callLines_pos {π : Plan} {id : BindingId} {t : Transfer} {entity : Entity}
    (h : entity.Performs π id t) (frame : Frame) :
    0 < (entity.callLines frame t).length ∨ t.takes = 1 := by
  cases h with
  | @primitive p _ =>
    unfold callLines
    dsimp only
    by_cases hid : p = .id
    · subst hid
      exact .inr rfl
    · rw [if_neg hid]
      exact .inl Nat.one_pos
  | _ => exact .inl (Nat.succ_pos _)

/-- What a routine that is no equality executes does not depend on the size of its arguments. -/
theorem Transfers.codeOf_callLines {π : Plan} {id : BindingId} {t : Transfer} {entity : Entity}
    (h : entity.Transfers π id t) (frame : Frame) (n : Int) :
    codeOf (entity.callLines frame t) = entity.callCode (frame.replace n) n := by
  rw [Entity.codeOf_callLines]
  cases entity with
  | equalityRoutine p => exact absurd rfl (h.2 p)
  | _ => rfl

end Entity

/-- The entity can do what the kind of the binding allows. -/
def BindingKind.RepresentedBy (π : Plan) (id : BindingId) (entity : Entity) : BindingKind → Prop
  | .const denoter => entity.Holds denoter {}
  | .var _ => entity.IsVariable
  | .proc shapes => entity.Transfers π id ⟨Signature.words shapes, 0⟩
  | .func shapes result => entity.Transfers π id ⟨Signature.words shapes, result.size⟩
  | .unary operand result => entity.Transfers π id ⟨operand.size, result.size⟩
  | .binary left right result =>
    left ≠ .any ∧ entity.Transfers π id ⟨left.size + right.size, result.size⟩ ∨
      left = .any ∧ result = .boolean ∧ ∃ p, p.IsEquality ∧ entity = .equalityRoutine p
  | .type _ => False

/-! ## The invariant -/

namespace Encoder

/-- The entry is about a type, or its binding has an entity that represents it. -/
def Fits (π : Plan) (s : Encoder) (entry : Env.Entry) : Prop :=
  (∃ type, entry.2.2 = .type type) ∨
    ∃ entity, s.entities.lookup entry.2.1 = some entity ∧
      entry.2.2.RepresentedBy π entry.2.1 entity

/-- The encoder can encode in the environment, and the bindings of `new` are not represented
    yet. -/
structure Ready (made : List TypeDenoter) (π : Plan) (Γ : Env) (new : Set BindingId)
    (s : Encoder) : Prop where
  fits  : ∀ entry ∈ Γ.entries, s.Fits π entry
  fresh : ∀ id ∈ new, s.entities.lookup id = none
  laid  : s.Laid made
  room  : s.start ≤ Machine.codeStoreSize

/-- The encoder is quiet, and what it has represented is represented as planned. -/
structure Final (π : Plan) (s : Encoder) : Prop where
  quiet    : s.Quiet
  entities : ∀ {id entity}, s.entities.lookup id = some entity → π.entity id = some entity

theorem Before.final {made : List TypeDenoter} {new : Set BindingId} {π : Plan} {s s' : Encoder}
    (h : s.Before made new s') (hfinal : s'.Final π) : s.Final π :=
  ⟨h.quiet hfinal.quiet, fun hat => hfinal.entities (h.keeps hat)⟩

theorem Fits.later {made : List TypeDenoter} {new : Set BindingId} {π : Plan} {s s' : Encoder}
    {entry : Env.Entry} (h : s.Fits π entry) (hbefore : s.Before made new s') :
    s'.Fits π entry := by
  rcases h with htype | ⟨entity, hat, hrep⟩
  · exact .inl htype
  · exact .inr ⟨entity, hbefore.keeps hat, hrep⟩

namespace Ready

variable {made : List TypeDenoter} {π : Plan} {Γ : Env} {new new' : Set BindingId}
  {s s' : Encoder} {lo mid hi : Nat}

theorem mono (h : s.Ready made π Γ new) (hnew : new' ⊆ new) : s.Ready made π Γ new' :=
  ⟨h.fits, fun id hid => h.fresh id (hnew hid), h.laid, h.room⟩

/-- What is represented in the meantime is represented. -/
theorem after (h : s.Ready made π Γ new) (hbefore : s.Before made new' s')
    (hdisjoint : Disjoint new' new) : s'.Ready made π Γ new := by
  refine ⟨fun entry hmem => (h.fits entry hmem).later hbefore, ?_, hbefore.laid h.laid,
    hbefore.emitter.room h.room⟩
  intro id hid
  rw [hbefore.within id (Set.disjoint_right.1 hdisjoint hid), h.fresh id hid]

theorem step (h : s.Ready made π Γ new) (hbefore : s.Before made ∅ s') :
    s'.Ready made π Γ new :=
  h.after hbefore (Set.empty_disjoint new)

theorem front (h : s.Ready made π Γ (Set.Ico lo hi)) (hmid : mid ≤ hi) :
    s.Ready made π Γ (Set.Ico lo mid) :=
  h.mono (Set.Ico_subset_Ico_right hmid)

theorem back (h : s.Ready made π Γ (Set.Ico lo hi))
    (hbefore : s.Before made (Set.Ico lo mid) s') (hmid : lo ≤ mid) :
    s'.Ready made π Γ (Set.Ico mid hi) :=
  (h.mono (Set.Ico_subset_Ico_left hmid)).after hbefore (Set.Ico_disjoint_Ico_same)

/-- Another environment whose entries fit. -/
theorem entering (h : s.Ready made π Γ new) {Γ' : Env}
    (hfits : ∀ entry ∈ Γ'.entries, s.Fits π entry) : s.Ready made π Γ' new :=
  ⟨hfits, h.fresh, h.laid, h.room⟩

theorem enclose (h : s.Ready made π Γ new) : s.Ready made π Γ.enclose new :=
  h.entering (by simpa only [Env.entries_enclose] using h.fits)

/-- What a name stands for is represented. -/
theorem found (h : s.Ready made π Γ new) {name : String} {id : BindingId} {kind : BindingKind}
    (hfind : Γ.find? name = some (id, kind)) (hno : ∀ type, kind ≠ .type type) :
    ∃ entity, s.entities.lookup id = some entity ∧ kind.RepresentedBy π id entity := by
  rcases h.fits _ (Env.mem_entries_of_find? hfind) with ⟨type, htype⟩ | hentity
  · exact absurd htype (hno type)
  · exact hentity

end Ready

/-- If the second encoder is final, the lines of some code were written between the two. -/
def Yields (π : Plan) (s s' : Encoder) (calls : List Call) (entry exit : Int)
    (Code : List Line → Prop) : Prop :=
  s'.Final π → ∃ lines, Code lines ∧ s.Wrote s' calls entry exit lines

end Encoder

/-! ## Phrases that encode -/

section

variable (made : List TypeDenoter) (π : Plan) (Γ : Env) (lo hi : Nat)

def Command.Encodes (command : Command) : Prop :=
  ∀ frame s, s.Ready made π Γ (Set.Ico lo hi) →
    (Encode.command command frame).Does made (Set.Ico lo hi) s fun _ s' =>
      s.Yields π s' ((Phrase.command command).calls frame s (command.inner frame s))
        frame.size frame.size (Command.Code π frame s.start command)

/-- What is returned is the size of the type. -/
def Expression.Encodes (type : TypeDenoter) (expression : Expression) : Prop :=
  ∀ frame s, s.Ready made π Γ (Set.Ico lo hi) →
    (Encode.expression expression frame).Does made (Set.Ico lo hi) s fun n s' =>
      s.Yields π s' ((Phrase.expression expression).calls frame s (expression.inner frame s))
        frame.size (frame.size + n)
        fun lines => type.Exact ∧ n = type.width ∧
          Expression.Code π frame s.start expression lines n

def ArrayAggregate.Encodes (type : TypeDenoter) (elements : ArrayAggregate) : Prop :=
  ∀ frame s, s.Ready made π Γ (Set.Ico lo hi) →
    (Encode.arrayAggregate elements frame).Does made (Set.Ico lo hi) s fun n s' =>
      s.Yields π s' ((Phrase.arrayAggregate elements).calls frame s (elements.inner frame s))
        frame.size (frame.size + n)
        fun lines => type.Exact ∧ n = elements.count * type.width ∧
          ArrayAggregate.Code π frame s.start elements lines n

def RecordAggregate.Encodes (types : Fields) (fields : RecordAggregate) : Prop :=
  ∀ frame s, s.Ready made π Γ (Set.Ico lo hi) →
    (Encode.recordAggregate fields frame).Does made (Set.Ico lo hi) s fun n s' =>
      s.Yields π s' ((Phrase.recordAggregate fields).calls frame s (fields.inner frame s))
        frame.size (frame.size + n)
        fun lines => n = types.width ∧ RecordAggregate.Code π frame s.start fields lines n

/-- What is returned is the place of a value, and of a variable if the vname denotes one. -/
def Vname.Encodes (type : TypeDenoter) (vname : Vname) : Prop :=
  ∀ frame s, s.Ready made π Γ (Set.Ico lo hi) →
    (Encode.place vname frame).Does made (Set.Ico lo hi) s fun place s' =>
      place.1.Holds type place.2 ∧ (vname.isVariable = true → place.1.IsVariable) ∧
      s.Yields π s' ((Phrase.vname vname).calls frame s (vname.inner frame s))
        frame.size (frame.size + place.2.pending)
        fun lines => Vname.Code π frame s.start vname lines place.1 place.2

/-- The environment `Γ'` is that of everything the declaration is for. -/
def Declaration.Encodes (Γ' : Env) (declaration : Declaration) : Prop :=
  ∀ frame s, s.Ready made π Γ (Set.Ico lo hi) →
    (Encode.declaration declaration frame).Does made (Set.Ico lo hi) s fun extra s' =>
      (∀ entry ∈ Γ'.entries, s'.Fits π entry) ∧
      s.Yields π s' ((Phrase.declaration declaration).calls frame s (declaration.inner frame s))
        frame.size (frame.size + extra)
        fun lines => Declaration.Code π frame s.start declaration lines extra

def Actuals.Encodes (shapes : Signature) (actuals : Actuals) : Prop :=
  ∀ frame s, s.Ready made π Γ (Set.Ico lo hi) →
    (Encode.actuals actuals frame).Does made (Set.Ico lo hi) s fun n s' =>
      s.Yields π s' ((Phrase.actuals actuals).calls frame s (actuals.inner frame s))
        frame.size (frame.size + n)
        fun lines => n = Signature.words shapes ∧ Actuals.Code π frame s.start actuals lines n

def Actual.Encodes (shape : FormalShape) (actual : Actual) : Prop :=
  ∀ frame s, s.Ready made π Γ (Set.Ico lo hi) →
    (Encode.actual actual frame).Does made (Set.Ico lo hi) s fun n s' =>
      s.Yields π s' ((Phrase.actual actual).calls frame s (actual.inner frame s))
        frame.size (frame.size + n)
        fun lines => n = shape.words ∧ Actual.Code π frame s.start actual lines n

end

end TriangleTam
