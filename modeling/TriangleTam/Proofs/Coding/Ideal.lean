import TriangleTam.Proofs.Coding.Assembler
import TriangleTam.Proofs.Coding.Requests
import TriangleTam.Proofs.Coding.Width

/-! # Translation without limits

  The same translation for an **ideal** machine, which has no bounds on its
  words, its code store, its operands and its routines: nothing saturates,
  nothing is cut or dropped, and nothing is reported.

  What a machine has to provide for the translation is on record as
  **demands**: room for instructions, operands that are long enough, words for
  all sizes, offsets, frame depths and displacements, and levels of routines.
-/

namespace TriangleTam

/-! ## Demands -/

/-- What translation asks of a machine. -/
inductive Demand
  /-- Room for one more instruction. -/
  | room
  /-- The length operand of an instruction, or a size to be fetched or stored. -/
  | length (n : Int)
  | word (n : Int)
  /-- A routine that is declared at the level. -/
  | nesting (level : Nat)
  deriving DecidableEq

/-- The machine provides what is asked for one by one. -/
def Demand.Met : Demand → Prop
  | room => True
  | length n => n ≤ Machine.maxOperandSize
  | word n => Word.Fits n
  | nesting level => level < Machine.maxRoutineLevel

instance : DecidablePred Demand.Met
  | .room => inferInstanceAs (Decidable True)
  | .length n => inferInstanceAs (Decidable (n ≤ Machine.maxOperandSize))
  | .word n => inferInstanceAs (Decidable (Word.Fits n))
  | .nesting level => inferInstanceAs (Decidable (level < Machine.maxRoutineLevel))

theorem Demand.room_not_mem_map_word (ns : List Int) : .room ∉ ns.map word := by
  intro hmem
  obtain ⟨n, -, hn⟩ := List.mem_map.1 hmem
  cases hn

/-! ## Sizes in types -/

mutual

/-- The sizes and offsets that the layout of a type consists of. -/
def TypeDenoter.measures : TypeDenoter → List Int
  | .boolean | .character | .integer | .any | .error | .named .. => []
  | .array _ _ length element => element.measures ++ [length.value * element.width]
  | .record _ _ fields => fields.measures 0

/-- Of fields that start at an offset, also the offsets of their ends. -/
def Fields.measures (offset : Int) : Fields → List Int
  | .one _ _ type => type.measures ++ [offset + type.width]
  | .more _ _ type rest =>
    type.measures ++ (offset + type.width) :: rest.measures (offset + type.width)

end

/-- The number of words in front of a field of a record. -/
def TypeDenoter.position? (name : String) : TypeDenoter → Option Int
  | .record _ _ fields => fields.position? name
  | _ => none

mutual

/-- A type is exact if all its measures are words. -/
theorem TypeDenoter.exact_iff : ∀ {type : TypeDenoter},
    type.Exact ↔ ∀ n ∈ type.measures, Word.Fits n
  | .boolean | .character | .integer | .any | .error | .named .. => ⟨nofun, fun _ => trivial⟩
  | .array _ _ length element => by
    unfold TypeDenoter.Exact TypeDenoter.measures
    rw [List.forall_mem_append, ← TypeDenoter.exact_iff, List.forall_mem_singleton]
    refine and_congr_right fun helement => ?_
    rw [helement.size_eq]
  | .record _ _ fields => Fields.exact_iff

theorem Fields.exact_iff : ∀ {fields : Fields} {offset : Int},
    fields.Exact offset ↔ ∀ n ∈ fields.measures offset, Word.Fits n
  | .one _ _ type, offset => by
    unfold Fields.Exact Fields.measures
    rw [List.forall_mem_append, ← TypeDenoter.exact_iff, List.forall_mem_singleton]
    refine and_congr_right fun htype => ?_
    rw [htype.size_eq]
  | .more _ _ type rest, offset => by
    unfold Fields.Exact Fields.measures
    rw [List.forall_mem_append, ← TypeDenoter.exact_iff, List.forall_mem_cons]
    refine and_congr_right fun htype => ?_
    rw [htype.size_eq, Fields.exact_iff]

end

/-- The offset of a field of an exact type is its position. -/
theorem TypeDenoter.Exact.fieldOffset?_eq {name : String} {type : TypeDenoter}
    (h : type.Exact) : type.fieldOffset? name = type.position? name := by
  cases type with
  | record _ _ fields =>
    have hfields : fields.Exact 0 := h
    refine hfields.offset?_eq.trans ?_
    simp [position?]
  | _ => rfl

/-! ## The ideal machine -/

/-- The code so far, and the representations of the bindings met so far. -/
structure Unbounded where
  code     : List Instruction
  entities : List (BindingId × Entity)

/-- A step of translation for the ideal machine. It asks for as much room as its code takes. -/
structure Ideal (α : Type) where
  run  : Unbounded → α × Unbounded × List Demand
  room : ∀ u, (run u).2.1.code.length = u.code.length + (run u).2.2.count .room

/-! ### Requests -/

/-- The instruction that is asked for. -/
def Request.code : Request → List Instruction
  | .register .. => []
  | .emit op n r d => [⟨op, r.number, n, d⟩]
  | .place op n r address access =>
    [⟨op, r.number, n, address.displacement + access.offset⟩]

def Request.demands : Request → List Demand
  | .register .. => []
  | .emit _ n _ _ => [.length n, .room]
  | .place _ n _ address access =>
    [.word (address.displacement + access.offset), .length n, .room]

theorem Request.count_demands (request : Request) :
    request.demands.count .room = request.code.length := by
  cases request <;> rfl

theorem Request.count_flatMap_demands (requests : List Request) :
    (requests.flatMap demands).count .room = (requests.flatMap code).length := by
  induction requests with
  | nil => rfl
  | cons request requests ih =>
    rw [List.flatMap_cons, List.flatMap_cons, List.count_append, List.length_append, ih,
      request.count_demands]

namespace Ideal

/-! ### Steps -/

variable {α β : Type}

/-- A step that writes no code. -/
def ask (a : Unbounded → α) (demands : List Demand) (h : .room ∉ demands) : Ideal α :=
  ⟨fun u => (a u, u, demands), fun _ => by rw [List.count_eq_zero_of_not_mem h]; rfl⟩

def pure (a : α) : Ideal α := ask (fun _ => a) [] nofun

/-- One step after the other. -/
def bind (x : Ideal α) (f : α → Ideal β) : Ideal β where
  run u :=
    let first := x.run u
    let second := (f first.1).run first.2.1
    (second.1, second.2.1, first.2.2 ++ second.2.2)
  room u := by
    dsimp only
    rw [(f _).room, x.room, List.count_append, Nat.add_assoc]

instance : Monad Ideal where
  pure := pure
  bind := bind

def next : Ideal Int := ask (fun u => u.code.length) [] nofun

/-- Write the instructions that are asked for. -/
def serve (requests : List Request) : Ideal Unit where
  run u := ((), { u with code := u.code ++ requests.flatMap Request.code },
    requests.flatMap Request.demands)
  room u := by
    dsimp only
    rw [List.length_append, Request.count_flatMap_demands]

def patch (address : Int) : Ideal Unit where
  run u := ((), if address < 0 then u else
    { u with code := u.code.modify address.toNat fun i => { i with d := u.code.length } }, [])
  room u := by
    dsimp only
    split
    · rfl
    · exact List.length_modify ..

def represent (name : Name) (entity : Entity) : Ideal Unit where
  run u := ((), match name.binding with
    | some id => { u with entities := (id, entity) :: u.entities }
    | none => u, [])
  room u := by
    dsimp only
    split <;> rfl

def entityOf (name : Name) : Ideal Entity :=
  ask (fun u => (name.binding.bind fun id => u.entities.lookup id).getD (.typeRepresentation 0))
    [] nofun

def word (n : Int) : Ideal Int :=
  ask (fun _ => n) [.word n] (by nofun)

/-- A size that one instruction moves. -/
def length (n : Int) : Ideal Int :=
  ask (fun _ => n) [.length n] (by nofun)

def sizeOf (type : TypeDenoter) : Ideal Int :=
  ask (fun _ => type.width) (type.measures.map .word) (Demand.room_not_mem_map_word _)

def sizeOf? (type : Option TypeDenoter) : Ideal Int :=
  match type with
  | some type => sizeOf type
  | none => pure 0

def fieldOffset (record : Vname) (field : Name) : Ideal Int := do
  let _ ← sizeOf? record.type
  pure ((record.type.bind (·.position? field.spelling)).getD 0)

/-- Every routine has a body. -/
def nests (level : Nat) : Ideal Bool :=
  ask (fun _ => true) [.nesting level] (by nofun)

/-- The operations of the ideal machine. -/
def assembler : Assembler Ideal where
  next := next
  emit op n r d := serve [.emit op n r d]
  patch := patch
  bind := represent
  entityOf := entityOf
  word := word
  sizeOf := sizeOf
  sizeOf? type _ := sizeOf? type
  fieldOffset := fieldOffset
  fetch place frame size := do
    let size ← length size
    serve ((place.1.fetchRequests frame size place.2).getD [])
  store place frame size := do
    let size ← length size
    serve ((place.1.storeRequests frame size place.2).getD [])
  fetchAddress place frame := serve ((place.1.addressRequests frame place.2).getD [])
  call entity frame := serve ((entity.callRequests frame).getD [])
  fetchClosure entity frame := serve ((entity.closureRequests frame).getD [])
  nests := nests

end Ideal

/-! ## Programs -/

/-- The code for the ideal machine, and all that was asked of it. -/
structure IdealObject where
  code    : List Instruction
  demands : List Demand

/-- Translate a program for the ideal machine, with a halt at its end. -/
def Ideal.program (program : Program) : Ideal Unit := do
  assembler.command program.command Frame.initial
  assembler.emitPlain .halt 0 0

def Program.ideal (program : Program) : IdealObject :=
  let translated := (Ideal.program program).run ⟨[], Standard.entities⟩
  ⟨translated.2.1.code, translated.2.2⟩

/-- The machine provides all that was asked for. -/
structure IdealObject.WithinLimits (object : IdealObject) : Prop where
  room : object.code.length ≤ Machine.codeStoreSize
  met  : ∀ demand ∈ object.demands, demand.Met

instance (object : IdealObject) : Decidable object.WithinLimits :=
  decidable_of_iff (_ ∧ _) ⟨fun h => ⟨h.1, h.2⟩, fun h => ⟨h.room, h.met⟩⟩

end TriangleTam
