import TriangleTam.Proofs.Coding.Flow

/-! # Requests

  To fetch, store, address, call or pass an entity is to make a list of
  **requests** to the emitter: for the display register of a level, and for
  instructions, some with the displacement of a place. What is so of these
  requests one by one is so of the whole operation.
-/

namespace TriangleTam

/-- What an entity asks of the emitter. -/
inductive Request
  /-- The display register of a level. -/
  | register (frame : Frame) (level : Nat)
  | emit (op : OpCode) (n : Int) (r : Register) (d : Int)
  /-- An instruction with the displacement of a place. -/
  | place (op : OpCode) (n : Int) (r : Register) (address : Address) (access : Access)

namespace Request

def plain (op : OpCode) (n d : Int) : Request := emit op n .cb d

def primitive (p : Primitive) : Request := emit .call Register.sb.number .pb p.displacement

end Request

/-! ## Requests of entities -/

/-- Add the waiting index, if there is one. -/
def Access.indexRequests (access : Access) : List Request :=
  if access.indexed then [.primitive .add] else []

namespace Address

variable (address : Address) (frame : Frame) (access : Access)

/-- Push the address of a place inside the data at the address. -/
def pushRequests : List Request :=
  .register frame address.level ::
    .place .loadA 0 (frame.register address.level) address access :: access.indexRequests

/-- Push the address of a place inside the data whose address is stored. -/
def pushStoredRequests : List Request :=
  .register frame address.level ::
    .emit .load Machine.addressSize (frame.register address.level) address.displacement ::
      (access.indexRequests ++
        if access.offset = 0 then [] else [.plain .loadL 0 access.offset, .primitive .add])

/-- Push the closure that is stored at the address. -/
def pushClosureRequests : List Request :=
  [.register frame address.level,
    .emit .load Machine.closureSize (frame.register address.level) address.displacement]

end Address

namespace Entity

variable (entity : Entity) (frame : Frame)

/-- Push `size` words of the entity, if it has any. -/
def fetchRequests (size : Int) (access : Access) : Option (List Request) :=
  match entity with
  | knownValue _ value => some [.plain .loadL 0 value]
  | unknownValue _ address | knownAddress _ address =>
    if access.indexed then some (address.pushRequests frame access ++ [.plain .loadI size 0])
    else some [.register frame address.level,
      .place .load size (frame.register address.level) address access]
  | unknownAddress _ address =>
    some (address.pushStoredRequests frame access ++ [.plain .loadI size 0])
  | _ => none

/-- Pop `size` words into the entity, if it is a variable. -/
def storeRequests (size : Int) (access : Access) : Option (List Request) :=
  match entity with
  | knownAddress _ address =>
    if access.indexed then some (address.pushRequests frame access ++ [.plain .storeI size 0])
    else some [.register frame address.level,
      .place .store size (frame.register address.level) address access]
  | unknownAddress _ address =>
    some (address.pushStoredRequests frame access ++ [.plain .storeI size 0])
  | _ => none

/-- Push the address of a place in the entity, if it is a variable. -/
def addressRequests (access : Access) : Option (List Request) :=
  match entity with
  | knownAddress _ address => some (address.pushRequests frame access)
  | unknownAddress _ address => some (address.pushStoredRequests frame access)
  | _ => none

/-- Call the entity, if it is a routine. -/
def callRequests : Option (List Request) :=
  match entity with
  | knownRoutine _ address =>
    some [.register frame address.level,
      .emit .call (frame.register address.level).number .cb address.displacement]
  | unknownRoutine _ address => some (address.pushClosureRequests frame ++ [.plain .callI 0 0])
  | primitiveRoutine p => some (if p = .id then [] else [.primitive p])
  | equalityRoutine p => some [.plain .loadL 0 (frame.size.tdiv 2), .primitive p]
  | barRoutine => some [.plain .loadL 0 100, .primitive .mult]
  | _ => none

/-- Push the closure of the entity, if it is a routine. -/
def closureRequests : Option (List Request) :=
  match entity with
  | knownRoutine _ address =>
    some [.register frame address.level, .emit .loadA 0 (frame.register address.level) 0,
      .emit .loadA 0 .cb address.displacement]
  | unknownRoutine _ address => some (address.pushClosureRequests frame)
  | primitiveRoutine p | equalityRoutine p =>
    some [.emit .loadA 0 .sb 0, .emit .loadA 0 .pb p.displacement]
  | barRoutine => some [.emit .loadA 0 .sb 0, .emit .loadA 0 .pb Primitive.mult.displacement]
  | _ => none

end Entity

/-! ## Serving requests -/

namespace Emitter

def serve (e : Emitter) : Request → Emitter
  | .register frame level => (e.displayRegister frame level).2
  | .emit op n r d => e.emit op n r d
  | .place op n r address access =>
    (e.displace address access).2.emit op n r (e.displace address access).1

def serveAll (e : Emitter) (requests : List Request) : Emitter := requests.foldl serve e

theorem serveAll_append (e : Emitter) (requests requests' : List Request) :
    e.serveAll (requests ++ requests') = (e.serveAll requests).serveAll requests' :=
  List.foldl_append

variable (e : Emitter) (frame : Frame) (address : Address) (access : Access)

theorem addIndex_eq : e.addIndex access = e.serveAll access.indexRequests := by
  unfold addIndex Access.indexRequests
  split <;> rfl

theorem pushAddress_eq :
    e.pushAddress frame address access = e.serveAll (address.pushRequests frame access) := by
  unfold pushAddress
  dsimp only
  rw [addIndex_eq, (displayRegister_appends ..).1]
  rfl

theorem pushStoredAddress_eq :
    e.pushStoredAddress frame address access =
      e.serveAll (address.pushStoredRequests frame access) := by
  unfold pushStoredAddress Address.pushStoredRequests
  dsimp only
  rw [addIndex_eq, (displayRegister_appends ..).1]
  split
  · rw [List.append_nil]
    rfl
  · rw [← List.cons_append, ← List.cons_append, serveAll_append]
    rfl

theorem pushStoredClosure_eq :
    e.pushStoredClosure frame address = e.serveAll (address.pushClosureRequests frame) := by
  unfold pushStoredClosure
  dsimp only
  rw [(displayRegister_appends ..).1]
  rfl

end Emitter

/-- An operation of an entity makes the requests, or there are none. -/
def Entity.Asks (act : Emitter → Except NotApplicable Emitter)
    (requests : Option (List Request)) : Prop :=
  ∀ e e', act e = .ok e' → ∃ made, requests = some made ∧ e' = e.serveAll made

namespace Entity

variable (entity : Entity) (frame : Frame)

theorem fetch_asks (size : Int) (access : Access) :
    Asks (entity.fetch frame size access) (entity.fetchRequests frame size access) := by
  intro e e' h
  cases entity with
  | knownValue _ value =>
    cases h
    exact ⟨_, rfl, rfl⟩
  | unknownValue _ address | knownAddress _ address =>
    unfold fetch at h
    unfold fetchRequests
    dsimp only at h ⊢
    split
    · next hindexed =>
      rw [if_pos hindexed, Emitter.pushAddress_eq] at h
      cases h
      exact ⟨_, rfl, by rw [Emitter.serveAll_append]; rfl⟩
    · next hindexed =>
      rw [if_neg hindexed, (Emitter.displayRegister_appends ..).1] at h
      cases h
      exact ⟨_, rfl, rfl⟩
  | unknownAddress _ address =>
    cases h
    exact ⟨_, rfl, by rw [Emitter.serveAll_append, ← Emitter.pushStoredAddress_eq]; rfl⟩
  | _ => cases h

theorem store_asks (size : Int) (access : Access) :
    Asks (entity.store frame size access) (entity.storeRequests frame size access) := by
  intro e e' h
  cases entity with
  | knownAddress _ address =>
    unfold store at h
    unfold storeRequests
    dsimp only at h ⊢
    split
    · next hindexed =>
      rw [if_pos hindexed, Emitter.pushAddress_eq] at h
      cases h
      exact ⟨_, rfl, by rw [Emitter.serveAll_append]; rfl⟩
    · next hindexed =>
      rw [if_neg hindexed, (Emitter.displayRegister_appends ..).1] at h
      cases h
      exact ⟨_, rfl, rfl⟩
  | unknownAddress _ address =>
    cases h
    exact ⟨_, rfl, by rw [Emitter.serveAll_append, ← Emitter.pushStoredAddress_eq]; rfl⟩
  | _ => cases h

theorem fetchAddress_asks (access : Access) :
    Asks (entity.fetchAddress frame access) (entity.addressRequests frame access) := by
  intro e e' h
  cases entity with
  | knownAddress _ address =>
    cases h
    exact ⟨_, rfl, Emitter.pushAddress_eq ..⟩
  | unknownAddress _ address =>
    cases h
    exact ⟨_, rfl, Emitter.pushStoredAddress_eq ..⟩
  | _ => cases h

theorem call_asks : Asks (entity.call frame) (entity.callRequests frame) := by
  intro e e' h
  cases entity with
  | knownRoutine _ address =>
    unfold call at h
    dsimp only at h
    rw [(Emitter.displayRegister_appends ..).1] at h
    cases h
    exact ⟨_, rfl, rfl⟩
  | unknownRoutine _ address =>
    cases h
    exact ⟨_, rfl, by rw [Emitter.serveAll_append, ← Emitter.pushStoredClosure_eq]; rfl⟩
  | primitiveRoutine p =>
    cases h
    refine ⟨_, rfl, ?_⟩
    split <;> rfl
  | equalityRoutine p | barRoutine =>
    cases h
    exact ⟨_, rfl, rfl⟩
  | _ => cases h

theorem fetchClosure_asks : Asks (entity.fetchClosure frame) (entity.closureRequests frame) := by
  intro e e' h
  cases entity with
  | knownRoutine _ address =>
    unfold fetchClosure at h
    dsimp only at h
    rw [(Emitter.displayRegister_appends ..).1] at h
    cases h
    exact ⟨_, rfl, rfl⟩
  | unknownRoutine _ address =>
    cases h
    exact ⟨_, rfl, Emitter.pushStoredClosure_eq ..⟩
  | primitiveRoutine p | equalityRoutine p | barRoutine =>
    cases h
    exact ⟨_, rfl, rfl⟩
  | _ => cases h

/-! ## What is asked -/

/-- The level of the address, if the entity has one. -/
def level? : Entity → Option Nat
  | unknownValue _ address | knownAddress _ address | unknownAddress _ address
  | knownRoutine _ address | unknownRoutine _ address => some address.level
  | _ => none

/-- What is so of display registers of the entity's level, and of straight lines that refer to no
    code. -/
structure Admits (P : Request → Prop) : Prop where
  register : ∀ level, entity.level? = some level → P (.register frame level)
  line     : ∀ op n r d, op.Straight → (op ≠ .call ∧ op ≠ .loadA ∨ r ≠ .cb) →
    P (.emit op n r d)
  place    : ∀ op n r address access, op.Straight → r ≠ .cb → P (.place op n r address access)

/-- It is also so of instructions that refer to the entry point of the entity. -/
structure AdmitsEntry (P : Request → Prop) : Prop extends entity.Admits frame P where
  entry : ∀ op n size address, op.Straight → entity = .knownRoutine size address →
    P (.emit op n .cb address.displacement)

end Entity

/-- No display register is the code base. -/
theorem Frame.register_ne (frame : Frame) (level : Nat) : frame.register level ≠ .cb := by
  unfold Frame.register Register.display
  split
  · nofun
  · split <;> nofun

namespace Entity

namespace Admits

variable {entity : Entity} {frame : Frame} {P : Request → Prop} {requests : List Request}

theorem plain (h : entity.Admits frame P) {op : OpCode} (n d : Int) (hop : op.Straight)
    (hcall : op ≠ .call) (hloadA : op ≠ .loadA) : P (.plain op n d) :=
  h.line _ _ _ _ hop (.inl ⟨hcall, hloadA⟩)

theorem primitive (h : entity.Admits frame P) (p : Primitive) : P (.primitive p) :=
  h.line _ _ _ _ (by decide) (.inr nofun)

theorem index (h : entity.Admits frame P) (access : Access) :
    ∀ request ∈ access.indexRequests, P request := by
  unfold Access.indexRequests
  split
  · exact List.forall_mem_singleton.2 (h.primitive .add)
  · exact List.forall_mem_nil _

section

variable {address : Address} (hlevel : entity.level? = some address.level)

include hlevel

theorem push (h : entity.Admits frame P) (access : Access) :
    ∀ request ∈ address.pushRequests frame access, P request :=
  List.forall_mem_cons.2 ⟨h.register _ hlevel, List.forall_mem_cons.2
    ⟨h.place _ _ _ _ _ (by decide) (frame.register_ne _), h.index access⟩⟩

theorem pushStored (h : entity.Admits frame P) (access : Access) :
    ∀ request ∈ address.pushStoredRequests frame access, P request := by
  refine List.forall_mem_cons.2 ⟨h.register _ hlevel, List.forall_mem_cons.2
    ⟨h.line _ _ _ _ (by decide) (.inr (frame.register_ne _)),
      List.forall_mem_append.2 ⟨h.index access, ?_⟩⟩⟩
  split
  · exact List.forall_mem_nil _
  · exact List.forall_mem_cons.2 ⟨h.plain _ _ (by decide) nofun nofun,
      List.forall_mem_singleton.2 (h.primitive .add)⟩

theorem pushClosure (h : entity.Admits frame P) :
    ∀ request ∈ address.pushClosureRequests frame, P request :=
  List.forall_mem_cons.2 ⟨h.register _ hlevel, List.forall_mem_singleton.2
    (h.line _ _ _ _ (by decide) (.inr (frame.register_ne _)))⟩

/-- An instruction at a place. -/
theorem placed (h : entity.Admits frame P) (access : Access) {op : OpCode} (hop : op.Straight)
    (n : Int) : ∀ request ∈ [Request.register frame address.level,
      .place op n (frame.register address.level) address access], P request :=
  List.forall_mem_cons.2 ⟨h.register _ hlevel,
    List.forall_mem_singleton.2 (h.place _ _ _ _ _ hop (frame.register_ne _))⟩

end

theorem fetch (h : entity.Admits frame P) {size : Int} {access : Access}
    (hmade : entity.fetchRequests frame size access = some requests) :
    ∀ request ∈ requests, P request := by
  have hload := h.plain size 0 (by decide : OpCode.loadI.Straight) nofun nofun
  cases entity with
  | knownValue _ value =>
    cases hmade
    exact List.forall_mem_singleton.2 (h.plain _ _ (by decide) nofun nofun)
  | unknownValue _ address | knownAddress _ address =>
    unfold fetchRequests at hmade
    dsimp only at hmade
    split at hmade
    · cases hmade
      exact List.forall_mem_append.2 ⟨h.push rfl access, List.forall_mem_singleton.2 hload⟩
    · cases hmade
      exact h.placed rfl access (by decide) size
  | unknownAddress _ address =>
    cases hmade
    exact List.forall_mem_append.2 ⟨h.pushStored rfl access, List.forall_mem_singleton.2 hload⟩
  | _ => cases hmade

theorem store (h : entity.Admits frame P) {size : Int} {access : Access}
    (hmade : entity.storeRequests frame size access = some requests) :
    ∀ request ∈ requests, P request := by
  have hstore := h.plain size 0 (by decide : OpCode.storeI.Straight) nofun nofun
  cases entity with
  | knownAddress _ address =>
    unfold storeRequests at hmade
    dsimp only at hmade
    split at hmade
    · cases hmade
      exact List.forall_mem_append.2 ⟨h.push rfl access, List.forall_mem_singleton.2 hstore⟩
    · cases hmade
      exact h.placed rfl access (by decide) size
  | unknownAddress _ address =>
    cases hmade
    exact List.forall_mem_append.2 ⟨h.pushStored rfl access, List.forall_mem_singleton.2 hstore⟩
  | _ => cases hmade

theorem fetchAddress (h : entity.Admits frame P) {access : Access}
    (hmade : entity.addressRequests frame access = some requests) :
    ∀ request ∈ requests, P request := by
  cases entity with
  | knownAddress _ address =>
    cases hmade
    exact h.push rfl access
  | unknownAddress _ address =>
    cases hmade
    exact h.pushStored rfl access
  | _ => cases hmade

end Admits

namespace AdmitsEntry

variable {entity : Entity} {frame : Frame} {P : Request → Prop} {requests : List Request}

theorem call (h : entity.AdmitsEntry frame P) (hmade : entity.callRequests frame = some requests) :
    ∀ request ∈ requests, P request := by
  cases entity with
  | knownRoutine _ address =>
    cases hmade
    exact List.forall_mem_cons.2 ⟨h.register _ rfl,
      List.forall_mem_singleton.2 (h.entry _ _ _ _ (by decide) rfl)⟩
  | unknownRoutine _ address =>
    cases hmade
    exact List.forall_mem_append.2 ⟨h.toAdmits.pushClosure rfl,
      List.forall_mem_singleton.2 (h.toAdmits.plain _ _ (by decide) nofun nofun)⟩
  | primitiveRoutine p =>
    cases hmade
    split
    · exact List.forall_mem_nil _
    · exact List.forall_mem_singleton.2 (h.toAdmits.primitive p)
  | equalityRoutine p | barRoutine =>
    cases hmade
    exact List.forall_mem_cons.2 ⟨h.toAdmits.plain _ _ (by decide) nofun nofun,
      List.forall_mem_singleton.2 (h.toAdmits.primitive _)⟩
  | _ => cases hmade

theorem fetchClosure (h : entity.AdmitsEntry frame P)
    (hmade : entity.closureRequests frame = some requests) :
    ∀ request ∈ requests, P request := by
  cases entity with
  | knownRoutine _ address =>
    cases hmade
    exact List.forall_mem_cons.2 ⟨h.register _ rfl, List.forall_mem_cons.2
      ⟨h.line _ _ _ _ (by decide) (.inr (frame.register_ne _)),
        List.forall_mem_singleton.2 (h.entry _ _ _ _ (by decide) rfl)⟩⟩
  | unknownRoutine _ address =>
    cases hmade
    exact h.toAdmits.pushClosure rfl
  | primitiveRoutine p | equalityRoutine p | barRoutine =>
    cases hmade
    exact List.forall_mem_cons.2 ⟨h.line _ _ _ _ (by decide) (.inr nofun),
      List.forall_mem_singleton.2 (h.line _ _ _ _ (by decide) (.inr nofun))⟩
  | _ => cases hmade

end AdmitsEntry

end Entity

end TriangleTam
