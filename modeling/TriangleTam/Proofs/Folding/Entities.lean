import TriangleTam.Proofs.Coding.Paths
import TriangleTam.Proofs.Folding.Pace
import TriangleTam.Proofs.Typing.Folded

/-! # Entities of a folded program

  Folding makes constants known and frames smaller, and it makes subscripts
  static. So the encoder meets a folded program with entities that **ease**
  those of the program: a constant may be known instead of stored, storage may
  lie deeper in its frame, and a place may have an offset instead of an index
  that waits on the stack.

  What is asked of the easier entity takes no more instructions, but for the
  two that add an offset to an address. And its addresses are words if all
  that was asked of the entity is, as long as the offset stays within the
  value, or if the offset is the same.
-/

namespace TriangleTam

/-! ## Entities -/

/-- The second address lies in the same frame and no deeper than the first, and `width` words from
    there on end at the bound. -/
structure Address.Eases (level : Nat) (bound width : Int) (a a' : Address) : Prop where
  level_eq : a'.level = a.level
  outer    : a.level ≤ level
  lower    : Word.least ≤ a'.displacement
  higher   : a'.displacement = a.displacement ∨
    0 ≤ a'.displacement ∧ a'.displacement ≤ a.displacement
  upper    : a'.displacement + width ≤ bound

/-- The second entity does what the first does, and costs no more. -/
inductive Entity.Eases (level : Nat) (bound width : Int) : Entity → Entity → Prop
  /-- A constant has become known. -/
  | known {size size' value address} :
      Eases level bound width (.unknownValue size address) (.knownValue size' value)
  | value {size size' a a'} :
      a.Eases level bound width a' →
      Eases level bound width (.unknownValue size a) (.unknownValue size' a')
  | address {size size' a a'} :
      a.Eases level bound width a' →
      Eases level bound width (.knownAddress size a) (.knownAddress size' a')
  | stored {size size' a} :
      a.level ≤ level →
      Eases level bound width (.unknownAddress size a) (.unknownAddress size' a)
  | routine {size size' n d d'} :
      n ≤ level →
      Eases level bound width (.knownRoutine size ⟨n, d⟩) (.knownRoutine size' ⟨n, d'⟩)
  | closure {size size' a} :
      a.level ≤ level →
      Eases level bound width (.unknownRoutine size a) (.unknownRoutine size' a)
  | same {entity} : entity.level? = none → Eases level bound width entity entity

namespace Entity.Eases

variable {level level' : Nat} {bound bound' width : Int} {entity entity' : Entity}

theorem mono (h : Eases level bound width entity entity') (hlevel : level ≤ level')
    (hbound : bound ≤ bound') : Eases level' bound' width entity entity' := by
  have haddress {a a' : Address} (h : a.Eases level bound width a') :
      a.Eases level' bound' width a' :=
    ⟨h.level_eq, Nat.le_trans h.outer hlevel, h.lower, h.higher, Int.le_trans h.upper hbound⟩
  cases h with
  | known => exact .known
  | value h => exact .value (haddress h)
  | address h => exact .address (haddress h)
  | stored h => exact .stored (Nat.le_trans h hlevel)
  | routine h => exact .routine (Nat.le_trans h hlevel)
  | closure h => exact .closure (Nat.le_trans h hlevel)
  | same h => exact .same h

/-- The easier entity is at a level in reach. -/
theorem near {frame : Frame} (h : Eases level bound width entity entity')
    (hframe : frame.level = level) (hlevel : level ≤ Machine.maxRoutineLevel) :
    entity'.Near frame := by
  subst hframe
  refine .of_level hlevel fun level hat => ?_
  cases h with
  | known => cases hat
  | value h | address h =>
    obtain rfl := Option.some.inj hat
    exact h.level_eq ▸ h.outer
  | stored h | routine h | closure h =>
    obtain rfl := Option.some.inj hat
    exact h
  | same h => exact absurd (h.symm.trans hat) nofun

end Entity.Eases

/-! ## Places -/

namespace Access

/-- The instructions that an index on the stack still costs. -/
def waiting (access : Access) : Int := if access.indexed then 1 else 0

/-- The instructions that add the offset to an address. -/
def adding (access : Access) : Int := if access.offset = 0 then 0 else 2

theorem waiting_nonneg (access : Access) : 0 ≤ access.waiting := by
  unfold waiting
  split <;> decide

theorem waiting_le_one (access : Access) : access.waiting ≤ 1 := by
  unfold waiting
  split <;> decide

theorem length_indexRequests (access : Access) :
    ((access.indexRequests.flatMap Request.code).length : Int) = access.waiting := by
  unfold indexRequests waiting
  split <;> rfl

end Access

/-- The second access has at most the index of the first. Unless it is the first, a lead of two
    instructions comes with it. -/
structure Access.Eases (access access' : Access) (lead : Int) : Prop where
  indexed : access'.indexed = true → access.indexed = true
  lead    : lead = 0 ∧ access' = access ∨ lead = 2

namespace Access.Eases

variable {access access' : Access} {lead : Int}

theorem waiting_le (h : access.Eases access' lead) : access'.waiting ≤ access.waiting := by
  have hindexed := h.indexed
  unfold Access.waiting
  cases hright : access'.indexed with
  | false => cases access.indexed <;> decide
  | true => rw [hindexed hright]

theorem adding_le (h : access.Eases access' lead) : access'.adding ≤ access.adding + lead := by
  rcases h.lead with ⟨rfl, rfl⟩ | rfl
  · omega
  · unfold Access.adding
    split <;> split <;> omega

theorem waiting_le_add (h : access.Eases access' lead) :
    access.waiting ≤ access'.waiting + lead := by
  rcases h.lead with ⟨rfl, rfl⟩ | rfl
  · omega
  · have hone := access.waiting_le_one
    have hnonneg := access'.waiting_nonneg
    omega

end Access.Eases

/-- An offset within a value of `width` words, or that of the program before. -/
def Access.Stays (width : Int) (access access' : Access) : Prop :=
  access'.offset = access.offset ∨ 0 ≤ access'.offset ∧ access'.offset ≤ width

/-- The displacement of a place is a word if that before folding was. -/
theorem Address.Eases.fits {level : Nat} {bound width : Int} {a a' : Address}
    (h : a.Eases level bound width a') (hbound : bound ≤ Word.greatest) {access access' : Access}
    (hstays : access.Stays width access') (hoffset : Word.Fits access.offset)
    (hfits : Word.Fits (a.displacement + access.offset)) :
    Word.Fits (a'.displacement + access'.offset) := by
  obtain ⟨hoffset, -⟩ := hoffset
  obtain ⟨hlower, hupper⟩ := hfits
  have hlower' := h.lower
  have hupper' := h.upper
  show Word.least ≤ a'.displacement + access'.offset ∧
    a'.displacement + access'.offset ≤ Word.greatest
  rcases hstays with heq | ⟨hnonneg, hwithin⟩
  · rcases h.higher with hsame | ⟨hpos, hle⟩
    · rw [heq, hsame]
      exact ⟨hlower, hupper⟩
    · omega
  · omega

/-! ## Requests -/

section

variable {P : Prop} {address : Address} {frame : Frame} {access : Access} {size : Int}

theorem Demand.borne_room : room.Borne P := .inl trivial

theorem Access.borne_index :
    ∀ demand ∈ access.indexRequests.flatMap Request.demands, demand.Borne P := by
  unfold indexRequests
  split
  · simp [Request.primitive, Request.demands, Demand.Borne, Demand.Met, Register.number,
      Machine.maxOperandSize]
  · simp

theorem Address.borne_push (h : Word.Fits (address.displacement + access.offset) ∨ P) :
    ∀ demand ∈ (address.pushRequests frame access).flatMap Request.demands, demand.Borne P := by
  have hword : (Demand.word (address.displacement + access.offset)).Borne P :=
    h.imp id fun hP => ⟨hP, _, rfl⟩
  show ∀ demand ∈ .word (address.displacement + access.offset) :: .length 0 :: .room ::
    access.indexRequests.flatMap Request.demands, demand.Borne P
  simp only [List.forall_mem_cons]
  exact ⟨hword, .inl (by decide), .inl trivial, Access.borne_index⟩

theorem Address.borne_pushStored :
    ∀ demand ∈ (address.pushStoredRequests frame access).flatMap Request.demands,
      demand.Borne P := by
  have hindex : ∀ demand ∈ access.indexRequests.flatMap Request.demands, demand.Borne P :=
    Access.borne_index
  unfold pushStoredRequests
  split
  · simpa [Request.demands, Demand.Borne, Demand.Met, Machine.maxOperandSize,
      Machine.addressSize] using hindex
  · simpa [Request.plain, Request.primitive, Request.demands, Demand.Borne, Demand.Met,
      Machine.maxOperandSize, Machine.addressSize, Register.number, or_imp, forall_and] using hindex

theorem Address.length_push :
    (((address.pushRequests frame access).flatMap Request.code).length : Int) =
      1 + access.waiting := by
  rw [← Access.length_indexRequests]
  simp [pushRequests, Request.code]
  omega

theorem Address.length_pushStored :
    (((address.pushStoredRequests frame access).flatMap Request.code).length : Int) =
      1 + access.waiting + access.adding := by
  rw [← Access.length_indexRequests]
  unfold pushStoredRequests Access.adding
  split <;> simp [Request.plain, Request.primitive, Request.code] <;> omega

/-- Move `size` words between the stack and a place inside the data at the address. -/
def Address.moveRequests (address : Address) (frame : Frame) (access : Access) (op opI : OpCode)
    (size : Int) : List Request :=
  if access.indexed then address.pushRequests frame access ++ [.plain opI size 0]
  else [.register frame address.level,
    .place op size (frame.register address.level) address access]

theorem Address.borne_move {op opI : OpCode} (hsize : size ≤ Machine.maxOperandSize)
    (h : Word.Fits (address.displacement + access.offset) ∨ P) :
    ∀ demand ∈ (address.moveRequests frame access op opI size).flatMap Request.demands,
      demand.Borne P := by
  have hlength : (Demand.length size).Borne P := .inl hsize
  unfold moveRequests
  split
  · rw [List.flatMap_append]
    refine List.forall_mem_append.2 ⟨borne_push h, ?_⟩
    simpa [Request.plain, Request.demands] using And.intro hlength Demand.borne_room
  · have hword : (Demand.word (address.displacement + access.offset)).Borne P :=
      h.imp id fun hP => ⟨hP, _, rfl⟩
    simpa [Request.demands] using ⟨hword, hlength, Demand.borne_room⟩

theorem Address.length_move {op opI : OpCode} :
    (((address.moveRequests frame access op opI size).flatMap Request.code).length : Int) =
      1 + 2 * access.waiting := by
  unfold moveRequests
  split
  · next hindexed =>
    rw [List.flatMap_append, List.length_append, Int.natCast_add, length_push]
    unfold Access.waiting
    rw [if_pos hindexed]
    rfl
  · next hindexed =>
    unfold Access.waiting
    rw [if_neg hindexed]
    rfl

/-- Where the place is, is asked for. -/
theorem Address.mem_push : Demand.word (address.displacement + access.offset) ∈
    (address.pushRequests frame access).flatMap Request.demands :=
  List.mem_cons_self

theorem Address.mem_move {op opI : OpCode} : Demand.word (address.displacement + access.offset) ∈
    (address.moveRequests frame access op opI size).flatMap Request.demands := by
  unfold moveRequests
  split
  · rw [List.flatMap_append]
    exact List.mem_append_left _ mem_push
  · exact List.mem_cons_self

theorem Address.borne_moveStored {opI : OpCode} (hsize : size ≤ Machine.maxOperandSize) :
    ∀ demand ∈ (address.pushStoredRequests frame access ++ [Request.plain opI size 0]).flatMap
      Request.demands, demand.Borne P := by
  have hlength : (Demand.length size).Borne P := .inl hsize
  rw [List.flatMap_append]
  refine List.forall_mem_append.2 ⟨borne_pushStored, ?_⟩
  simpa [Request.plain, Request.demands] using And.intro hlength Demand.borne_room

theorem Address.length_moveStored {opI : OpCode} :
    (((address.pushStoredRequests frame access ++ [Request.plain opI size 0]).flatMap
      Request.code).length : Int) = 2 + access.waiting + access.adding := by
  rw [List.flatMap_append, List.length_append, Int.natCast_add, length_pushStored]
  show 1 + access.waiting + access.adding + 1 = _
  omega

end

/-! ## Operations -/

namespace Entity

variable (frame : Frame) (size : Int) (access : Access) (address : Address)

theorem fetchRequests_value (words : Int) :
    (unknownValue words address).fetchRequests frame size access =
      some (address.moveRequests frame access .load .loadI size) := by
  unfold fetchRequests Address.moveRequests
  dsimp only
  split <;> rfl

theorem fetchRequests_address (words : Int) :
    (knownAddress words address).fetchRequests frame size access =
      some (address.moveRequests frame access .load .loadI size) :=
  fetchRequests_value frame size access address words

theorem storeRequests_address (words : Int) :
    (knownAddress words address).storeRequests frame size access =
      some (address.moveRequests frame access .store .storeI size) := by
  unfold storeRequests Address.moveRequests
  dsimp only
  split <;> rfl

end Entity

/-- Two places of a value of `width` words, before folding and after. -/
structure Encode.Place.Eases (P : Prop) (level : Nat) (bound width slack : Int)
    (place place' : Encode.Place) : Prop where
  entity : place.1.Eases level bound width place'.1
  access : place.2.Eases place'.2 slack
  fits   : Word.Fits place.2.offset
  stays  : P ∨ place.2.Stays width place'.2

/-- What the encoder has to spend at a place, when it has a lead afterwards. -/
def Encode.Place.lead (place place' : Encode.Place) (slack lead : Int) : Int :=
  lead + place'.2.waiting + slack - place.2.waiting

theorem Access.Eases.lead_nonneg {place place' : Encode.Place} {slack lead : Int}
    (h : place.2.Eases place'.2 slack) (hlead : 0 ≤ lead) :
    0 ≤ place.lead place' slack lead := by
  have hwaiting := h.waiting_le_add
  unfold Encode.Place.lead
  omega

namespace Encode.Place.Eases

variable {P : Prop} {bound width lead slack : Int} {place place' : Encode.Place}

theorem lead_nonneg {level : Nat} (h : place.Eases P level bound width slack place')
    (hlead : 0 ≤ lead) : 0 ≤ place.lead place' slack lead :=
  h.access.lead_nonneg hlead

/-- The displacement is a word, if it was before folding. -/
theorem displaced {level : Nat} (h : place.Eases P level bound width slack place')
    (hbound : bound ≤ Word.greatest) {a a' : Address} (haddress : a.Eases level bound width a')
    (hfits : Word.Fits (a.displacement + place.2.offset)) :
    Word.Fits (a'.displacement + place'.2.offset) ∨ P := by
  rcases h.stays with hP | hstays
  · exact .inr hP
  · exact .inl (haddress.fits hbound hstays h.fits hfits)

end Encode.Place.Eases

/-- The requests of an operation after folding: what they demand can be borne if the demands
    before are met, and there are no more instructions than the places account for. -/
structure Encode.Place.Eased (P : Prop) (place place' : Encode.Place) (slack : Int)
    (requests requests' : List Request) : Prop where
  borne  : (∀ demand ∈ requests.flatMap Request.demands, demand.Met) →
    ∀ demand ∈ requests'.flatMap Request.demands, demand.Borne P
  length : (requests'.flatMap Request.code).length + place.2.waiting ≤
    (requests.flatMap Request.code).length + place'.2.waiting + slack

namespace Encode.Place.Eases

variable {P : Prop} {level : Nat} {frame frame' : Frame} {bound width slack size : Int}
  {place place' : Encode.Place} {a a' : Address}

theorem eased_move (frame frame' : Frame) (h : place.Eases P level bound width slack place')
    (hbound : bound ≤ Word.greatest) (hsize : size ≤ Machine.maxOperandSize)
    (haddress : a.Eases level bound width a') (op opI : OpCode) :
    place.Eased P place' slack (a.moveRequests frame place.2 op opI size)
      (a'.moveRequests frame' place'.2 op opI size) := by
  have hwaiting := h.access.waiting_le
  have hslack := h.access.waiting_le_add
  refine ⟨fun hmet => Address.borne_move hsize (h.displaced hbound haddress ?_), ?_⟩
  · exact hmet _ Address.mem_move
  · rw [Address.length_move, Address.length_move]
    omega

theorem eased_moveStored (frame frame' : Frame) (a : Address)
    (h : place.Eases P level bound width slack place') (hsize : size ≤ Machine.maxOperandSize) (opI : OpCode) :
    place.Eased P place' slack (a.pushStoredRequests frame place.2 ++ [.plain opI size 0])
      (a.pushStoredRequests frame' place'.2 ++ [.plain opI size 0]) := by
  have hadding := h.access.adding_le
  refine ⟨fun _ => Address.borne_moveStored hsize, ?_⟩
  rw [Address.length_moveStored, Address.length_moveStored]
  omega

theorem eased_fetch (frame : Frame) (h : place.Eases P level bound width slack place')
    (hbound : bound ≤ Word.greatest) (hsize : size ≤ Machine.maxOperandSize)
    {made : List Request} (hmade : place'.1.fetchRequests frame' size place'.2 = some made) :
    place.Eased P place' slack ((place.1.fetchRequests frame size place.2).getD []) made := by
  have hslack := h.access.waiting_le_add
  -- the three ways to fetch: by a load, through a stored address, and as a literal
  have hmove {a a' : Address} (haddress : a.Eases level bound width a') :=
    eased_move frame frame' h hbound hsize haddress .load .loadI
  have hstored (a : Address) := eased_moveStored frame frame' a h hsize .loadI
  have hliteral (value : Int) : ∀ demand ∈
      [Request.plain .loadL 0 value].flatMap Request.demands, demand.Borne P := by
    simp [Request.plain, Request.demands, Demand.Borne, Demand.Met, Machine.maxOperandSize]
  have hentity := h.entity
  obtain ⟨entity, access⟩ := place
  obtain ⟨entity', access'⟩ := place'
  dsimp only at hentity hmade ⊢
  -- one case for each way in which folding can change what stands for a name
  cases hentity with
  | @known _ _ value address =>
    obtain rfl := Option.some.inj hmade
    rw [Entity.fetchRequests_value]
    refine ⟨fun _ => hliteral value, ?_⟩
    rw [Option.getD_some, Address.length_move]
    have hnonneg := access.waiting_nonneg
    show 1 + access.waiting ≤ _
    dsimp only at hslack ⊢
    omega
  | value haddress =>
    rw [Entity.fetchRequests_value] at hmade ⊢
    obtain rfl := Option.some.inj hmade
    exact hmove haddress
  | address haddress =>
    rw [Entity.fetchRequests_address] at hmade ⊢
    obtain rfl := Option.some.inj hmade
    exact hmove haddress
  | stored =>
    obtain rfl := Option.some.inj hmade
    exact hstored _
  | routine | closure => cases hmade
  | same hnone =>
    cases entity with
    | knownValue words value =>
      obtain rfl := Option.some.inj hmade
      refine ⟨fun _ => hliteral value, ?_⟩
      show 1 + access.waiting ≤ 1 + access'.waiting + slack
      dsimp only at hslack
      omega
    | _ => first | (cases hmade; done) | cases hnone

theorem eased_store (frame : Frame) (h : place.Eases P level bound width slack place')
    (hbound : bound ≤ Word.greatest) (hsize : size ≤ Machine.maxOperandSize)
    {made : List Request} (hmade : place'.1.storeRequests frame' size place'.2 = some made) :
    place.Eased P place' slack ((place.1.storeRequests frame size place.2).getD []) made := by
  have hmove {a a' : Address} (haddress : a.Eases level bound width a') :=
    eased_move frame frame' h hbound hsize haddress .store .storeI
  have hstored (a : Address) := eased_moveStored frame frame' a h hsize .storeI
  have hentity := h.entity
  obtain ⟨entity, access⟩ := place
  obtain ⟨entity', access'⟩ := place'
  dsimp only at hentity hmade ⊢
  cases hentity with
  | address haddress =>
    rw [Entity.storeRequests_address] at hmade ⊢
    obtain rfl := Option.some.inj hmade
    exact hmove haddress
  | stored =>
    obtain rfl := Option.some.inj hmade
    exact hstored _
  | same hnone => cases entity <;> first | (cases hmade; done) | cases hnone
  | known | value | routine | closure => cases hmade

theorem eased_address (frame : Frame) (h : place.Eases P level bound width slack place')
    (hbound : bound ≤ Word.greatest)
    {made : List Request} (hmade : place'.1.addressRequests frame' place'.2 = some made) :
    place.Eased P place' slack ((place.1.addressRequests frame place.2).getD []) made := by
  have hwaiting := h.access.waiting_le
  have hadding := h.access.adding_le
  have hslack := h.access.waiting_le_add
  have hdisplaced {a a' : Address} (haddress : a.Eases level bound width a') :=
    h.displaced hbound haddress
  have hentity := h.entity
  obtain ⟨entity, access⟩ := place
  obtain ⟨entity', access'⟩ := place'
  dsimp only at hentity hmade ⊢
  cases hentity with
  | @address _ _ a a' haddress =>
    obtain rfl := Option.some.inj hmade
    show Encode.Place.Eased P _ _ slack (a.pushRequests frame access) (a'.pushRequests frame' access')
    refine ⟨fun hmet => Address.borne_push (hdisplaced haddress (hmet _ Address.mem_push)), ?_⟩
    rw [Address.length_push, Address.length_push]
    dsimp only at hslack hwaiting ⊢
    rcases h.access.lead with ⟨rfl, rfl⟩ | rfl <;> omega
  | @stored _ _ a =>
    obtain rfl := Option.some.inj hmade
    show Encode.Place.Eased P _ _ slack (a.pushStoredRequests frame access)
      (a.pushStoredRequests frame' access')
    refine ⟨fun _ => Address.borne_pushStored, ?_⟩
    rw [Address.length_pushStored, Address.length_pushStored]
    dsimp only at hadding ⊢
    omega
  | same hnone => cases entity <;> first | (cases hmade; done) | cases hnone
  | known | value | routine | closure => cases hmade

variable {start : Start} {lead : Int}

section

variable (h : place.Eases P frame.level bound width slack place')
  (hbound : bound ≤ Word.greatest) (hlevel : frame.level ≤ Machine.maxRoutineLevel)
  (hframe : frame'.level = frame.level) (hlead : 0 ≤ lead)

include h hbound hlevel hframe hlead

theorem fetch (size : Int) :
    start.Keeps P (place.lead place' slack lead)
      (Ideal.assembler.fetch place frame size) (Encode.assembler.fetch place' frame' size)
      fun _ _ after => after = lead := by
  refine (Start.Matches.length size .loadLength).before (h.lead_nonneg hlead) ?_
  rintro _ _ ⟨rfl, rfl, hsize⟩
  refine Start.Keeps.requesting (Entity.fetch_asks _ _ _ _)
    (h.entity.near hframe hlevel).admits.fetch (fun {made} hmade hmet => ?_) fun {made} hmade => ?_
  · exact (eased_fetch frame h hbound hsize hmade).borne hmet
  · have hlength := (eased_fetch frame h hbound hsize hmade).length
    unfold Encode.Place.lead
    omega

theorem store (size : Int) :
    start.Keeps P (place.lead place' slack lead)
      (Ideal.assembler.store place frame size) (Encode.assembler.store place' frame' size)
      fun _ _ after => after = lead := by
  refine (Start.Matches.length size .storeLength).before (h.lead_nonneg hlead) ?_
  rintro _ _ ⟨rfl, rfl, hsize⟩
  refine Start.Keeps.requesting (Entity.store_asks _ _ _ _)
    (h.entity.near hframe hlevel).admits.store (fun {made} hmade hmet => ?_) fun {made} hmade => ?_
  · exact (eased_store frame h hbound hsize hmade).borne hmet
  · have hlength := (eased_store frame h hbound hsize hmade).length
    unfold Encode.Place.lead
    omega

theorem fetchAddress :
    start.Keeps P (place.lead place' slack lead)
      (Ideal.assembler.fetchAddress place frame) (Encode.assembler.fetchAddress place' frame')
      fun _ _ after => after = lead := by
  refine Start.Keeps.requesting (Entity.fetchAddress_asks _ _ _)
    (h.entity.near hframe hlevel).admits.fetchAddress (fun {made} hmade hmet => ?_)
    fun {made} hmade => ?_
  · exact (eased_address frame h hbound hmade).borne hmet
  · have hlength := (eased_address frame h hbound hmade).length
    unfold Encode.Place.lead
    omega

end

end Encode.Place.Eases

/-! ## Routines -/

namespace Entity.Eases

variable {P : Prop} {start : Start} {level : Nat} {frame frame' : Frame} {bound width : Int}
  {entity entity' : Entity} {made : List Request}

theorem register_eq (hframe : frame'.level = frame.level) (level : Nat) :
    frame'.register level = frame.register level := by
  unfold Frame.register
  rw [hframe]

/-- A call makes the same demands. -/
theorem demands_call (h : entity.Eases level bound width entity')
    (hframe : frame'.level = frame.level) (hmade : entity'.callRequests frame' = some made) :
    made.flatMap Request.demands =
      ((entity.callRequests frame).getD []).flatMap Request.demands := by
  have hregister := register_eq hframe
  cases h with
  | known | value | address | stored => cases hmade
  | routine | closure =>
    obtain rfl := Option.some.inj hmade
    simp [callRequests, Address.pushClosureRequests, Request.demands, Request.plain, hregister]
  | same hnone =>
    cases entity with
    | primitiveRoutine p =>
      obtain rfl := Option.some.inj hmade
      rfl
    | equalityRoutine p | barRoutine =>
      obtain rfl := Option.some.inj hmade
      rfl
    | _ => first | (cases hmade; done) | cases hnone

/-- To pass a routine makes the same demands. -/
theorem demands_closure (h : entity.Eases level bound width entity')
    (hframe : frame'.level = frame.level) (hmade : entity'.closureRequests frame' = some made) :
    made.flatMap Request.demands =
      ((entity.closureRequests frame).getD []).flatMap Request.demands := by
  have hregister := register_eq hframe
  cases h with
  | known | value | address | stored => cases hmade
  | routine | closure =>
    obtain rfl := Option.some.inj hmade
    simp [closureRequests, Address.pushClosureRequests, Request.demands, hregister]
  | same hnone =>
    cases entity with
    | primitiveRoutine p | equalityRoutine p | barRoutine =>
      obtain rfl := Option.some.inj hmade
      rfl
    | _ => first | (cases hmade; done) | cases hnone

/-- Operations that make the same demands match. -/
theorem matches_of_demands {act : Emitter → Except NotApplicable Emitter}
    {requests requests' : Option (List Request)} (hasks : Entity.Asks act requests')
    (hnear : ∀ {made}, requests' = some made → ∀ request ∈ made, request.Near)
    (hsame : ∀ {made}, requests' = some made →
      made.flatMap Request.demands = (requests.getD []).flatMap Request.demands) :
    start.Matches P (Ideal.serve (requests.getD [])) (Encode.requesting act) fun _ _ => True := by
  constructor
  intro lead hlead
  have hkeeps : start.Keeps P lead (Ideal.serve (requests.getD [])) (Encode.requesting act)
      fun _ _ after => after = lead := by
    refine Start.Keeps.requesting hasks hnear (fun hmade hmet demand hmem => ?_) fun hmade => ?_
    · rw [hsame hmade] at hmem
      exact (hmet demand hmem).borne P
    · rw [← Request.count_flatMap_demands, ← Request.count_flatMap_demands, hsame hmade]
      exact ⟨hlead, Int.le_refl _⟩
  exact hkeeps.mono fun _ _ _ heq => ⟨heq, trivial⟩

section

variable (h : entity.Eases frame.level bound width entity')
  (hframe : frame'.level = frame.level) (hlevel : frame.level ≤ Machine.maxRoutineLevel)

include h hframe hlevel

theorem call : start.Matches P (Ideal.assembler.call entity frame)
    (Encode.assembler.call entity' frame') fun _ _ => True :=
  matches_of_demands (call_asks _ _) (h.near hframe hlevel).admits.call (h.demands_call hframe)

theorem fetchClosure : start.Matches P (Ideal.assembler.fetchClosure entity frame)
    (Encode.assembler.fetchClosure entity' frame') fun _ _ => True :=
  matches_of_demands (fetchClosure_asks _ _) (h.near hframe hlevel).admits.fetchClosure
    (h.demands_closure hframe)

end

end Entity.Eases

/-! ## Stages -/

/-- The words that a constant or a variable takes. -/
def BindingKind.words : BindingKind → Int
  | .const denoter | .var denoter => denoter.width
  | _ => 0

/-- The frame of the folded program is in the same routine and not larger. -/
structure Frame.Under (frame frame' : Frame) : Prop where
  level  : frame'.level = frame.level
  lower  : 0 ≤ frame'.size
  upper  : frame'.size ≤ frame.size

/-- The name stands for something that is there at run time. -/
def BindingKind.Lives (kind : BindingKind) : Prop := ∀ type, kind ≠ .type type

/-- What is in scope is represented on both sides, the easier way for the encoder, and its storage
    ends at the bound. -/
def Env.Entry.Staged (level : Nat) (bound : Int) (entities entities' : List (BindingId × Entity))
    (entry : Env.Entry) : Prop :=
  entry.2.2.Lives → entry.2.2.words ≤ Word.greatest ∧
    ∃ entity entity', entities.lookup entry.2.1 = some entity ∧
      entities'.lookup entry.2.1 = some entity' ∧
      entity.Eases level bound entry.2.2.words entity'

/-- All that is in scope in a frame is represented, and its storage ends inside the frame or at a
    word at least. -/
def Env.Staged (Γ : Env) (frame : Frame) (entities entities' : List (BindingId × Entity)) : Prop :=
  ∀ entry ∈ Γ.entries, entry.Staged frame.level (max Word.greatest frame.size) entities entities'

namespace Env.Staged

variable {Γ : Env} {frame frame' : Frame} {entities entities' entities₁ entities₁' :
  List (BindingId × Entity)} {n : Nat}

theorem enclose (h : Γ.Staged frame entities entities') :
    Γ.enclose.Staged frame entities entities' := by
  simpa only [Staged, entries_enclose] using h

/-- In a larger frame, or deeper inside. -/
theorem mono (h : Γ.Staged frame entities entities') (hlevel : frame.level ≤ frame'.level)
    (hbound : max Word.greatest frame.size ≤ max Word.greatest frame'.size) :
    Γ.Staged frame' entities entities' := by
  intro entry hmem hlives
  obtain ⟨hwords, entity, entity', hat, hat', heases⟩ := h entry hmem hlives
  exact ⟨hwords, entity, entity', hat, hat', heases.mono hlevel hbound⟩

/-- Bindings that are made later do not matter. -/
theorem later (h : Γ.Staged frame entities entities') (hbelow : Γ.Below n)
    (hsame : SameBelow n entities entities₁) (hsame' : SameBelow n entities' entities₁') :
    Γ.Staged frame entities₁ entities₁' := by
  intro entry hmem hlives
  obtain ⟨hwords, entity, entity', hat, hat', heases⟩ := h entry hmem hlives
  have hid := hbelow entry hmem
  exact ⟨hwords, entity, entity', (hsame _ hid).trans hat, (hsame' _ hid).trans hat', heases⟩

/-- A new binding is in scope. -/
theorem enter (h : Γ.Staged frame entities entities') (hbelow : Γ.Below n) {id : BindingId}
    (hid : n ≤ id) {name : String} {kind : BindingKind} (hwords : kind.words ≤ Word.greatest)
    {entity entity' : Entity} (heases : entity.Eases frame.level
      (max Word.greatest frame.size) kind.words entity') :
    (Γ.enter name id kind).Staged frame ((id, entity) :: entities) ((id, entity') :: entities') := by
  intro entry hmem hlives
  rcases List.mem_cons.1 hmem with rfl | hmem
  · exact ⟨hwords, entity, entity', by simp, by simp, heases⟩
  · exact h.later hbelow ((SameBelow.refl n _).cons hid entity)
      ((SameBelow.refl n _).cons hid entity') entry hmem hlives

/-- A name for a type is not represented. -/
theorem enter_type (h : Γ.Staged frame entities entities') (name : String) (id : BindingId)
    (type : TypeDenoter) : (Γ.enter name id (.type type)).Staged frame entities entities' := by
  intro entry hmem hlives
  rcases List.mem_cons.1 hmem with rfl | hmem
  · exact absurd rfl (hlives type)
  · exact h entry hmem hlives

end Env.Staged

end TriangleTam
