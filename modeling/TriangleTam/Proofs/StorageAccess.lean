import TriangleTam.Proofs.Coding.Written
import TriangleTam.Proofs.Meaning.Access
import TriangleTam.Proofs.Meaning.Straight

/-! # Access to storage

  A constant, a variable and a variable parameter are fetched, stored and
  addressed by code of different kinds: at a displacement, through an address
  that is worked out, or through an address that is stored. All of them go to
  the same words. The place of an access is `base + offset + index`, where the
  base is the address of the entity or the one that is stored there, and the
  words of the block at that place are moved and no others.

  So a fetch finds what was stored before, as long as the base is still the
  same. That of a constant or a variable is, and a stored address is unless
  the store went over it.
-/

namespace TriangleTam

open Instruction (Deepen)
open Snapshot (through)

/-! ## Bases -/

/-- Where the data of the address stands, if the frames of the levels start at `bases`. -/
def Address.at (address : Address) (bases : Nat → Int) : Int :=
  bases address.level + address.displacement

/-- The words between the base and the place of the access. -/
def Access.distance (access : Access) (index : Int) : Int :=
  access.offset + if access.indexed then index else 0

theorem Access.distance_of_direct {access : Access} (h : access.indexed = false) (index : Int) :
    access.distance index = access.offset := by
  unfold distance
  rw [h, if_neg Bool.false_ne_true, Int.add_zero]

theorem Access.indexWords_of_direct {access : Access} (h : access.indexed = false) (index : Int) :
    access.indexWords index = [] := by
  unfold indexWords
  rw [h, if_neg Bool.false_ne_true]

/-- In the frame the registers point to the frames of the levels that it reaches. -/
def Snapshot.Displays (c : Snapshot) (frame : Frame) (bases : Nat → Int) : Prop :=
  ∀ level, frame.Reaches level → c.bases (frame.register level) = bases level

namespace Entity

/-- Where the address of the variable is stored that the entity stands for. -/
def slot? (bases : Nat → Int) : Entity → Option Int
  | unknownAddress _ address => some (address.at bases)
  | _ => none

/-- Where the storage starts that the entity stands for: at its own address, or at the address that
    is stored there. -/
def base? (bases : Nat → Int) (memory : Value) : Entity → Option Int
  | unknownValue _ address | knownAddress _ address => some (address.at bases)
  | unknownAddress _ address => do
    (← memory.slice? (address.at bases) Machine.addressSize).word?
  | _ => none

end Entity

/-! ## Code for addresses -/

section

variable {I : Interpretation} {c : Snapshot} {frame : Frame} {bases : Nat → Int}
  {address : Address} {access : Access} {stack : Value} {k : Nat} {index start word : Int}

theorem Access.through_indexCode (hadd : ∀ a b, I.result .add [a, b] = some (a + b)) :
    through I access.indexCode (c.ahead k (stack ++ access.indexWords index ++ [some word])) =
      some (c.ahead (k + access.indexCode.length)
        (stack ++ [some ((if access.indexed then index else 0) + word)])) := by
  unfold indexCode indexWords
  split
  · rw [through, Snapshot.execute_add _ _ _ (hadd index word)]
    rfl
  · rw [List.append_nil, Int.zero_add]
    rfl

/-- The address of a place at a known displacement. -/
theorem Address.through_pushCode (hadd : ∀ a b, I.result .add [a, b] = some (a + b))
    (hbase : c.bases (frame.register address.level) = bases address.level) :
    through I (address.pushCode frame access) (c.ahead k (stack ++ access.indexWords index)) =
      some (c.ahead (k + (address.pushCode frame access).length)
        (stack ++ [some (address.at bases + access.distance index)])) := by
  have hsum : (if access.indexed then index else 0) +
      (bases address.level + (address.displacement + access.offset)) =
        address.at bases + access.distance index := by
    unfold Address.at Access.distance
    omega
  unfold pushCode
  rw [through, Snapshot.execute_loadA, Option.bind_some, Access.through_indexCode hadd, hbase, hsum,
    List.length_cons, Nat.add_right_comm, Nat.add_assoc]

/-- The address of a place behind an address that is stored. -/
theorem Address.through_pushStoredCode (hadd : ∀ a b, I.result .add [a, b] = some (a + b))
    (hbase : c.bases (frame.register address.level) = bases address.level)
    (hstored : stack.slice? (address.at bases) Machine.addressSize = some [some start]) :
    through I (address.pushStoredCode frame access) (c.ahead k (stack ++ access.indexWords index)) =
      some (c.ahead (k + (address.pushStoredCode frame access).length)
        (stack ++ [some (start + access.distance index)])) := by
  have hslice := Value.slice?_append hstored (access.indexWords index)
  unfold Address.at at hslice
  unfold pushStoredCode
  rw [through, Snapshot.execute_load, hbase, hslice, Option.map_some, Option.bind_some,
    Snapshot.through_append, Access.through_indexCode hadd, Option.bind_some, List.length_cons,
    List.length_append]
  unfold Access.distance
  -- the index is added first here, and the offset to the sum
  generalize (if access.indexed then index else 0) = waiting
  split
  · next hzero =>
    rw [hzero, Int.zero_add, Int.add_comm waiting, through]
    exact congrArg (fun k => some (c.ahead k _)) (by rw [List.length_nil]; omega)
  · rw [through, Snapshot.execute_loadL, Option.bind_some, through,
      Snapshot.execute_add _ _ _ (hadd _ _), Option.bind_some, through]
    have hsum : waiting + start + access.offset = start + (access.offset + waiting) := by omega
    rw [hsum]
    refine congrArg (fun k => some (c.ahead k _)) ?_
    simp only [List.length_cons, List.length_nil]
    omega

end

/-! ## Code for accesses -/

namespace Entity

variable {I : Interpretation} {c : Snapshot} {frame : Frame} {bases : Nat → Int} {entity : Entity}
  {access : Access} {memory value : Value} {index base size : Int}

/-- The address of the place is pushed in place of the index. -/
theorem through_addressCode (hadd : ∀ a b, I.result .add [a, b] = some (a + b))
    (hdisplays : c.Displays frame bases) (h : entity.ReachedFrom frame access)
    (hvariable : entity.IsVariable) (hbase : entity.base? bases memory = some base)
    (above : Value) (index : Int) :
    through I (entity.addressCode frame access)
        (c.ahead 0 (memory ++ above ++ access.indexWords index)) =
      some (c.ahead (entity.addressCode frame access).length
        (memory ++ above ++ [some (base + access.distance index)])) := by
  cases entity with
  | knownAddress _ address =>
    obtain rfl := Option.some.inj hbase
    rw [← Nat.zero_add (addressCode _ _ _).length]
    exact Address.through_pushCode hadd (hdisplays _ h.1)
  | unknownAddress _ address =>
    obtain ⟨cells, hslice, hword⟩ := Option.bind_eq_some_iff.1 hbase
    rw [Value.eq_of_word? hword] at hslice
    rw [← Nat.zero_add (addressCode _ _ _).length]
    exact Address.through_pushStoredCode hadd (hdisplays _ h) (Value.slice?_append hslice above)
  | _ => exact hvariable.elim

/-- Words behind an address are loaded like words at a displacement. -/
theorem through_loadI {code : List Instruction} {k : Nat} {place : Int} (below : Value)
    (hcode : through I code c = some (c.ahead k (below ++ [some place]))) :
    through I (code ++ [.plain .loadI size 0]) c =
      (below.slice? place size).map fun words => c.ahead (k + 1) (below ++ words) := by
  rw [Snapshot.through_append, hcode, Option.bind_some, through, Snapshot.execute_loadI]
  cases below.slice? place size <;> rfl

theorem through_storeI {code : List Instruction} {k : Nat} {place : Int} (below : Value)
    (hlength : (value.length : Int) = size)
    (hcode : through I code c = some (c.ahead k (below ++ value ++ [some place]))) :
    through I (code ++ [.plain .storeI size 0]) c =
      (below.splice? place value).map (c.ahead (k + 1)) := by
  rw [Snapshot.through_append, hcode, Option.bind_some, through, Snapshot.execute_storeI,
    Value.pop?_append below value hlength, Option.bind_some]
  cases below.splice? place value <;> rfl

/-- Words at an address that is known are fetched at their displacement, or through the address once
    an index is added to it. -/
theorem through_fetchKnown (hadd : ∀ a b, I.result .add [a, b] = some (a + b)) {address : Address}
    (hbase : c.bases (frame.register address.level) = bases address.level) :
    through I (if access.indexed then address.pushCode frame access ++ [.plain .loadI size 0]
        else [⟨.load, (frame.register address.level).number, size,
          address.displacement + access.offset⟩])
        (c.ahead 0 (memory ++ access.indexWords index)) =
      (memory.slice? (address.at bases + access.distance index) size).map fun words =>
        c.ahead (if access.indexed then address.pushCode frame access ++ [.plain .loadI size 0]
          else [⟨.load, (frame.register address.level).number, size,
            address.displacement + access.offset⟩]).length (memory ++ words) := by
  cases hindexed : access.indexed with
  | true =>
    rw [if_pos rfl, List.length_append, ← Nat.zero_add (address.pushCode frame access).length]
    exact through_loadI memory (Address.through_pushCode hadd hbase)
  | false =>
    rw [if_neg Bool.false_ne_true, Access.indexWords_of_direct hindexed, List.append_nil,
      Access.distance_of_direct hindexed, through, Snapshot.execute_load, hbase, ← Int.add_assoc]
    change (Option.map _ (memory.slice? (address.at bases + access.offset) size)).bind _ = _
    cases memory.slice? (address.at bases + access.offset) size <;> rfl

/-- The words of the block are pushed in place of the index. -/
theorem through_fetchCode (hadd : ∀ a b, I.result .add [a, b] = some (a + b))
    (hdisplays : c.Displays frame bases) (h : entity.ReachedFrom frame access)
    (hbase : entity.base? bases memory = some base) :
    through I (entity.fetchCode frame size access)
        (c.ahead 0 (memory ++ access.indexWords index)) =
      (memory.slice? (base + access.distance index) size).map fun words =>
        c.ahead (entity.fetchCode frame size access).length (memory ++ words) := by
  cases entity with
  | unknownValue _ address | knownAddress _ address =>
    obtain rfl := Option.some.inj hbase
    exact through_fetchKnown hadd (hdisplays _ h.1)
  | unknownAddress size' address =>
    have haddress := through_addressCode hadd hdisplays h trivial hbase [] index
    rw [List.append_nil] at haddress
    exact (through_loadI memory haddress).trans (by rw [fetchCode, List.length_append]; rfl)
  | _ => exact h.elim

/-- The value is taken off the stack with the index, and the words of the block are replaced by
    it. -/
theorem through_storeCode (hadd : ∀ a b, I.result .add [a, b] = some (a + b))
    (hdisplays : c.Displays frame bases) (h : entity.ReachedFrom frame access)
    (hvariable : entity.IsVariable) (hbase : entity.base? bases memory = some base)
    (hlength : (value.length : Int) = size) :
    through I (entity.storeCode frame size access)
        (c.ahead 0 (memory ++ value ++ access.indexWords index)) =
      (memory.splice? (base + access.distance index) value).map
        (c.ahead (entity.storeCode frame size access).length) := by
  -- what comes before the store computes the address, if it is not in the instruction
  have haddress := through_addressCode hadd hdisplays h hvariable hbase value index
  cases entity with
  | knownAddress size' address =>
    obtain rfl := Option.some.inj hbase
    unfold storeCode
    dsimp only
    cases hindexed : access.indexed with
    | true =>
      rw [if_pos rfl, List.length_append]
      exact through_storeI memory hlength haddress
    | false =>
      rw [if_neg Bool.false_ne_true, Access.indexWords_of_direct hindexed, List.append_nil,
        Access.distance_of_direct hindexed, through, Snapshot.execute_store,
        Value.pop?_append memory value hlength, Option.bind_some, hdisplays _ h.1,
        ← Int.add_assoc]
      change (Option.map _ (memory.splice? (address.at bases + access.offset) value)).bind _ = _
      cases memory.splice? (address.at bases + access.offset) value <;> rfl
  | unknownAddress size' address =>
    exact (through_storeI memory hlength haddress).trans
      (by rw [storeCode, List.length_append]; rfl)
  | _ => exact hvariable.elim

/-- The words of a block are pushed either way. -/
theorem through_address_loadI (hvariable : entity.IsVariable) (c : Snapshot) :
    (through I (entity.addressCode frame access ++ [.plain .loadI size 0]) c).map Snapshot.stack =
      (through I (entity.fetchCode frame size access) c).map Snapshot.stack := by
  cases entity with
  | knownAddress _ address =>
    unfold addressCode fetchCode Address.pushCode Access.indexCode
    dsimp only
    split
    · rfl
    · exact Snapshot.through_loadA_loadI ..
  | unknownAddress => rfl
  | _ => exact hvariable.elim

/-- The words of a block are replaced either way. -/
theorem through_address_storeI (hvariable : entity.IsVariable) (c : Snapshot) :
    (through I (entity.addressCode frame access ++ [.plain .storeI size 0]) c).map Snapshot.stack =
      (through I (entity.storeCode frame size access) c).map Snapshot.stack := by
  cases entity with
  | knownAddress _ address =>
    unfold addressCode storeCode Address.pushCode Access.indexCode
    dsimp only
    split
    · rfl
    · exact Snapshot.through_loadA_storeI ..
  | unknownAddress => rfl
  | _ => exact hvariable.elim

/-- The base is still the same unless the store went over the address that is stored. -/
theorem base?_of_splice? {memory' : Value} {place : Int}
    (hstore : memory.splice? place value = some memory')
    (hslot : ∀ slot, entity.slot? bases = some slot →
      slot < place ∨ place + value.length ≤ slot) :
    entity.base? bases memory' = entity.base? bases memory := by
  cases entity with
  | unknownAddress _ address =>
    -- the stored address lies outside the block, so the store left it as it was
    have hapart := hslot _ rfl
    have hslice : memory'.slice? (address.at bases) Machine.addressSize =
        memory.slice? (address.at bases) Machine.addressSize := by
      refine Value.slice?_congr (Value.length_of_splice? hstore) fun k hlower hupper => ?_
      have hupper : (k : Int) < address.at bases + 1 := hupper
      rw [Value.getElem?_of_splice? hstore, if_neg (by omega)]
    simp only [base?, hslice]
  | _ => rfl

end Entity

/-! ## Accesses -/

/-- Running through the code has the outcome, and so has running the machine wherever the code is
    installed. -/
structure Snapshot.Leads (I : Interpretation) (is : List Instruction) (c : Snapshot)
    (outcome : Option Snapshot) : Prop where
  through : Snapshot.through I is c = outcome
  runs    : ∀ (code : List Instruction) (c' : Snapshot), Installed code c.next is →
    outcome = some c' → c.Runs I code c'

theorem Snapshot.Leads.of_through {I : Interpretation} {is : List Instruction} {c : Snapshot}
    {outcome : Option Snapshot} {n : Int} (hstraight : Deepen is n)
    (h : Snapshot.through I is c = outcome) : c.Leads I is outcome :=
  ⟨h, fun _ _ hcode houtcome => Snapshot.through_runs hstraight hcode (h.trans houtcome)⟩

namespace Entity

/-- The code of accesses is written where there is room for it, and nothing else happens to the
    emitter. -/
structure Written (frame : Frame) (access : Access) (size : Int) (entity : Entity) : Prop where
  fetch   : ∀ e : Emitter,
    e.code.size + (entity.fetchCode frame size access).length ≤ Machine.codeStoreSize →
    entity.fetch frame size access e = .ok (e.write (entity.fetchCode frame size access))
  store   : entity.IsVariable → ∀ e : Emitter,
    e.code.size + (entity.storeCode frame size access).length ≤ Machine.codeStoreSize →
    entity.store frame size access e = .ok (e.write (entity.storeCode frame size access))
  address : entity.IsVariable → ∀ e : Emitter,
    e.code.size + (entity.addressCode frame access).length ≤ Machine.codeStoreSize →
    entity.fetchAddress frame access e = .ok (e.write (entity.addressCode frame access))

/-- What code does that accesses `size` words at a place of the entity, when the storage starts at
    the base and the index that is still to be added, if there is one, waits above the memory. -/
structure Accesses (I : Interpretation) (c : Snapshot) (bases : Nat → Int) (frame : Frame)
    (access : Access) (size index base : Int) (memory : Value) (entity : Entity) : Prop where
  /-- The words of the block are pushed in place of the index. -/
  fetch   : (c.ahead 0 (memory ++ access.indexWords index)).Leads I
    (entity.fetchCode frame size access)
    ((memory.slice? (base + access.distance index) size).map fun words =>
      c.ahead (entity.fetchCode frame size access).length (memory ++ words))
  /-- The value and the index are taken, and the value replaces the words of the block. -/
  store   : entity.IsVariable → ∀ value : Value, (value.length : Int) = size →
    (c.ahead 0 (memory ++ value ++ access.indexWords index)).Leads I
      (entity.storeCode frame size access)
      ((memory.splice? (base + access.distance index) value).map
        (c.ahead (entity.storeCode frame size access).length))
  /-- The address of the block is pushed in place of the index, also above a value. -/
  address : entity.IsVariable → ∀ above : Value,
    (c.ahead 0 (memory ++ above ++ access.indexWords index)).Leads I
      (entity.addressCode frame access)
      (some (c.ahead (entity.addressCode frame access).length
        (memory ++ above ++ [some (base + access.distance index)])))
  /-- No other words than those of the block are changed. -/
  block   : ∀ value memory' : Value, (value.length : Int) = size →
    memory.splice? (base + access.distance index) value = some memory' →
    ∀ k : Nat, memory'[k]? =
      if base + access.distance index ≤ k ∧ (k : Int) < base + access.distance index + size then
        value[k - (base + access.distance index).toNat]?
      else memory[k]?
  /-- A base that is not stored in the block stays the same, -/
  kept    : ∀ value memory' : Value, (value.length : Int) = size →
    memory.splice? (base + access.distance index) value = some memory' →
    (∀ slot, entity.slot? bases = some slot →
      slot < base + access.distance index ∨ base + access.distance index + size ≤ slot) →
    entity.base? bases memory' = some base
  /-- and as long as it does, a fetch finds what was stored. -/
  again   : ∀ value memory' : Value, (value.length : Int) = size →
    memory.splice? (base + access.distance index) value = some memory' →
    entity.base? bases memory' = some base →
    (c.ahead 0 (memory' ++ access.indexWords index)).Leads I (entity.fetchCode frame size access)
      (some (c.ahead (entity.fetchCode frame size access).length (memory' ++ value)))

variable {I : Interpretation} {c : Snapshot} {frame : Frame} {bases : Nat → Int} {entity : Entity}
  {access : Access} {memory : Value} {base size : Int}

theorem ReachedFrom.isStored (h : entity.ReachedFrom frame access) : entity.IsStored := by
  cases entity with
  | unknownValue | knownAddress | unknownAddress => trivial
  | _ => exact h.elim

theorem ReachedFrom.written (h : entity.ReachedFrom frame access)
    (hsize : size ≤ Machine.maxOperandSize) : entity.Written frame access size where
  fetch e hroom := by
    obtain ⟨e', hok, hwrites⟩ := fetch_writes h hsize e
    rw [hok, hwrites hroom]
  store hvariable e hroom := by
    obtain ⟨e', hok, hwrites⟩ := store_writes h hvariable hsize e
    rw [hok, hwrites hroom]
  address hvariable e hroom := by
    obtain ⟨e', hok, hwrites⟩ := fetchAddress_writes h hvariable e
    rw [hok, hwrites hroom]

theorem ReachedFrom.accesses (h : entity.ReachedFrom frame access)
    (hadd : ∀ a b, I.result .add [a, b] = some (a + b)) (hdisplays : c.Displays frame bases)
    (hbase : entity.base? bases memory = some base) (index : Int) :
    entity.Accesses I c bases frame access size index base memory := by
  have hsuits : entity.Suits access size := by
    have hstored := h.isStored
    cases entity <;> first | exact hstored | exact hstored.elim
  -- for any memory, since the last part fetches from the memory after the store
  have hfetch {memory : Value} (hbase : entity.base? bases memory = some base) :
      (c.ahead 0 (memory ++ access.indexWords index)).Leads I (entity.fetchCode frame size access)
        ((memory.slice? (base + access.distance index) size).map fun words =>
          c.ahead (entity.fetchCode frame size access).length (memory ++ words)) :=
    .of_through (hsuits.deepen_fetchCode frame) (through_fetchCode hadd hdisplays h hbase)
  refine ⟨hfetch hbase, fun hvariable value hlength => ?_, fun hvariable above => ?_,
    fun value memory' hlength hstore k => ?_, fun value memory' hlength hstore hslot => ?_,
    fun value memory' hlength hstore hkept => ?_⟩
  · exact .of_through (hvariable.deepen_storeCode frame size access)
      (through_storeCode hadd hdisplays h hvariable hbase hlength)
  · exact .of_through (hvariable.deepen_addressCode frame access)
      (through_addressCode hadd hdisplays h hvariable hbase above index)
  · rw [Value.getElem?_of_splice? hstore, hlength]
  · rw [base?_of_splice? hstore (by rwa [hlength]), hbase]
  · have hagain := hfetch hkept
    rw [← hlength, Value.slice?_of_splice? hstore, hlength] at hagain
    exact hagain

/-- Direct access and access by address coincide. Whatever is stored at an address or behind one
    that is stored, from whatever frame the encoder reaches it, at whatever offset and with an index
    or without: the code that is written fetches the words that start at base, offset and index
    together, as does the code for their address with a load behind it; it stores into them, as does
    the code for their address with a store behind it; and either way the index is gone. No other
    words change, and a fetch behind a store finds the words that were stored, unless these went
    over the very address that the access goes by. -/
theorem accesses_coincide (h : entity.ReachedFrom frame access)
    (hsize : size ≤ Machine.maxOperandSize) :
    entity.Written frame access size ∧
    ∀ I : Interpretation, (∀ a b, I.result .add [a, b] = some (a + b)) →
      (entity.IsVariable → ∀ c : Snapshot,
        (through I (entity.addressCode frame access ++ [.plain .loadI size 0]) c).map
            Snapshot.stack =
          (through I (entity.fetchCode frame size access) c).map Snapshot.stack ∧
        (through I (entity.addressCode frame access ++ [.plain .storeI size 0]) c).map
            Snapshot.stack =
          (through I (entity.storeCode frame size access) c).map Snapshot.stack) ∧
      ∀ (c : Snapshot) (bases : Nat → Int), c.Displays frame bases →
        ∀ (memory : Value) (base : Int), entity.base? bases memory = some base →
          ∀ index : Int, entity.Accesses I c bases frame access size index base memory :=
  ⟨h.written hsize, fun _ hadd =>
    ⟨fun hvariable c => ⟨through_address_loadI hvariable c, through_address_storeI hvariable c⟩,
      fun _ _ hdisplays _ _ hbase index => h.accesses hadd hdisplays hbase index⟩⟩

end Entity

/-! ## A variable parameter -/

/-- A machine that can add. -/
private def adder : Interpretation where
  result p arguments := match p, arguments with
    | .add, [a, b] => some (a + b)
    | _, _ => none
  answer _ _ _ := none

/-- The machine in a frame that starts at 10 and whose static link leads to a frame at 6. -/
private def nested : Snapshot :=
  ⟨0, fun r => match r with
    | .lb => 10
    | .l1 => 6
    | _ => 0, [], []⟩

/-- Eleven words, of which that below the frame at 6 is the address 1. -/
private def parameterMemory (word : Int) : Value :=
  [none, some 10, some 11, some 12, some word, some 1, some 0, some 0, some 3, none, some 6]

/-- From a routine one level deeper, a field of an element of an array that is a variable parameter
    is stored, at an index that waits, and fetched again. -/
theorem Entity.accesses_coincide_sample :
    let entity : Entity := .unknownAddress 1 ⟨1, -1⟩
    let access : Access := { offset := 1, indexed := true }
    through adder (entity.storeCode ⟨2, 3⟩ 1 access)
        (nested.ahead 0 (parameterMemory 0 ++ [some 7] ++ [some 2])) =
      some (nested.ahead 5 (parameterMemory 7)) ∧
    through adder (entity.fetchCode ⟨2, 3⟩ 1 access)
        (nested.ahead 0 (parameterMemory 7 ++ [some 2])) =
      some (nested.ahead 5 (parameterMemory 7 ++ [some 7])) := by
  have hreached : (Entity.unknownAddress 1 ⟨1, -1⟩).ReachedFrom ⟨2, 3⟩
      { offset := 1, indexed := true } := by
    change Frame.Reaches ⟨2, 3⟩ 1
    decide
  have hdisplays : nested.Displays ⟨2, 3⟩ fun level => [0, 6, 10][level]?.getD 0 := by
    intro level hreach
    match level with
    | 0 | 1 | 2 => rfl
    | level + 3 =>
      have hle := (hreach.resolve_left (Nat.succ_ne_zero _)).1
      exact absurd hle (by simp)
  have hsize : (1 : Int) ≤ Machine.maxOperandSize := by decide
  obtain ⟨-, hall⟩ := Entity.accesses_coincide hreached hsize
  obtain ⟨-, haccesses⟩ := hall adder fun _ _ => rfl
  have haccess := haccesses nested _ hdisplays (parameterMemory 0) 1 (by decide) 2
  exact ⟨(haccess.store trivial [some 7] rfl).through,
    (haccess.again [some 7] (parameterMemory 7) rfl (by decide) (by decide)).through⟩

end TriangleTam
