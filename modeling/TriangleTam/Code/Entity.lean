import TriangleTam.Code.Emitter
import TriangleTam.Code.Frame

/-! # Run-time entities

  How a declared name is represented on the machine, and the code that
  fetches, stores, addresses or calls it. An entity that cannot do what is
  asked of it refuses before any code is written.
-/

namespace TriangleTam

/-- How a binding is represented at run time. -/
inductive Entity
  /-- The layout of a type: how many words a value has. -/
  | typeRepresentation (size : Int)
  /-- A constant with a value known to the compiler. -/
  | knownValue (size value : Int)
  /-- A constant computed at run time and stored at an address. -/
  | unknownValue (size : Int) (address : Address)
  /-- A variable at an address. -/
  | knownAddress (size : Int) (address : Address)
  /-- A variable parameter: the variable's address is stored at an address. -/
  | unknownAddress (size : Int) (address : Address)
  /-- A declared routine with its entry point. -/
  | knownRoutine (size : Int) (address : Address)
  /-- A routine parameter: its closure is stored at an address. -/
  | unknownRoutine (size : Int) (address : Address)
  | primitiveRoutine (primitive : Primitive)
  /-- An equality, which takes the size of its operands as a third argument. -/
  | equalityRoutine (primitive : Primitive)
  /-- The operator `|`, which multiplies by one hundred. -/
  | barRoutine
  | field (size offset : Int)
  deriving DecidableEq, Repr

/-- The static part of the place of a value inside its entity. -/
structure Access where
  /-- Words from the start of the entity. -/
  offset  : Int := 0
  /-- An index still to be added waits on the stack. -/
  indexed : Bool := false
  deriving DecidableEq, Repr

/-- An entity was asked to do what its kind cannot do. -/
structure NotApplicable where
  operation : String
  kind      : String
  deriving DecidableEq, Repr

/-- Such a request is a fault of the compiler, not of the program. -/
def NotApplicable.diagnostic (fault : NotApplicable) : Diagnostic :=
  ⟨.internal, "can't " ++ fault.operation ++ " a " ++ fault.kind, "", Span.nowhere⟩

namespace Entity

/-! ## Description -/

def size : Entity → Int
  | typeRepresentation size | knownValue size _ | unknownValue size _ | knownAddress size _
  | unknownAddress size _ | knownRoutine size _ | unknownRoutine size _ | field size _ => size
  | primitiveRoutine _ | equalityRoutine _ | barRoutine => 0

def kind : Entity → String
  | typeRepresentation _ => "type representation"
  | knownValue .. => "known value"
  | unknownValue .. => "unknown value"
  | knownAddress .. => "known address"
  | unknownAddress .. => "unknown address"
  | knownRoutine .. => "known routine"
  | unknownRoutine .. => "unknown routine"
  | primitiveRoutine _ => "primitive routine"
  | equalityRoutine _ => "equality routine"
  | barRoutine => "bar routine"
  | field .. => "field"

/-- A line of the table of entities. -/
def text (entity : Entity) : String :=
  match entity with
  | typeRepresentation size => "type size=" ++ Numeral.ofInt size
  | knownValue size value =>
    entity.kind ++ " size=" ++ Numeral.ofInt size ++ " value=" ++ Numeral.ofInt value
  | unknownValue size address | knownAddress size address | unknownAddress size address
  | knownRoutine size address | unknownRoutine size address =>
    entity.kind ++ " size=" ++ Numeral.ofInt size ++ " level=" ++ Numeral.ofNat address.level
      ++ " displacement=" ++ Numeral.ofInt address.displacement
  | primitiveRoutine primitive | equalityRoutine primitive => entity.kind ++ " " ++ primitive.name
  | barRoutine => entity.kind
  | field size offset =>
    entity.kind ++ " size=" ++ Numeral.ofInt size ++ " offset=" ++ Numeral.ofInt offset

def refuse (entity : Entity) (operation : String) : NotApplicable := ⟨operation, entity.kind⟩

end Entity

/-! ## Addressing -/

namespace Emitter

/-- The register through which code that runs in `frame` reaches data declared
    at `level`: `SB` for the main program, else the display. -/
def displayRegister (e : Emitter) (frame : Frame) (level : Nat) : Register × Emitter :=
  if level = 0 then (.sb, e)
  else
    let levelsOut := frame.level - level
    (.display levelsOut,
      if levelsOut > Machine.maxLevelsOut then
        e.restrict Limit.displayReach.message
      else e)

/-- The displacement of the place `access` inside the entity at `address`. -/
def displace (e : Emitter) (address : Address) (access : Access) : Int × Emitter :=
  let displacement := address.displacement + access.offset
  (Word.clamp displacement, if Word.Fits displacement then e else e.restrictAddress)

/-- Add the waiting index, if there is one, to the address on the stack. -/
def addIndex (e : Emitter) (access : Access) : Emitter :=
  if access.indexed then e.emitPrimitive .add else e

/-- Push the address of the place `access` inside the data at `address`. -/
def pushAddress (e : Emitter) (frame : Frame) (address : Address) (access : Access) : Emitter :=
  let (register, e) := e.displayRegister frame address.level
  let (displacement, e) := e.displace address access
  (e.emit .loadA 0 register displacement).addIndex access

/-- Push the address of the place `access` inside the data whose address is
    stored at `address`. -/
def pushStoredAddress (e : Emitter) (frame : Frame) (address : Address) (access : Access) :
    Emitter :=
  let (register, e) := e.displayRegister frame address.level
  let e := (e.emit .load Machine.addressSize register address.displacement).addIndex access
  if access.offset = 0 then e
  else (e.emitPlain .loadL 0 access.offset).emitPrimitive .add

/-- Push the closure stored at `address`. -/
def pushStoredClosure (e : Emitter) (frame : Frame) (address : Address) : Emitter :=
  let (register, e) := e.displayRegister frame address.level
  e.emit .load Machine.closureSize register address.displacement

end Emitter

namespace Entity

/-! ## Code for values and variables -/

/-- Push the `size` words at the place `access` inside the entity. -/
def fetch (entity : Entity) (frame : Frame) (size : Int) (access : Access) (e : Emitter) :
    Except NotApplicable Emitter :=
  match entity with
  | knownValue _ value => .ok (e.emitPlain .loadL 0 value)
  | unknownValue _ address | knownAddress _ address =>
    if access.indexed then
      .ok ((e.pushAddress frame address access).emitPlain .loadI size 0)
    else
      let (register, e) := e.displayRegister frame address.level
      let (displacement, e) := e.displace address access
      .ok (e.emit .load size register displacement)
  | unknownAddress _ address =>
    .ok ((e.pushStoredAddress frame address access).emitPlain .loadI size 0)
  | _ => .error (entity.refuse "fetch")

/-- Pop `size` words into the place `access` inside the entity. -/
def store (entity : Entity) (frame : Frame) (size : Int) (access : Access) (e : Emitter) :
    Except NotApplicable Emitter :=
  match entity with
  | knownAddress _ address =>
    if access.indexed then
      .ok ((e.pushAddress frame address access).emitPlain .storeI size 0)
    else
      let (register, e) := e.displayRegister frame address.level
      let (displacement, e) := e.displace address access
      .ok (e.emit .store size register displacement)
  | unknownAddress _ address =>
    .ok ((e.pushStoredAddress frame address access).emitPlain .storeI size 0)
  | _ => .error (entity.refuse "store")

/-- Push the address of the place `access` inside the entity. -/
def fetchAddress (entity : Entity) (frame : Frame) (access : Access) (e : Emitter) :
    Except NotApplicable Emitter :=
  match entity with
  | knownAddress _ address => .ok (e.pushAddress frame address access)
  | unknownAddress _ address => .ok (e.pushStoredAddress frame address access)
  | _ => .error (entity.refuse "take the address of")

/-! ## Code for routines -/

/-- Call the routine. Its arguments are on the stack, and `frame` counts them
    alone. -/
def call (entity : Entity) (frame : Frame) (e : Emitter) : Except NotApplicable Emitter :=
  match entity with
  | knownRoutine _ address =>
    let (link, e) := e.displayRegister frame address.level
    .ok (e.emit .call link.number .cb address.displacement)
  | unknownRoutine _ address =>
    .ok ((e.pushStoredClosure frame address).emitPlain .callI 0 0)
  | primitiveRoutine primitive =>
    -- what leaves its argument as it is needs no call
    .ok (if primitive = .id then e else e.emitPrimitive primitive)
  | equalityRoutine primitive =>
    .ok ((e.emitPlain .loadL 0 (frame.size.tdiv 2)).emitPrimitive primitive)
  | barRoutine => .ok ((e.emitPlain .loadL 0 100).emitPrimitive .mult)
  | _ => .error (entity.refuse "call")

/-- Push the closure of the routine. -/
def fetchClosure (entity : Entity) (frame : Frame) (e : Emitter) :
    Except NotApplicable Emitter :=
  match entity with
  | knownRoutine _ address =>
    let (link, e) := e.displayRegister frame address.level
    .ok ((e.emit .loadA 0 link 0).emit .loadA 0 .cb address.displacement)
  | unknownRoutine _ address => .ok (e.pushStoredClosure frame address)
  | primitiveRoutine primitive | equalityRoutine primitive =>
    .ok ((e.emit .loadA 0 .sb 0).emit .loadA 0 .pb primitive.displacement)
  | barRoutine => .ok ((e.emit .loadA 0 .sb 0).emit .loadA 0 .pb Primitive.mult.displacement)
  | _ => .error (entity.refuse "pass as a routine")

end Entity

end TriangleTam
