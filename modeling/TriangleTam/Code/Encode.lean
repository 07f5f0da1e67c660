import TriangleTam.Code.Layout
import TriangleTam.Code.Object
import TriangleTam.Standard
import TriangleTam.Tree

/-! # Code generation

  Encoding walks a checked tree and writes code. A frame goes down the walk,
  so that every declaration gets a static address; sizes come back up: of a
  value on the stack, of the storage a declaration leaves there, of the
  arguments of a call.

      if E then C1 else C2   E; JUMPIF (0) g; C1; JUMP h; g: C2; h:
      while E do C           JUMP h; g: C; h: E; JUMPIF (1) g
      repeat C until E       g: C; E; JUMPIF (0) g
      loop C1 while E do C2  g: C1; E; JUMPIF (0) h; C2; JUMP g; h:
      proc I(FS) ~ C         JUMP g; e: C; RETURN (0) d; g:
      let D in C             D; C; POP (0) s

  Exceeding a limit of the machine is reported and encoding goes on. A tree
  that was not checked well stops it.
-/

namespace TriangleTam

/-- What encoding carries through the tree. -/
structure Encoder where
  emitter    : Emitter
  /-- The representations of the bindings met so far, newest first. -/
  entities   : List (BindingId × Entity)
  layouts    : Layouts
  /-- A size, an offset or a frame depth was no word. -/
  outOfRange : Bool := false
  /-- Log every entity. -/
  showTable  : Bool

/-- A step of encoding. -/
abbrev Encode := ExceptT Diagnostic (StateM Encoder)

namespace Encode

/-! ## Emitting -/

/-- The address of the next instruction. -/
def next : Encode Int := return (← get).emitter.next

/-- Let the emitter do something. -/
def emitting (act : Emitter → Emitter) : Encode Unit :=
  modify fun s => { s with emitter := act s.emitter }

/-- Let the emitter do something that an entity may refuse. -/
def requesting (act : Emitter → Except NotApplicable Emitter) : Encode Unit := do
  match act (← get).emitter with
  | .ok emitter => modify fun s => { s with emitter }
  | .error fault => throw fault.diagnostic

def emit (op : OpCode) (n : Int) (r : Register) (d : Int) : Encode Unit :=
  emitting fun e => e.emit op n r d

def emitPlain (op : OpCode) (n d : Int) : Encode Unit := emitting fun e => e.emitPlain op n d

def emitPrimitive (primitive : Primitive) : Encode Unit :=
  emitting fun e => e.emitPrimitive primitive

/-- Emit a jump to be patched. Returns its address. -/
def emitForward (op : OpCode) (n : Int) : Encode Int := do
  let address ← next
  emit op n .cb 0
  return address

def patch (address : Int) : Encode Unit := emitting fun e => e.patch address

/-- The size `n`, cut to what one instruction can move. -/
def clampOperand (n : Int) (limit : Limit) : Encode Int := do
  let (n, emitter) := (← get).emitter.clampOperand n limit
  modify fun s => { s with emitter }
  return n

/-! ## Entities -/

/-- Record the representation of a name's binding. -/
def bind (name : Name) (entity : Entity) : Encode Unit := do
  match name.binding with
  | none => throw (.ofInternal .uncheckedDeclaration name.spelling name.span)
  | some id =>
    if (← get).showTable then
      emitting fun e =>
        { e with journal := e.journal.log .info entity.text [("name", name.spelling)] }
    modify fun s => { s with entities := (id, entity) :: s.entities }

/-- The representation of what a name stands for. -/
def entityOf (name : Name) : Encode Entity := do
  let s ← get
  match name.binding.bind fun id => s.entities.lookup id with
  | some entity => return entity
  | none => throw (.ofInternal .noEntity name.spelling name.span)

/-! ## Word arithmetic

  Sizes, offsets and frame depths saturate. That one did is remembered, and
  reported once at the end.
-/

/-- The word nearest to `n`. -/
def word (n : Int) : Encode Int := do
  if !Word.Fits n then modify fun s => { s with outOfRange := true }
  return Word.clamp n

/-- The frame with `n` more words. -/
def grow (frame : Frame) (n : Int) : Encode Frame := do
  let size ← word (frame.size + n)
  return frame.replace size

/-! ## Layout -/

/-- The size of a type, which is laid out now at the latest. -/
def sizeOf (type : TypeDenoter) : Encode Int := do
  let s ← get
  let laid := type.layOut { layouts := s.layouts }
  set { s with layouts := laid.layouts, outOfRange := s.outOfRange || laid.outOfRange }
  if s.showTable then
    emitting fun e =>
      { e with journal := laid.added.foldl (fun journal (type : TypeDenoter) =>
          journal.log .info type.entity.text [("ty", type.text)]) e.journal }
  return type.size

/-- The size of the type that checking gave to a node. -/
def sizeOf? (type : Option TypeDenoter) (span : Span) : Encode Int :=
  match type with
  | some type => sizeOf type
  | none => throw (.ofInternal .untyped "" span)

/-- The offset of a field in a record. -/
def fieldOffset (record : Vname) (field : Name) : Encode Int := do
  let missing := Diagnostic.ofInternal .noFieldLayout field.spelling field.span
  match record.type with
  | none => throw missing
  | some type =>
    let _ ← sizeOf type
    match type.fieldOffset? field.spelling with
    | some offset => return offset
    | none => throw missing

/-! ## Storage -/

/-- A vname at run time: the entity it is a part of, and its place there. -/
abbrev Place := Entity × Access

/-- Push the `size` words at a place. -/
def fetch (place : Place) (frame : Frame) (size : Int) : Encode Unit := do
  let size ← clampOperand size .loadLength
  requesting (place.1.fetch frame size place.2)

/-- Pop `size` words into a place. -/
def store (place : Place) (frame : Frame) (size : Int) : Encode Unit := do
  let size ← clampOperand size .storeLength
  requesting (place.1.store frame size place.2)

/-- Push the address of a place. -/
def fetchAddress (place : Place) (frame : Frame) : Encode Unit :=
  requesting (place.1.fetchAddress frame place.2)

/-! ## Parameters and routines -/

/-- Give a formal parameter its place below the link data, when the parameters
    after it take `frame.size` words. Returns its size. -/
def formal (parameter : Formal) (frame : Frame) : Encode Int := do
  let below (size : Int) : Encode Address := do
    let depth ← word (frame.size + size)
    return ⟨frame.level, -depth⟩
  match parameter with
  | .const _ _ name type =>
    let size ← sizeOf type
    bind name (.unknownValue size (← below size))
    return size
  | .var _ _ name type =>
    let _ ← sizeOf type
    bind name (.unknownAddress Machine.addressSize (← below Machine.addressSize))
    return Machine.addressSize
  | .proc _ _ name _ | .func _ _ name _ _ =>
    bind name (.unknownRoutine Machine.closureSize (← below Machine.closureSize))
    return Machine.closureSize

/-- Give formal parameters their places. The last is pushed last, so it is
    nearest to the link data. Returns their total size. -/
def formals (parameters : Formals) (frame : Frame) : Encode Int := do
  match parameters with
  | .empty _ => return 0
  | .one _ first => formal first frame
  | .more _ first rest =>
    let restSize ← formals rest frame
    let size ← formal first (← grow frame restSize)
    word (restSize + size)

/-- Encode a routine: a jump over its code, the code of its body one level
    deeper, and the return. The name is bound before the body, which may call
    it. A body returns the size of its result. -/
def routine (name : Name) (parameters : Formals) (frame : Frame)
    (body : Frame → Encode Int) : Encode Unit := do
  let jump ← emitForward .jump 0
  bind name (.knownRoutine Machine.closureSize ⟨frame.level, ← next⟩)
  if frame.level ≥ Machine.maxRoutineLevel then
    emitting fun e => e.restrict Limit.routineNesting.message
    emitPlain .ret 0 0
  else
    let argumentSize ← formals parameters (frame.push 0)
    let resultSize ← body (frame.push Machine.linkDataSize)
    emitPlain .ret resultSize argumentSize
  patch jump

/-! ## Commands, expressions and declarations -/

mutual

def command : Command → Frame → Encode Unit
  | .empty _, _ => return
  | .assign _ target value, frame => do
    let size ← expression value frame
    let frame ← grow frame size
    store (← place target frame) frame size
  | .call _ callee args, frame => do
    let size ← actuals args frame
    let entity ← entityOf callee
    requesting (entity.call (frame.replace size))
  | .sequence _ first second, frame => do
    command first frame
    command second frame
  | .letIn _ declared body, frame => do
    let extra ← declaration declared frame
    command body (← grow frame extra)
    if extra > 0 then emitPlain .pop 0 extra
  | .ifElse _ condition thenBranch elseBranch, frame => do
    let _ ← expression condition frame
    let toElse ← emitForward .jumpIf Machine.falseRep
    command thenBranch frame
    let toEnd ← emitForward .jump 0
    patch toElse
    command elseBranch frame
    patch toEnd
  | .whileDo _ condition body, frame => do
    let toTest ← emitForward .jump 0
    let start ← next
    command body frame
    patch toTest
    let _ ← expression condition frame
    emit .jumpIf Machine.trueRep .cb start
  | .repeatUntil _ body condition, frame => do
    let start ← next
    command body frame
    let _ ← expression condition frame
    emit .jumpIf Machine.falseRep .cb start
  | .loopWhile _ body condition tail, frame => do
    let start ← next
    command body frame
    let _ ← expression condition frame
    let toEnd ← emitForward .jumpIf Machine.falseRep
    command tail frame
    emit .jump 0 .cb start
    patch toEnd

/-- Push the value of an expression. Returns its size. -/
def expression : Expression → Frame → Encode Int
  | .integer span type literal, _ => do
    let size ← sizeOf? type span
    emitPlain .loadL 0 literal.value
    return size
  | .character span type literal, _ => do
    let size ← sizeOf? type span
    emitPlain .loadL 0 literal.value
    return size
  | .vname span type found, frame => do
    let size ← sizeOf? type span
    fetch (← place found frame) frame size
    return size
  | .call span type callee args, frame => do
    let size ← sizeOf? type span
    let argumentSize ← actuals args frame
    let entity ← entityOf callee
    requesting (entity.call (frame.replace argumentSize))
    return size
  | .ifElse span type condition thenBranch elseBranch, frame => do
    let _ ← sizeOf? type span
    let _ ← expression condition frame
    let toElse ← emitForward .jumpIf Machine.falseRep
    let _ ← expression thenBranch frame
    let toEnd ← emitForward .jump 0
    patch toElse
    let size ← expression elseBranch frame
    patch toEnd
    return size
  | .letIn span type declared body, frame => do
    let _ ← sizeOf? type span
    let extra ← declaration declared frame
    let size ← expression body (← grow frame extra)
    if extra > 0 then emitPlain .pop size extra
    return size
  | .unary span type operator operand, frame => do
    let size ← sizeOf? type span
    let _ ← expression operand frame
    let entity ← entityOf operator
    requesting (entity.call (frame.replace size))
    return size
  | .binary span type left operator right, frame => do
    let size ← sizeOf? type span
    let leftSize ← expression left frame
    let rightSize ← expression right (← grow frame leftSize)
    let argumentSize ← word (leftSize + rightSize)
    let entity ← entityOf operator
    requesting (entity.call (frame.replace argumentSize))
    return size
  | .array span type elements, frame => do
    let _ ← sizeOf? type span
    arrayAggregate elements frame
  | .record span type fields, frame => do
    let _ ← sizeOf? type span
    recordAggregate fields frame

/-- Push the elements of an array. Returns their total size. -/
def arrayAggregate : ArrayAggregate → Frame → Encode Int
  | .one _ element, frame => expression element frame
  | .more _ element rest, frame => do
    let size ← expression element frame
    let restSize ← arrayAggregate rest (← grow frame size)
    word (size + restSize)

/-- Push the fields of a record. Returns their total size. -/
def recordAggregate : RecordAggregate → Frame → Encode Int
  | .one _ _ value, frame => expression value frame
  | .more _ _ value rest, frame => do
    let size ← expression value frame
    let restSize ← recordAggregate rest (← grow frame size)
    word (size + restSize)

/-- Push the index that a vname needs at run time, if it needs one. Returns
    the place of the vname. -/
def place : Vname → Frame → Encode Place
  | .simple _ _ _ name, _ => do
    let entity ← entityOf name
    return (entity, {})
  | .dot _ _ _ record field, frame => do
    let (entity, access) ← place record frame
    let offset ← word (access.offset + (← fieldOffset record field))
    return (entity, { access with offset })
  | .subscript span type _ array index, frame => do
    let (entity, access) ← place array frame
    let elementSize ← sizeOf? type span
    match index.integerValue? with
    | some value =>
      let distance ← word (value * elementSize)
      let offset ← word (access.offset + distance)
      return (entity, { access with offset })
    | none =>
      -- an index that waits on the stack lies under this one
      let indexFrame ← if access.indexed then grow frame Machine.scalarSize else pure frame
      let _ ← expression index indexFrame
      if elementSize ≠ 1 then
        emitPlain .loadL 0 elementSize
        emitPrimitive .mult
      if access.indexed then emitPrimitive .add
      return (entity, { access with indexed := true })

/-- Elaborate a declaration. Returns the size of the storage it leaves on the
    stack. -/
def declaration : Declaration → Frame → Encode Int
  | .const _ _ name value, frame => do
    match value.literalValue? with
    | some known =>
      let size ← sizeOf? value.type value.span
      bind name (.knownValue size known)
      return 0
    | none =>
      let size ← expression value frame
      bind name (.unknownValue size frame.address)
      return size
  | .var _ _ name type, frame => do
    let size ← sizeOf type
    emitPlain .push 0 size
    bind name (.knownAddress Machine.addressSize frame.address)
    return size
  | .proc _ _ name parameters body, frame => do
    routine name parameters frame fun bodyFrame => do
      command body bodyFrame
      return 0
    return 0
  | .func _ _ name parameters _ body, frame => do
    routine name parameters frame fun bodyFrame => expression body bodyFrame
    return 0
  | .type _ _ _ type, _ => do
    let _ ← sizeOf type
    return 0
  | .sequence _ first second, frame => do
    let firstSize ← declaration first frame
    let secondSize ← declaration second (← grow frame firstSize)
    word (firstSize + secondSize)

/-- Push actual parameters in order. Returns their total size. -/
def actuals : Actuals → Frame → Encode Int
  | .empty _, _ => return 0
  | .one _ first, frame => actual first frame
  | .more _ first rest, frame => do
    let size ← actual first frame
    let restSize ← actuals rest (← grow frame size)
    word (size + restSize)

def actual : Actual → Frame → Encode Int
  | .const _ value, frame => expression value frame
  | .var _ found, frame => do
    fetchAddress (← place found frame) frame
    return Machine.addressSize
  | .proc _ name, frame | .func _ name, frame => do
    let entity ← entityOf name
    requesting (entity.fetchClosure frame)
    return Machine.closureSize

end

end Encode

/-! ## The standard environment -/

/-- The representation of a standard declaration. -/
def StandardDeclaration.entity (declaration : StandardDeclaration) : Entity :=
  match declaration.representation with
  | .type => .typeRepresentation Machine.scalarSize
  | .value value => .knownValue Machine.scalarSize value
  | .primitive primitive => .primitiveRoutine primitive
  | .equality primitive => .equalityRoutine primitive
  | .bar => .barRoutine

/-- The representations of the standard bindings. -/
def Standard.entities : List (BindingId × Entity) :=
  declarations.zipIdx.map fun (declaration, id) => (id, declaration.entity)

/-- Layouts that include those of the standard types. -/
def Layouts.withStandard (layouts : Layouts) : Layouts :=
  [TypeDenoter.boolean, .character, .integer].foldl
    (fun layouts type => (type.layOut { layouts }).layouts) layouts

/-! ## Programs -/

/-- An object program, the layouts on record afterwards and the journal. -/
structure Encoded where
  object  : ObjectProgram
  layouts : Layouts
  journal : Journal

/-- Encode a program. The object is whatever code was written, also where
    limits were exceeded or the tree was not checked well. -/
def Program.encode (program : Program) (layouts : Layouts) (showTable : Bool)
    (journal : Journal) : Encoded :=
  let start : Encoder :=
    { emitter := .ofJournal journal, entities := Standard.entities,
      layouts := layouts.withStandard, showTable }
  let (outcome, s) := (Encode.command program.command Frame.initial).run.run start
  let e := s.emitter.emitPlain .halt 0 0
  let e := if s.outOfRange then e.restrictAddress else e
  let e := match outcome with
    | .ok _ => e
    | .error fault => e.report fault
  { object := ⟨e.code⟩
    layouts := s.layouts
    journal := e.journal.log .debug "code generation finished"
      [("instructions", Numeral.ofNat e.code.size)] }

end TriangleTam
