import TriangleTam.Code.Encode
import TriangleTam.Proofs.Typing.Decoration

/-! # Translation with an assembler

  Code generation as a function of the operations it is made of. An
  **assembler** has these operations in a monad, and translates every tree with
  them: the encoder is the translation with its own assembler, and another
  assembler gives the same translation for a machine without limits, or one
  that takes notes.

  What is known of the operations of two assemblers then holds of their
  translations: a relation between computations that is closed under what
  translation is put together of relates the translations of every tree.
-/

namespace TriangleTam

/-- The operations that code generation is made of. -/
structure Assembler (m : Type → Type) where
  /-- The address of the next instruction. -/
  next         : m Int
  emit         : OpCode → Int → Register → Int → m Unit
  /-- Point the jump at an address to the next instruction. -/
  patch        : Int → m Unit
  bind         : Name → Entity → m Unit
  entityOf     : Name → m Entity
  /-- A size, an offset or a frame depth. -/
  word         : Int → m Int
  sizeOf       : TypeDenoter → m Int
  sizeOf?      : Option TypeDenoter → Span → m Int
  fieldOffset  : Vname → Name → m Int
  fetch        : Encode.Place → Frame → Int → m Unit
  store        : Encode.Place → Frame → Int → m Unit
  fetchAddress : Encode.Place → Frame → m Unit
  call         : Entity → Frame → m Unit
  fetchClosure : Entity → Frame → m Unit
  /-- A routine of the level may have a body. -/
  nests        : Nat → m Bool

namespace Assembler

variable {m : Type → Type} [Monad m] (asm : Assembler m)

/-! ## Instructions -/

def emitPlain (op : OpCode) (n d : Int) : m Unit := asm.emit op n .cb d

def emitPrimitive (primitive : Primitive) : m Unit :=
  asm.emit .call Register.sb.number .pb primitive.displacement

/-- Emit a jump to be patched. Returns its address. -/
def emitForward (op : OpCode) (n : Int) : m Int := do
  let address ← asm.next
  asm.emit op n .cb 0
  return address

/-- The frame with `n` more words. -/
def grow (frame : Frame) (n : Int) : m Frame := do
  let size ← asm.word (frame.size + n)
  return frame.replace size

/-- Call what the name stands for. -/
def invoke (name : Name) (frame : Frame) : m Unit := do
  let entity ← asm.entityOf name
  asm.call entity frame

/-- Push the closure of what the name stands for. -/
def pass (name : Name) (frame : Frame) : m Unit := do
  let entity ← asm.entityOf name
  asm.fetchClosure entity frame

/-! ## Control -/

section

variable {α β γ : Type}

def branch (condition : m α) (thenBranch : m β) (elseBranch : m γ) : m γ := do
  let _ ← condition
  let toElse ← asm.emitForward .jumpIf Machine.falseRep
  let _ ← thenBranch
  let toEnd ← asm.emitForward .jump 0
  asm.patch toElse
  let result ← elseBranch
  asm.patch toEnd
  return result

def whileDo (condition : m α) (body : m β) : m Unit := do
  let toTest ← asm.emitForward .jump 0
  let start ← asm.next
  let _ ← body
  asm.patch toTest
  let _ ← condition
  asm.emit .jumpIf Machine.trueRep .cb start

def repeatUntil (body : m α) (condition : m β) : m Unit := do
  let start ← asm.next
  let _ ← body
  let _ ← condition
  asm.emit .jumpIf Machine.falseRep .cb start

def loopWhile (body : m α) (condition : m β) (tail : m γ) : m Unit := do
  let start ← asm.next
  let _ ← body
  let _ ← condition
  let toEnd ← asm.emitForward .jumpIf Machine.falseRep
  let _ ← tail
  asm.emit .jump 0 .cb start
  asm.patch toEnd

end

/-- A routine with its parameters and its body, which return the sizes of the
    arguments and of the result. -/
def routine (name : Name) (level : Nat) (parameters body : m Int) : m Unit := do
  let jump ← asm.emitForward .jump 0
  asm.bind name (.knownRoutine Machine.closureSize ⟨level, ← asm.next⟩)
  if ← asm.nests level then
    let argumentSize ← parameters
    let resultSize ← body
    asm.emitPlain .ret resultSize argumentSize
  else
    asm.emitPlain .ret 0 0
  asm.patch jump

/-! ## Parameters -/

/-- The address of a parameter of some size, when those after it take
    `frame.size` words. -/
def below (frame : Frame) (size : Int) : m Address := do
  let depth ← asm.word (frame.size + size)
  return ⟨frame.level, -depth⟩

def formal (parameter : Formal) (frame : Frame) : m Int := do
  match parameter with
  | .const _ _ name type =>
    let size ← asm.sizeOf type
    asm.bind name (.unknownValue size (← asm.below frame size))
    return size
  | .var _ _ name type =>
    let _ ← asm.sizeOf type
    asm.bind name (.unknownAddress Machine.addressSize (← asm.below frame Machine.addressSize))
    return Machine.addressSize
  | .proc _ _ name _ | .func _ _ name _ _ =>
    asm.bind name (.unknownRoutine Machine.closureSize (← asm.below frame Machine.closureSize))
    return Machine.closureSize

def formals (parameters : Formals) (frame : Frame) : m Int := do
  match parameters with
  | .empty _ => return 0
  | .one _ first => asm.formal first frame
  | .more _ first rest =>
    let restSize ← formals rest frame
    let size ← asm.formal first (← asm.grow frame restSize)
    asm.word (restSize + size)

/-! ## Commands, expressions and declarations -/

mutual

def command : Command → Frame → m Unit
  | .empty _, _ => return
  | .assign _ target value, frame => do
    let size ← expression value frame
    let frame ← asm.grow frame size
    asm.store (← place target frame) frame size
  | .call _ callee args, frame => do
    let size ← actuals args frame
    asm.invoke callee (frame.replace size)
  | .sequence _ first second, frame => do
    command first frame
    command second frame
  | .letIn _ declared body, frame => do
    let extra ← declaration declared frame
    command body (← asm.grow frame extra)
    if extra > 0 then asm.emitPlain .pop 0 extra
  | .ifElse _ condition thenBranch elseBranch, frame =>
    asm.branch (expression condition frame) (command thenBranch frame)
      (command elseBranch frame)
  | .whileDo _ condition body, frame =>
    asm.whileDo (expression condition frame) (command body frame)
  | .repeatUntil _ body condition, frame =>
    asm.repeatUntil (command body frame) (expression condition frame)
  | .loopWhile _ body condition tail, frame =>
    asm.loopWhile (command body frame) (expression condition frame)
      (command tail frame)

def expression : Expression → Frame → m Int
  | .integer span type literal, _ => do
    let size ← asm.sizeOf? type span
    asm.emitPlain .loadL 0 literal.value
    return size
  | .character span type literal, _ => do
    let size ← asm.sizeOf? type span
    asm.emitPlain .loadL 0 literal.value
    return size
  | .vname span type found, frame => do
    let size ← asm.sizeOf? type span
    asm.fetch (← place found frame) frame size
    return size
  | .call span type callee args, frame => do
    let size ← asm.sizeOf? type span
    let argumentSize ← actuals args frame
    asm.invoke callee (frame.replace argumentSize)
    return size
  | .ifElse span type condition thenBranch elseBranch, frame => do
    let _ ← asm.sizeOf? type span
    asm.branch (expression condition frame) (expression thenBranch frame)
      (expression elseBranch frame)
  | .letIn span type declared body, frame => do
    let _ ← asm.sizeOf? type span
    let extra ← declaration declared frame
    let size ← expression body (← asm.grow frame extra)
    if extra > 0 then asm.emitPlain .pop size extra
    return size
  | .unary span type operator operand, frame => do
    let size ← asm.sizeOf? type span
    let _ ← expression operand frame
    asm.invoke operator (frame.replace size)
    return size
  | .binary span type left operator right, frame => do
    let size ← asm.sizeOf? type span
    let leftSize ← expression left frame
    let rightSize ← expression right (← asm.grow frame leftSize)
    let argumentSize ← asm.word (leftSize + rightSize)
    asm.invoke operator (frame.replace argumentSize)
    return size
  | .array span type elements, frame => do
    let _ ← asm.sizeOf? type span
    arrayAggregate elements frame
  | .record span type fields, frame => do
    let _ ← asm.sizeOf? type span
    recordAggregate fields frame

def arrayAggregate : ArrayAggregate → Frame → m Int
  | .one _ element, frame => expression element frame
  | .more _ element rest, frame => do
    let size ← expression element frame
    let restSize ← arrayAggregate rest (← asm.grow frame size)
    asm.word (size + restSize)

def recordAggregate : RecordAggregate → Frame → m Int
  | .one _ _ value, frame => expression value frame
  | .more _ _ value rest, frame => do
    let size ← expression value frame
    let restSize ← recordAggregate rest (← asm.grow frame size)
    asm.word (size + restSize)

def place : Vname → Frame → m Encode.Place
  | .simple _ _ _ name, _ => do
    let entity ← asm.entityOf name
    return (entity, {})
  | .dot _ _ _ record field, frame => do
    let (entity, access) ← place record frame
    let offset ← asm.word (access.offset + (← asm.fieldOffset record field))
    return (entity, { access with offset })
  | .subscript span type _ array index, frame => do
    let (entity, access) ← place array frame
    let elementSize ← asm.sizeOf? type span
    match index.integerValue? with
    | some value =>
      let distance ← asm.word (value * elementSize)
      let offset ← asm.word (access.offset + distance)
      return (entity, { access with offset })
    | none =>
      let indexFrame ← if access.indexed then asm.grow frame Machine.scalarSize else pure frame
      let _ ← expression index indexFrame
      if elementSize ≠ 1 then
        asm.emitPlain .loadL 0 elementSize
        asm.emitPrimitive .mult
      if access.indexed then asm.emitPrimitive .add
      return (entity, { access with indexed := true })

def declaration : Declaration → Frame → m Int
  | .const _ _ name value, frame => do
    match value.literalValue? with
    | some known =>
      let size ← asm.sizeOf? value.type value.span
      asm.bind name (.knownValue size known)
      return 0
    | none =>
      let size ← expression value frame
      asm.bind name (.unknownValue size frame.address)
      return size
  | .var _ _ name type, frame => do
    let size ← asm.sizeOf type
    asm.emitPlain .push 0 size
    asm.bind name (.knownAddress Machine.addressSize frame.address)
    return size
  | .proc _ _ name parameters body, frame => do
    asm.routine name frame.level (asm.formals parameters (frame.push 0)) do
      command body (frame.push Machine.linkDataSize)
      return 0
    return 0
  | .func _ _ name parameters _ body, frame => do
    asm.routine name frame.level (asm.formals parameters (frame.push 0))
      (expression body (frame.push Machine.linkDataSize))
    return 0
  | .type _ _ _ type, _ => do
    let _ ← asm.sizeOf type
    return 0
  | .sequence _ first second, frame => do
    let firstSize ← declaration first frame
    let secondSize ← declaration second (← asm.grow frame firstSize)
    asm.word (firstSize + secondSize)

def actuals : Actuals → Frame → m Int
  | .empty _, _ => return 0
  | .one _ first, frame => actual first frame
  | .more _ first rest, frame => do
    let size ← actual first frame
    let restSize ← actuals rest (← asm.grow frame size)
    asm.word (size + restSize)

def actual : Actual → Frame → m Int
  | .const _ value, frame => expression value frame
  | .var _ found, frame => do
    asm.fetchAddress (← place found frame) frame
    return Machine.addressSize
  | .proc _ name, frame | .func _ name, frame => do
    asm.pass name frame
    return Machine.closureSize

end

end Assembler

/-! ## The encoder -/

namespace Encode

/-- The operations of the encoder. -/
def assembler : Assembler Encode where
  next := next
  emit := emit
  patch := patch
  bind := bind
  entityOf := entityOf
  word := word
  sizeOf := sizeOf
  sizeOf? := sizeOf?
  fieldOffset := fieldOffset
  fetch := fetch
  store := store
  fetchAddress := fetchAddress
  call entity frame := requesting (entity.call frame)
  fetchClosure entity frame := requesting (entity.fetchClosure frame)
  nests level := do
    if level ≥ Machine.maxRoutineLevel then
      emitting fun e => e.restrict Limit.routineNesting.message
      return false
    else return true

theorem assembler_formal (parameter : Formal) (frame : Frame) :
    assembler.formal parameter frame = formal parameter frame := by
  cases parameter <;> rfl

theorem assembler_formals : ∀ (parameters : Formals) (frame : Frame),
    assembler.formals parameters frame = formals parameters frame
  | .empty _, _ => rfl
  | .one _ first, frame => assembler_formal first frame
  | .more _ first rest, frame => by
    unfold Assembler.formals formals
    simp only [assembler_formals rest, assembler_formal first]
    rfl

theorem assembler_routine (name : Name) (parameters : Formals) (frame : Frame)
    (body : Frame → Encode Int) :
    assembler.routine name frame.level (assembler.formals parameters (frame.push 0))
      (body (frame.push Machine.linkDataSize)) = routine name parameters frame body := by
  unfold Assembler.routine routine
  rw [assembler_formals]
  by_cases hlevel : frame.level ≥ Machine.maxRoutineLevel
  · simp only [assembler, if_pos hlevel, bind_assoc, pure_bind]
    rfl
  · simp only [assembler, if_neg hlevel, pure_bind]
    rfl

mutual

theorem assembler_command : ∀ (phrase : Command) (frame : Frame),
    assembler.command phrase frame = command phrase frame
  | .empty _, _ => rfl
  | .assign _ target value, frame => by
    simp only [Assembler.command, command, assembler_expression value, assembler_place target]
    rfl
  | .call _ callee args, frame => by
    simp only [Assembler.command, command, assembler_actuals args]
    rfl
  | .sequence _ first second, frame => by
    simp only [Assembler.command, command, assembler_command first, assembler_command second]
  | .letIn _ declared body, frame => by
    simp only [Assembler.command, command, assembler_declaration declared,
      assembler_command body]
    rfl
  | .ifElse _ condition thenBranch elseBranch, frame => by
    simp only [Assembler.command, command, assembler_expression condition,
      assembler_command thenBranch, assembler_command elseBranch, Assembler.branch]
    refine bind_congr fun _ => bind_congr fun toElse => bind_congr fun _ => bind_congr fun toEnd =>
      bind_congr fun _ => bind_congr fun _ => bind_pure_unit
  | .whileDo _ condition body, frame => by
    simp only [Assembler.command, command, assembler_expression condition,
      assembler_command body, Assembler.whileDo]
    rfl
  | .repeatUntil _ body condition, frame => by
    simp only [Assembler.command, command, assembler_expression condition,
      assembler_command body, Assembler.repeatUntil]
    rfl
  | .loopWhile _ body condition tail, frame => by
    simp only [Assembler.command, command, assembler_expression condition,
      assembler_command body, assembler_command tail, Assembler.loopWhile]
    rfl

theorem assembler_expression : ∀ (phrase : Expression) (frame : Frame),
    assembler.expression phrase frame = expression phrase frame
  | .integer .., _ | .character .., _ => rfl
  | .vname _ _ found, frame => by
    simp only [Assembler.expression, expression, assembler_place found]
    rfl
  | .call _ _ callee args, frame => by
    simp only [Assembler.expression, expression, assembler_actuals args, Assembler.invoke, bind_assoc]
    rfl
  | .ifElse _ _ condition thenBranch elseBranch, frame => by
    simp only [Assembler.expression, expression, assembler_expression condition,
      assembler_expression thenBranch, assembler_expression elseBranch, Assembler.branch]
    rfl
  | .letIn _ _ declared body, frame => by
    simp only [Assembler.expression, expression, assembler_declaration declared,
      assembler_expression body]
    rfl
  | .unary _ _ operator operand, frame => by
    simp only [Assembler.expression, expression, assembler_expression operand,
      Assembler.invoke, bind_assoc]
    rfl
  | .binary _ _ left operator right, frame => by
    simp only [Assembler.expression, expression, assembler_expression left,
      assembler_expression right, Assembler.invoke, bind_assoc]
    rfl
  | .array _ _ elements, frame => by
    simp only [Assembler.expression, expression, assembler_arrayAggregate elements]
    rfl
  | .record _ _ fields, frame => by
    simp only [Assembler.expression, expression, assembler_recordAggregate fields]
    rfl

theorem assembler_arrayAggregate : ∀ (phrase : ArrayAggregate) (frame : Frame),
    assembler.arrayAggregate phrase frame = arrayAggregate phrase frame
  | .one _ element, frame => by
    simp only [Assembler.arrayAggregate, arrayAggregate, assembler_expression element]
  | .more _ element rest, frame => by
    simp only [Assembler.arrayAggregate, arrayAggregate, assembler_expression element,
      assembler_arrayAggregate rest]
    rfl

theorem assembler_recordAggregate : ∀ (phrase : RecordAggregate) (frame : Frame),
    assembler.recordAggregate phrase frame = recordAggregate phrase frame
  | .one _ _ value, frame => by
    simp only [Assembler.recordAggregate, recordAggregate, assembler_expression value]
  | .more _ _ value rest, frame => by
    simp only [Assembler.recordAggregate, recordAggregate, assembler_expression value,
      assembler_recordAggregate rest]
    rfl

theorem assembler_place : ∀ (phrase : Vname) (frame : Frame),
    assembler.place phrase frame = place phrase frame
  | .simple .., _ => rfl
  | .dot _ _ _ record field, frame => by
    simp only [Assembler.place, place, assembler_place record]
    rfl
  | .subscript _ _ _ array index, frame => by
    simp only [Assembler.place, place, assembler_place array, assembler_expression index]
    rfl

theorem assembler_declaration : ∀ (phrase : Declaration) (frame : Frame),
    assembler.declaration phrase frame = declaration phrase frame
  | .const _ _ name value, frame => by
    simp only [Assembler.declaration, declaration, assembler_expression value]
    rfl
  | .var .., _ | .type .., _ => rfl
  | .proc _ _ name parameters body, frame => by
    simp only [Assembler.declaration, declaration, assembler_command body]
    rw [← assembler_routine]
  | .func _ _ name parameters _ body, frame => by
    simp only [Assembler.declaration, declaration, assembler_expression body]
    rw [← assembler_routine]
  | .sequence _ first second, frame => by
    simp only [Assembler.declaration, declaration, assembler_declaration first,
      assembler_declaration second]
    rfl

theorem assembler_actuals : ∀ (phrase : Actuals) (frame : Frame),
    assembler.actuals phrase frame = actuals phrase frame
  | .empty _, _ => rfl
  | .one _ first, frame => by
    simp only [Assembler.actuals, actuals, assembler_actual first]
  | .more _ first rest, frame => by
    simp only [Assembler.actuals, actuals, assembler_actual first, assembler_actuals rest]
    rfl

theorem assembler_actual : ∀ (phrase : Actual) (frame : Frame),
    assembler.actual phrase frame = actual phrase frame
  | .const _ value, frame => by
    simp only [Assembler.actual, actual, assembler_expression value]
  | .var _ found, frame => by
    simp only [Assembler.actual, actual, assembler_place found]
    rfl
  | .proc .., _ | .func .., _ => by
    simp only [Assembler.actual, actual, Assembler.pass, bind_assoc]
    rfl

end

end Encode

end TriangleTam
