import TriangleTam.Code.Encode
import TriangleTam.Proofs.Coding.Emission
import TriangleTam.Proofs.Coding.Width

/-! # The code scheme

  Which code belongs to which node of a decorated tree. The rules have no
  bounds: sizes and displacements are what they should be, and code is a list
  that starts at an address.

  A **line** is an instruction with the depth of the stack before it, counted
  from the base of the frame, and the words it takes off the stack and leaves
  in their place. Routines take their arguments and leave their result. A
  **plan** says how bindings are represented and which routines there are; it
  is one plan for the whole program, because every binding is represented once.
-/

namespace TriangleTam

/-! ## Transfers -/

/-- The words that are taken off the stack, and those left in their place. -/
structure Transfer where
  takes  : Int
  leaves : Int
  deriving DecidableEq, Repr

/-- The primitive compares operands of a size that is an argument too. -/
def Primitive.IsEquality : Primitive → Prop
  | .eq | .ne => True
  | _ => False

instance : DecidablePred Primitive.IsEquality := fun p => by
  cases p <;> unfold Primitive.IsEquality <;> infer_instance

/-- What a primitive that is no equality takes and leaves. -/
def Primitive.transfer : Primitive → Transfer
  | .id | .not | .succ | .pred | .neg | .new => ⟨1, 1⟩
  | .and | .or | .add | .sub | .mult | .div | .mod | .lt | .le | .ge | .gt | .eq | .ne => ⟨2, 1⟩
  | .eol | .eof => ⟨0, 1⟩
  | .get | .put | .getint | .putint => ⟨1, 0⟩
  | .geteol | .puteol => ⟨0, 0⟩
  | .dispose => ⟨2, 0⟩

/-- What an instruction takes and leaves, unless it calls a routine of the program or an
    equality. -/
def Instruction.transfer (i : Instruction) : Transfer :=
  match i.op with
  | .load => ⟨0, i.n⟩
  | .loadA | .loadL => ⟨0, 1⟩
  | .loadI => ⟨1, i.n⟩
  | .store => ⟨i.n, 0⟩
  | .storeI => ⟨i.n + 1, 0⟩
  | .push => ⟨0, i.d⟩
  | .pop => ⟨i.n + i.d, i.n⟩
  | .jumpIf => ⟨1, 0⟩
  | .call =>
    match Primitive.ofDisplacement? i.d with
    | some p => p.transfer
    | none => ⟨0, 0⟩
  | .callI | .ret | .jump | .jumpI | .halt => ⟨0, 0⟩

mutual

/-- The words that arguments for a parameter take. -/
def Formal.words : Formal → Int
  | .const _ _ _ type => type.size
  | .var .. => Machine.addressSize
  | .proc .. | .func .. => Machine.closureSize

/-- The words that arguments for parameters take. -/
def Formals.words : Formals → Int
  | .empty _ => 0
  | .one _ formal => formal.words
  | .more _ formal rest => formal.words + rest.words

end

mutual

def FormalShape.words : FormalShape → Int
  | .const type => type.size
  | .var _ => Machine.addressSize
  | .proc _ | .func _ _ => Machine.closureSize

def Signature.words : List FormalShape → Int
  | [] => 0
  | shape :: others => shape.words + Signature.words others

end

/-! ## Lines -/

/-- An instruction, the depth of the stack before it, and what it takes and leaves. -/
structure Line where
  instruction : Instruction
  depth       : Int
  transfer    : Transfer

namespace Line

/-- The depth of the stack after the instruction. -/
def after (line : Line) : Int := line.depth - line.transfer.takes + line.transfer.leaves

def jump (target : Nat) (depth : Int) : Line := ⟨.plain .jump 0 target, depth, ⟨0, 0⟩⟩

/-- A jump that takes a truth value and is taken if it is `n`. -/
def jumpIf (n : Int) (target : Nat) (depth : Int) : Line :=
  ⟨.plain .jumpIf n target, depth, ⟨1, 0⟩⟩

def ret (result arguments depth : Int) : Line := ⟨.plain .ret result arguments, depth, ⟨0, 0⟩⟩

/-- Instructions one after the other, from a depth on. -/
def straight (depth : Int) : List Instruction → List Line
  | [] => []
  | i :: is =>
    ⟨i, depth, i.transfer⟩ :: straight (depth - i.transfer.takes + i.transfer.leaves) is

/-- Give up `extra` words of storage under a result of `n` words, unless there is none. -/
def release (depth n extra : Int) : List Line :=
  if extra > 0 then straight depth [.plain .pop n extra] else []

@[simp] theorem map_straight (depth : Int) (is : List Instruction) :
    (straight depth is).map (·.instruction) = is := by
  induction is generalizing depth with
  | nil => rfl
  | cons i is ih => rw [straight, List.map_cons, ih]

@[simp] theorem length_straight (depth : Int) (is : List Instruction) :
    (straight depth is).length = is.length := by
  rw [← List.length_map (·.instruction), map_straight]

end Line

/-- The instructions of lines. -/
def codeOf (lines : List Line) : List Instruction := lines.map (·.instruction)

@[simp] theorem codeOf_append (first second : List Line) :
    codeOf (first ++ second) = codeOf first ++ codeOf second := List.map_append

@[simp] theorem codeOf_straight (depth : Int) (is : List Instruction) :
    codeOf (Line.straight depth is) = is := Line.map_straight depth is

@[simp] theorem length_codeOf (lines : List Line) : (codeOf lines).length = lines.length :=
  List.length_map _

/-! ## Plans -/

/-- A routine that a program declares, or has as a parameter. -/
structure Routine where
  binding  : BindingId
  transfer : Transfer
  declared : Bool

/-- How bindings are represented, and the routines among them. -/
structure Plan where
  entity   : BindingId → Option Entity
  routines : List Routine

/-- The frame with `n` more words. -/
def Frame.more (frame : Frame) (n : Int) : Frame := ⟨frame.level, frame.size + n⟩

/-- The words on the stack of an index that waits. -/
def Access.pending (access : Access) : Int := if access.indexed then Machine.scalarSize else 0

/-- Turn an index into a distance. -/
def scaleCode (width : Int) : List Instruction :=
  if width ≠ 1 then [.plain .loadL 0 width, .primitive .mult] else []

namespace Entity

/-- The entity is where a value is stored, and not just the value. -/
def IsStored : Entity → Prop
  | unknownValue .. | knownAddress .. | unknownAddress .. => True
  | _ => False

/-- The place is one that `n` words can be fetched from: a known value has one word and no
    parts. -/
def Suits (access : Access) (n : Int) : Entity → Prop
  | knownValue .. => access = {} ∧ n = Machine.scalarSize
  | entity => entity.IsStored

/-- Calling the entity that a binding is represented by takes and leaves so many words. -/
inductive Performs (π : Plan) (id : BindingId) : Entity → Transfer → Prop
  | routine {size address t} :
      ⟨id, t, true⟩ ∈ π.routines → Performs π id (.knownRoutine size address) t
  | closure {size address t} :
      ⟨id, t, false⟩ ∈ π.routines → Performs π id (.unknownRoutine size address) t
  | primitive {p} : ¬ p.IsEquality → Performs π id (.primitiveRoutine p) p.transfer
  | equality {p n} : p.IsEquality → Performs π id (.equalityRoutine p) ⟨2 * n, 1⟩
  | bar : Performs π id .barRoutine ⟨1, 1⟩

/-- The lines of a call with its arguments on the stack above `depth`. -/
def callLines (entity : Entity) (frame : Frame) (t : Transfer) : List Line :=
  match entity with
  | knownRoutine _ address =>
    [⟨⟨.call, Register.cb.number, (frame.register address.level).number, address.displacement⟩,
      frame.size + t.takes, t⟩]
  | unknownRoutine _ address =>
    [⟨address.pushClosureCode frame, frame.size + t.takes, ⟨0, Machine.closureSize⟩⟩,
      ⟨.plain .callI 0 0, frame.size + t.takes + Machine.closureSize,
        ⟨t.takes + Machine.closureSize, t.leaves⟩⟩]
  | primitiveRoutine p =>
    if p = .id then [] else [⟨.primitive p, frame.size + t.takes, t⟩]
  | equalityRoutine p =>
    [⟨.plain .loadL 0 (t.takes.tdiv 2), frame.size + t.takes, ⟨0, 1⟩⟩,
      ⟨.primitive p, frame.size + t.takes + 1, ⟨t.takes + 1, t.leaves⟩⟩]
  | barRoutine => Line.straight (frame.size + t.takes) [.plain .loadL 0 100, .primitive .mult]
  | _ => []

theorem codeOf_callLines (entity : Entity) (frame : Frame) (t : Transfer) :
    codeOf (entity.callLines frame t) = entity.callCode frame t.takes := by
  cases entity with
  | primitiveRoutine p =>
    unfold callLines callCode
    dsimp only
    split <;> rfl
  | _ => rfl

end Entity

/-! ## Rules -/

mutual

/-- The code of a command, which leaves the stack as deep as it was. -/
inductive Command.Code (π : Plan) : Frame → Nat → Command → List Line → Prop
  | empty {F a span} : Command.Code π F a (.empty span) []
  | assign {F a span target value l₁ n l₂ entity access} :
      Expression.Code π F a value l₁ n →
      Vname.Code π (F.more n) (a + l₁.length) target l₂ entity access →
      entity.IsVariable →
      Command.Code π F a (.assign span target value)
        (l₁ ++ (l₂ ++ Line.straight (F.size + n + access.pending)
          (entity.storeCode (F.more n) n access)))
  | call {F a span callee args l id entity t} :
      Actuals.Code π F a args l t.takes →
      callee.binding = some id →
      π.entity id = some entity →
      entity.Performs π id t →
      t.leaves = 0 →
      Command.Code π F a (.call span callee args) (l ++ entity.callLines F t)
  | sequence {F a span first second l₁ l₂} :
      Command.Code π F a first l₁ →
      Command.Code π F (a + l₁.length) second l₂ →
      Command.Code π F a (.sequence span first second) (l₁ ++ l₂)
  | letIn {F a span declared body l₁ extra l₂} :
      Declaration.Code π F a declared l₁ extra →
      Command.Code π (F.more extra) (a + l₁.length) body l₂ →
      Command.Code π F a (.letIn span declared body)
        (l₁ ++ (l₂ ++ Line.release (F.size + extra) 0 extra))
  | ifElse {F a span condition thenBranch elseBranch l₁ l₂ l₃} :
      Expression.Code π F a condition l₁ 1 →
      Command.Code π F (a + l₁.length + 1) thenBranch l₂ →
      Command.Code π F (a + l₁.length + 1 + l₂.length + 1) elseBranch l₃ →
      Command.Code π F a (.ifElse span condition thenBranch elseBranch)
        (l₁ ++ Line.jumpIf Machine.falseRep (a + l₁.length + 1 + l₂.length + 1) (F.size + 1) ::
          (l₂ ++ Line.jump (a + l₁.length + 1 + l₂.length + 1 + l₃.length) F.size :: l₃))
  | whileDo {F a span condition body l₁ l₂} :
      Command.Code π F (a + 1) body l₁ →
      Expression.Code π F (a + 1 + l₁.length) condition l₂ 1 →
      Command.Code π F a (.whileDo span condition body)
        (Line.jump (a + 1 + l₁.length) F.size ::
          (l₁ ++ (l₂ ++ [Line.jumpIf Machine.trueRep (a + 1) (F.size + 1)])))
  | repeatUntil {F a span body condition l₁ l₂} :
      Command.Code π F a body l₁ →
      Expression.Code π F (a + l₁.length) condition l₂ 1 →
      Command.Code π F a (.repeatUntil span body condition)
        (l₁ ++ (l₂ ++ [Line.jumpIf Machine.falseRep a (F.size + 1)]))
  | loopWhile {F a span body condition tail l₁ l₂ l₃} :
      Command.Code π F a body l₁ →
      Expression.Code π F (a + l₁.length) condition l₂ 1 →
      Command.Code π F (a + l₁.length + l₂.length + 1) tail l₃ →
      Command.Code π F a (.loopWhile span body condition tail)
        (l₁ ++ (l₂ ++ Line.jumpIf Machine.falseRep
            (a + l₁.length + l₂.length + 1 + l₃.length + 1) (F.size + 1) ::
          (l₃ ++ [Line.jump a F.size])))

/-- The code of an expression, which pushes `n` words. -/
inductive Expression.Code (π : Plan) : Frame → Nat → Expression → List Line → Int → Prop
  | integer {F a span type literal} :
      Expression.Code π F a (.integer span type literal)
        (Line.straight F.size [.plain .loadL 0 literal.value]) 1
  | character {F a span type literal} :
      Expression.Code π F a (.character span type literal)
        (Line.straight F.size [.plain .loadL 0 literal.value]) 1
  | vname {F a span type found l entity access} :
      Vname.Code π F a found l entity access →
      entity.Suits access type.width →
      Expression.Code π F a (.vname span (some type) found)
        (l ++ Line.straight (F.size + access.pending) (entity.fetchCode F type.width access))
        type.width
  | call {F a span type callee args l id entity t} :
      Actuals.Code π F a args l t.takes →
      callee.binding = some id →
      π.entity id = some entity →
      entity.Performs π id t →
      Expression.Code π F a (.call span type callee args) (l ++ entity.callLines F t) t.leaves
  | ifElse {F a span type condition thenBranch elseBranch l₁ l₂ l₃ n} :
      Expression.Code π F a condition l₁ 1 →
      Expression.Code π F (a + l₁.length + 1) thenBranch l₂ n →
      Expression.Code π F (a + l₁.length + 1 + l₂.length + 1) elseBranch l₃ n →
      Expression.Code π F a (.ifElse span type condition thenBranch elseBranch)
        (l₁ ++ Line.jumpIf Machine.falseRep (a + l₁.length + 1 + l₂.length + 1) (F.size + 1) ::
          (l₂ ++ Line.jump (a + l₁.length + 1 + l₂.length + 1 + l₃.length) (F.size + n) :: l₃)) n
  | letIn {F a span type declared body l₁ extra l₂ n} :
      Declaration.Code π F a declared l₁ extra →
      Expression.Code π (F.more extra) (a + l₁.length) body l₂ n →
      Expression.Code π F a (.letIn span type declared body)
        (l₁ ++ (l₂ ++ Line.release (F.size + extra + n) n extra)) n
  | unary {F a span type operator operand l id entity t} :
      Expression.Code π F a operand l t.takes →
      operator.binding = some id →
      π.entity id = some entity →
      entity.Performs π id t →
      Expression.Code π F a (.unary span type operator operand) (l ++ entity.callLines F t)
        t.leaves
  | binary {F a span type left operator right l₁ n₁ l₂ n₂ id entity t} :
      Expression.Code π F a left l₁ n₁ →
      Expression.Code π (F.more n₁) (a + l₁.length) right l₂ n₂ →
      operator.binding = some id →
      π.entity id = some entity →
      entity.Performs π id t →
      t.takes = n₁ + n₂ →
      Expression.Code π F a (.binary span type left operator right)
        (l₁ ++ (l₂ ++ entity.callLines F t)) t.leaves
  | array {F a span type elements l n} :
      ArrayAggregate.Code π F a elements l n →
      Expression.Code π F a (.array span type elements) l n
  | record {F a span type fields l n} :
      RecordAggregate.Code π F a fields l n →
      Expression.Code π F a (.record span type fields) l n

/-- The code of the elements of an array, which pushes one after the other. -/
inductive ArrayAggregate.Code (π : Plan) : Frame → Nat → ArrayAggregate → List Line → Int → Prop
  | one {F a span element l n} :
      Expression.Code π F a element l n →
      ArrayAggregate.Code π F a (.one span element) l n
  | more {F a span element rest l₁ n₁ l₂ n₂} :
      Expression.Code π F a element l₁ n₁ →
      ArrayAggregate.Code π (F.more n₁) (a + l₁.length) rest l₂ n₂ →
      ArrayAggregate.Code π F a (.more span element rest) (l₁ ++ l₂) (n₁ + n₂)

/-- The code of the fields of a record, which pushes one after the other. -/
inductive RecordAggregate.Code (π : Plan) : Frame → Nat → RecordAggregate → List Line → Int → Prop
  | one {F a span field value l n} :
      Expression.Code π F a value l n →
      RecordAggregate.Code π F a (.one span field value) l n
  | more {F a span field value rest l₁ n₁ l₂ n₂} :
      Expression.Code π F a value l₁ n₁ →
      RecordAggregate.Code π (F.more n₁) (a + l₁.length) rest l₂ n₂ →
      RecordAggregate.Code π F a (.more span field value rest) (l₁ ++ l₂) (n₁ + n₂)

/-- The code of a vname, which pushes the index that its place needs, if it needs one. -/
inductive Vname.Code (π : Plan) : Frame → Nat → Vname → List Line → Entity → Access → Prop
  | simple {F a span type isVariable name id entity} :
      name.binding = some id →
      π.entity id = some entity →
      Vname.Code π F a (.simple span type isVariable name) [] entity {}
  | dot {F a span type isVariable record field l entity access serial recordSpan fields position} :
      Vname.Code π F a record l entity access →
      entity.IsStored →
      record.type = some (.record serial recordSpan fields) →
      fields.position? field.spelling = some position →
      Vname.Code π F a (.dot span type isVariable record field) l entity
        { access with offset := access.offset + position }
  | known {F a span type isVariable array index l entity access value} :
      Vname.Code π F a array l entity access →
      entity.IsStored →
      index.integerValue? = some value →
      Vname.Code π F a (.subscript span (some type) isVariable array index) l entity
        { access with offset := access.offset + value * type.width }
  /-- An index that waits lies under the code of the next one. -/
  | unknown {F a span type isVariable array index l₁ entity access l₂} :
      Vname.Code π F a array l₁ entity access →
      entity.IsStored →
      index.integerValue? = none →
      Expression.Code π (F.more access.pending) (a + l₁.length) index l₂ 1 →
      Vname.Code π F a (.subscript span (some type) isVariable array index)
        (l₁ ++ (l₂ ++ Line.straight (F.size + access.pending + 1)
          (scaleCode type.width ++ access.indexCode)))
        entity { access with indexed := true }

/-- The code of a declaration, which leaves `extra` words of storage on the stack. -/
inductive Declaration.Code (π : Plan) : Frame → Nat → Declaration → List Line → Int → Prop
  | literal {F a span duplicated name value id size known} :
      value.literalValue? = some known →
      name.binding = some id →
      π.entity id = some (.knownValue size known) →
      Declaration.Code π F a (.const span duplicated name value) [] 0
  | const {F a span duplicated name value l n id} :
      value.literalValue? = none →
      Expression.Code π F a value l n →
      0 ≤ n →
      name.binding = some id →
      π.entity id = some (.unknownValue n F.address) →
      Declaration.Code π F a (.const span duplicated name value) l n
  | var {F a span duplicated name type id} :
      0 ≤ type.width →
      name.binding = some id →
      π.entity id = some (.knownAddress Machine.addressSize F.address) →
      Declaration.Code π F a (.var span duplicated name type)
        (Line.straight F.size [.plain .push 0 type.width]) type.width
  | proc {F a span duplicated name parameters body l id} :
      name.binding = some id →
      π.entity id = some (.knownRoutine Machine.closureSize ⟨F.level, (a + 1 : Nat)⟩) →
      Command.Code π (F.push Machine.linkDataSize) (a + 1) body l →
      Declaration.Code π F a (.proc span duplicated name parameters body)
        (Line.jump (a + 1 + l.length + 1) F.size ::
          (l ++ [Line.ret 0 parameters.words Machine.linkDataSize])) 0
  | func {F a span duplicated name parameters result body l id} :
      name.binding = some id →
      π.entity id = some (.knownRoutine Machine.closureSize ⟨F.level, (a + 1 : Nat)⟩) →
      Expression.Code π (F.push Machine.linkDataSize) (a + 1) body l result.size →
      Declaration.Code π F a (.func span duplicated name parameters result body)
        (Line.jump (a + 1 + l.length + 1) F.size ::
          (l ++ [Line.ret result.size parameters.words (Machine.linkDataSize + result.size)])) 0
  | type {F a span duplicated name type} :
      Declaration.Code π F a (.type span duplicated name type) [] 0
  | sequence {F a span first second l₁ n₁ l₂ n₂} :
      Declaration.Code π F a first l₁ n₁ →
      Declaration.Code π (F.more n₁) (a + l₁.length) second l₂ n₂ →
      Declaration.Code π F a (.sequence span first second) (l₁ ++ l₂) (n₁ + n₂)

/-- The code of the arguments of a call, which pushes one after the other. -/
inductive Actuals.Code (π : Plan) : Frame → Nat → Actuals → List Line → Int → Prop
  | empty {F a span} : Actuals.Code π F a (.empty span) [] 0
  | one {F a span first l n} :
      Actual.Code π F a first l n →
      Actuals.Code π F a (.one span first) l n
  | more {F a span first rest l₁ n₁ l₂ n₂} :
      Actual.Code π F a first l₁ n₁ →
      Actuals.Code π (F.more n₁) (a + l₁.length) rest l₂ n₂ →
      Actuals.Code π F a (.more span first rest) (l₁ ++ l₂) (n₁ + n₂)

inductive Actual.Code (π : Plan) : Frame → Nat → Actual → List Line → Int → Prop
  | const {F a span value l n} :
      Expression.Code π F a value l n →
      Actual.Code π F a (.const span value) l n
  | var {F a span found l entity access} :
      Vname.Code π F a found l entity access →
      entity.IsVariable →
      Actual.Code π F a (.var span found)
        (l ++ Line.straight (F.size + access.pending) (entity.addressCode F access))
        Machine.addressSize
  | proc {F a span name id entity} :
      name.binding = some id →
      π.entity id = some entity →
      entity.IsRoutine →
      Actual.Code π F a (.proc span name) (Line.straight F.size (entity.closureCode F))
        Machine.closureSize
  | func {F a span name id entity} :
      name.binding = some id →
      π.entity id = some entity →
      entity.IsRoutine →
      Actual.Code π F a (.func span name) (Line.straight F.size (entity.closureCode F))
        Machine.closureSize

end

end TriangleTam
