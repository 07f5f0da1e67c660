import TriangleTam.Proofs.Coding.Calls
import TriangleTam.Proofs.Typing.Table

/-! # Visits of the encoder

  What stands in scope where the encoder is called is not in its frame. A
  **visit** is a call of the encoder together with the **items** in scope there:
  the declarations and the parameters, and the standard declarations around
  them. The visits of a run come one from the other. Each phrase has parts, and
  to reach a part the encoder does what comes before it.
-/

namespace TriangleTam

/-! ## Items -/

/-- What a name in scope was introduced by. -/
inductive Item
  | standard (declaration : StandardDeclaration) (id : BindingId)
  | declared (declaration : Declaration)
  | parameter (formal : Formal)

namespace Declaration

/-- The name that a single declaration introduces, and what it stands for. -/
def introduces : Declaration → Option (Name × BindingKind)
  | .const _ _ name value => value.type.map fun denoter => (name, .const denoter)
  | .var _ _ name denoter => some (name, .var denoter)
  | .proc _ _ name parameters _ => some (name, .proc parameters.shapes)
  | .func _ _ name parameters result _ => some (name, .func parameters.shapes result)
  | .type _ _ name denoter => some (name, .type denoter)
  | .sequence .. => none

/-- The declaration is one of a routine. -/
def IsRoutine : Declaration → Prop
  | .proc .. | .func .. => True
  | .const .. | .var .. | .type .. | .sequence .. => False

/-- The items of a declaration, newest first. -/
def items : Declaration → List Item
  | .sequence _ first second => second.items ++ first.items
  | single => [.declared single]

end Declaration

/-- The items of parameters, newest first. -/
def Formals.items : Formals → List Item
  | .empty _ => []
  | .one _ first => [.parameter first]
  | .more _ first rest => rest.items ++ [.parameter first]

/-- The entry of an environment that the item makes. -/
def Item.entered? : Item → Option Env.Entry
  | .standard declaration id => some (declaration.name, id, declaration.shape.kind)
  | .declared declaration => do
    let (name, kind) ← declaration.introduces
    let id ← name.binding
    return (name.spelling, id, kind)
  | .parameter formal => formal.name.binding.map fun id =>
    (formal.name.spelling, id, formal.shape.kind)

/-- The binding of the item's name. -/
def Item.binding? (item : Item) : Option BindingId := item.entered?.map fun entry => entry.2.1

/-- The items in scope, newest first, and the words of the parameters of the routine whose body
    this is. -/
structure Context where
  items     : List Item
  arguments : Int

/-- The context of a program. -/
def Context.standard : Context :=
  ⟨(Standard.declarations.zipIdx.map fun (declaration, id) => .standard declaration id).reverse, 0⟩

/-! ## Parts -/

/-- How the context of a part comes of the context of its phrase. -/
inductive Opening
  | same
  /-- The part follows a declaration that is made for it. -/
  | after (declaration : Declaration)
  /-- The part is the body of a routine, which sees the routine and its parameters. -/
  | body (routine : Declaration) (parameters : Formals)

namespace Opening

/-- The items that are new in the part. -/
def items : Opening → List Item
  | same => []
  | after declaration => declaration.items
  | body routine parameters => parameters.items ++ [.declared routine]

def arguments : Opening → Int → Int
  | body _ parameters, _ => parameters.words
  | same, outer | after _, outer => outer

def context (opening : Opening) (outer : Context) : Context :=
  ⟨opening.items ++ outer.items, opening.arguments outer.arguments⟩

end Opening

/-- A phrase inside of another one. -/
structure Part where
  phrase  : Phrase
  opening : Opening
  /-- What the encoder does before it encodes the part, in the frame of the whole phrase. Returns
      the frame of the part. -/
  reach   : Frame → Encode Frame
  /-- The part is left out in some frames. -/
  meets   : Frame → Prop

namespace Part

/-- A part that sees what its phrase sees. -/
def inside (phrase : Phrase) (reach : Frame → Encode Frame) : Part :=
  ⟨phrase, .same, reach, fun _ => True⟩

/-- A part that the encoder starts with. -/
def first (phrase : Phrase) : Part := inside phrase pure

end Part

open Encode

/-- What the encoder does before the body of a routine. -/
def Encode.enterBody (name : Name) (parameters : Formals) (frame : Frame) : Encode Frame := do
  let _ ← emitForward .jump 0
  bind name (.knownRoutine Machine.closureSize ⟨frame.level, ← next⟩)
  let _ ← formals parameters (frame.push 0)
  return frame.push Machine.linkDataSize

/-- The body of a routine, which is left out where routines are nested too deeply. -/
def Part.bodyOf (routine : Declaration) (name : Name) (parameters : Formals) (phrase : Phrase) :
    Part :=
  ⟨phrase, .body routine parameters, enterBody name parameters,
    fun frame => frame.level < Machine.maxRoutineLevel⟩

/-- A condition, and the branches that depend on it. -/
def Part.branches (condition : Expression) (thenPhrase elsePhrase : Phrase)
    (encodeThen : Frame → Encode Unit) : List Part :=
  [.first (.expression condition),
    .inside thenPhrase fun frame => do
      let _ ← expression condition frame
      let _ ← emitForward .jumpIf Machine.falseRep
      return frame,
    .inside elsePhrase fun frame => do
      let _ ← expression condition frame
      let toElse ← emitForward .jumpIf Machine.falseRep
      encodeThen frame
      let _ ← emitForward .jump 0
      patch toElse
      return frame]

/-- Two phrases in a row, the second above what the first leaves. -/
def Part.pair (first second : Phrase) (opening : Opening) : List Part :=
  [.first first,
    ⟨second, opening, fun frame => do grow frame (← first.encode frame), fun _ => True⟩]

/-- The type of an expression is laid out before anything else. -/
def Part.sized (type : Option TypeDenoter) (span : Span) (part : Part) : Part :=
  { part with reach := fun frame => do
      let _ ← sizeOf? type span
      part.reach frame }

def Command.parts : Command → List Part
  | .empty _ => []
  | .assign _ target value => Part.pair (.expression value) (.vname target) .same
  | .call _ _ args => [.first (.actuals args)]
  | .sequence _ first second =>
    [.first (.command first),
      .inside (.command second) fun frame => do
        command first frame
        return frame]
  | .letIn _ declared body =>
    Part.pair (.declaration declared) (.command body) (.after declared)
  | .ifElse _ condition thenBranch elseBranch =>
    Part.branches condition (.command thenBranch) (.command elseBranch) (command thenBranch)
  | .whileDo _ condition body =>
    [.inside (.command body) fun frame => do
        let _ ← emitForward .jump 0
        return frame,
      .inside (.expression condition) fun frame => do
        let toTest ← emitForward .jump 0
        command body frame
        patch toTest
        return frame]
  | .repeatUntil _ body condition =>
    [.first (.command body),
      .inside (.expression condition) fun frame => do
        command body frame
        return frame]
  | .loopWhile _ body condition tail =>
    [.first (.command body),
      .inside (.expression condition) fun frame => do
        command body frame
        return frame,
      .inside (.command tail) fun frame => do
        command body frame
        let _ ← expression condition frame
        let _ ← emitForward .jumpIf Machine.falseRep
        return frame]

def Expression.parts : Expression → List Part
  | .integer .. | .character .. => []
  | .vname span type found => [(Part.first (.vname found)).sized type span]
  | .call span type _ args => [(Part.first (.actuals args)).sized type span]
  | .ifElse span type condition thenBranch elseBranch =>
    (Part.branches condition (.expression thenBranch) (.expression elseBranch) fun frame => do
      let _ ← expression thenBranch frame).map (Part.sized type span)
  | .letIn span type declared body =>
    (Part.pair (.declaration declared) (.expression body) (.after declared)).map
      (Part.sized type span)
  | .unary span type _ operand => [(Part.first (.expression operand)).sized type span]
  | .binary span type left _ right =>
    (Part.pair (.expression left) (.expression right) .same).map (Part.sized type span)
  | .array span type elements => [(Part.first (.arrayAggregate elements)).sized type span]
  | .record span type fields => [(Part.first (.recordAggregate fields)).sized type span]

def ArrayAggregate.parts : ArrayAggregate → List Part
  | .one _ element => [.first (.expression element)]
  | .more _ element rest => Part.pair (.expression element) (.arrayAggregate rest) .same

def RecordAggregate.parts : RecordAggregate → List Part
  | .one _ _ value => [.first (.expression value)]
  | .more _ _ value rest => Part.pair (.expression value) (.recordAggregate rest) .same

def Vname.parts : Vname → List Part
  | .simple .. => []
  | .dot _ _ _ record _ => [.first (.vname record)]
  | .subscript span type _ array index =>
    .first (.vname array) ::
      if index.integerValue?.isSome then []
      else [.inside (.expression index) fun frame => do
        let found ← place array frame
        let _ ← sizeOf? type span
        indexFrame frame found.2]

def Declaration.parts : Declaration → List Part
  | .const _ _ _ value =>
    if value.literalValue?.isSome then [] else [.first (.expression value)]
  | .var .. | .type .. => []
  | .proc span duplicated name parameters body =>
    [.bodyOf (.proc span duplicated name parameters body) name parameters (.command body)]
  | .func span duplicated name parameters result body =>
    [.bodyOf (.func span duplicated name parameters result body) name parameters
      (.expression body)]
  | .sequence _ first second =>
    Part.pair (.declaration first) (.declaration second) (.after first)

def Actuals.parts : Actuals → List Part
  | .empty _ => []
  | .one _ first => [.first (.actual first)]
  | .more _ first rest => Part.pair (.actual first) (.actuals rest) .same

def Actual.parts : Actual → List Part
  | .const _ value => [.first (.expression value)]
  | .var _ found => [.first (.vname found)]
  | .proc .. | .func .. => []

/-- The parts of a phrase, in the order in which they are encoded. -/
def Phrase.parts : Phrase → List Part
  | .command phrase => phrase.parts
  | .expression phrase => phrase.parts
  | .arrayAggregate phrase => phrase.parts
  | .recordAggregate phrase => phrase.parts
  | .vname phrase => phrase.parts
  | .declaration phrase => phrase.parts
  | .actuals phrase => phrase.parts
  | .actual phrase => phrase.parts

/-! ## Visits -/

/-- A call of the encoder, and what is in scope there. -/
structure Visit where
  context : Context
  call    : Call

/-- From one visit the encoder comes to another, which it encodes in the course of the first. -/
inductive Visit.Leads (start : Visit) : Visit → Prop
  | refl : Leads start start
  | part {visit part frame s} :
      Leads start visit → part ∈ visit.call.phrase.parts → part.meets visit.call.frame →
      (part.reach visit.call.frame).exec visit.call.encoder = (.ok frame, s) →
      Leads start ⟨part.opening.context visit.context, ⟨part.phrase, frame, s⟩⟩

end TriangleTam
