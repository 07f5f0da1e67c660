import TriangleTam.Proofs.Coding.Width
import TriangleTam.Standard
import TriangleTam.Tree

/-! # The meaning of programs

  A decorated tree is run big step by big step, from left to right. A
  **value** is a list of words, a variable is a **block** of words, and the
  fields of a record and the elements of an array are consecutive parts of it.
  Declarations allocate blocks, and the end of a `let` releases them.

  What the primitives compute and what the outside answers is a parameter, the
  **interpretation**. Only the equalities are fixed, which compare whole
  blocks, and `id`, which leaves its argument as it is. A run stops with a
  **fault** where a primitive fails, where a subscript is out of bounds, and
  where a word is used that nothing was stored in yet. Loops and calls of
  declared routines use up **fuel**; a run without enough of it is not over.

  Expressions have no effect: they call functions alone, and no function can
  reach a procedure.
-/

namespace TriangleTam

/-! ## Values and the outside -/

/-- A word of storage, if anything was stored there yet. -/
abbrev Cell := Option Int

/-- The words of a value, in order. -/
abbrev Value := List Cell

/-- A call of a routine for input or output: the words given to it, and the word that came
    back. -/
structure Exchange where
  routine : Primitive
  given   : List Int
  answer  : Int
  deriving DecidableEq, Repr

/-- What the primitives do. No result is a fault. -/
structure Interpretation where
  /-- The result of a primitive that computes. -/
  result : Primitive → List Int → Option Int
  /-- What the outside answers to a routine, after what was exchanged before. -/
  answer : List Exchange → Primitive → List Int → Option Int

/-- The variables, by number, and what was exchanged so far. -/
structure World where
  blocks : List Value
  trace  : List Exchange
  deriving DecidableEq, Repr

/-- Why there is no result: a fault, or no fuel to go on. -/
inductive Stop
  | fault
  | timeout
  deriving DecidableEq, Repr

/-- The result of a step that may have none. -/
def orFault {α : Type} : Option α → Except Stop α
  | some a => .ok a
  | none => .error .fault

/-- The word of a value that is one word. -/
def Value.word? : Value → Option Int
  | [some word] => some word
  | _ => none

/-- The words of a value whose words are all there. -/
def Value.words? (value : Value) : Option (List Int) := value.mapM id

/-- The words of a truth value. -/
def Machine.truth (b : Bool) : Int := if b then trueRep else falseRep

/-- The truth value of a word, if it stands for one. -/
def Machine.truth? (word : Int) : Option Bool :=
  if word = trueRep then some true else if word = falseRep then some false else none

/-! ## Places -/

/-- `n` words from an offset on, if they all lie in the value. -/
def Value.slice? (value : Value) (offset n : Int) : Option Value :=
  if 0 ≤ offset ∧ 0 ≤ n ∧ offset + n ≤ value.length then
    some ((value.drop offset.toNat).take n.toNat)
  else none

/-- The value with a part replaced from an offset on, if the part lies in the value. -/
def Value.splice? (value : Value) (offset : Int) (part : Value) : Option Value :=
  if 0 ≤ offset ∧ offset + part.length ≤ value.length then
    some (value.take offset.toNat ++ part ++ value.drop (offset.toNat + part.length))
  else none

/-- What has parts: a value, or the block of a variable. -/
inductive Base
  | constant (value : Value)
  | block (number : Nat)
  deriving DecidableEq, Repr

/-- A part of a value or of a variable, by its first word. -/
structure Place where
  base   : Base
  offset : Int
  deriving DecidableEq, Repr

namespace World

/-- The world before a program runs. -/
def empty : World := ⟨[], []⟩

/-- The world with one more variable, of `n` words. -/
def allocate (w : World) (n : Int) : World :=
  { w with blocks := w.blocks ++ [List.replicate n.toNat none] }

/-- The world with the first `n` variables alone. -/
def release (w : World) (n : Nat) : World := { w with blocks := w.blocks.take n }

/-- The words of a base. -/
def contents? (w : World) : Base → Option Value
  | .constant value => some value
  | .block number => w.blocks[number]?

/-- The value of `n` words at a place. -/
def fetch? (w : World) (place : Place) (n : Int) : Option Value := do
  (← w.contents? place.base).slice? place.offset n

/-- The world with a value stored at a place of a variable. -/
def store? (w : World) (place : Place) (value : Value) : Option World :=
  match place.base with
  | .constant _ => none
  | .block number => do
    let contents ← (← w.blocks[number]?).splice? place.offset value
    return { w with blocks := w.blocks.set number contents }

end World

/-! ## What names mean -/

mutual

/-- What a name means where it is used. A routine keeps the scene of its declaration. -/
inductive Meaning
  | place (place : Place)
  | primitive (primitive : Primitive)
  | procedure (id : BindingId) (formals : Formals) (body : Command) (scene : Scene)
  | function (id : BindingId) (formals : Formals) (body : Expression) (scene : Scene)

/-- What the bindings mean that the program has made so far, the last first. -/
inductive Scene
  | standard
  | more (id : BindingId) (meaning : Meaning) (others : Scene)

end

/-- The value of a constant or of a parameter. -/
def Meaning.value (value : Value) : Meaning := .place ⟨.constant value, 0⟩

/-- What a standard declaration means. Operators are not used through their meaning. -/
def Standard.Representation.meaning? : Standard.Representation → Option Meaning
  | .value word => some (.value [some word])
  | .primitive p => some (.primitive p)
  | .type | .equality _ | .bar => none

namespace Scene

/-- What a binding means. -/
def find? : Scene → BindingId → Option Meaning
  | standard, id => do (← Standard.declaration? id).representation.meaning?
  | more id meaning others, id' => if id = id' then some meaning else others.find? id'

/-- What the binding of a name means. -/
def meaning? (scene : Scene) (name : Name) : Option Meaning := do scene.find? (← name.binding)

/-- The scene with a meaning for the binding of a name. -/
def bind? (scene : Scene) (name : Name) (meaning : Meaning) : Option Scene := do
  return .more (← name.binding) meaning scene

/-- The scene with the arguments of a call for the parameters. -/
def bindAll? (scene : Scene) : Formals → List Meaning → Option Scene
  | .empty _, [] => some scene
  | .one _ formal, [argument] => scene.bind? formal.name argument
  | .more _ formal rest, argument :: arguments => do
    (← scene.bind? formal.name argument).bindAll? rest arguments
  | _, _ => none

end Scene

/-! ## Primitives -/

namespace Interpretation

/-- The value of a function of the machine. The questions about the input change nothing. -/
def apply (I : Interpretation) (p : Primitive) (arguments : List Meaning) (w : World) :
    Option Value :=
  match arguments with
  | [] =>
    if p = .eol ∨ p = .eof then do return [some (← I.answer w.trace p [])]
    else none
  | [.place argument] =>
    if p = .id then w.fetch? argument 1
    else do return [some (← I.result p [← (← w.fetch? argument 1).word?])]
  | _ => none

/-- An exchange with the outside: the answer, and the world after it. -/
def exchange (I : Interpretation) (p : Primitive) (given : List Int) (w : World) :
    Option (Int × World) := do
  let answer ← I.answer w.trace p given
  return (answer, { w with trace := w.trace ++ [⟨p, given, answer⟩] })

/-- The world after a procedure of the machine. -/
def perform (I : Interpretation) (p : Primitive) (arguments : List Meaning) (w : World) :
    Option World :=
  match arguments with
  | [] =>
    if p = .geteol ∨ p = .puteol then do
      let (_, w) ← I.exchange p [] w
      return w
    else none
  | [.place argument] =>
    if p = .get ∨ p = .getint then do
      let (answer, w) ← I.exchange p [] w
      w.store? argument [some answer]
    else if p = .put ∨ p = .putint then do
      let (_, w) ← I.exchange p [← (← w.fetch? argument 1).word?] w
      return w
    else none
  | _ => none

/-- Whether an equality holds between two values. -/
def compare? (p : Primitive) (left right : Value) : Option Bool := do
  let left ← left.words?
  let right ← right.words?
  if left.length ≠ right.length then none
  else match p with
    | .eq => some (left = right)
    | .ne => some (left ≠ right)
    | _ => none

/-- The value of a unary operator. -/
def unary (I : Interpretation) (operator : Name) (operand : Value) : Option Value := do
  match (← Standard.declaration? (← operator.binding)).representation with
  | .primitive p => return [some (← I.result p [← operand.word?])]
  | .bar => return [some (← I.result .mult [← operand.word?, 100])]
  | _ => none

/-- The value of a binary operator. -/
def binary (I : Interpretation) (operator : Name) (left right : Value) : Option Value := do
  match (← Standard.declaration? (← operator.binding)).representation with
  | .primitive p => return [some (← I.result p [← left.word?, ← right.word?])]
  | .equality p => return [some (Machine.truth (← compare? p left right))]
  | _ => none

end Interpretation

/-! ## Expressions -/

/-- How functions of the program are applied. -/
abbrev Application := Meaning → List Meaning → World → Except Stop Value

/-- The value of a function. -/
def Meaning.apply (I : Interpretation) (application : Application) (meaning : Meaning)
    (arguments : List Meaning) (w : World) : Except Stop Value :=
  match meaning with
  | .primitive p => orFault (I.apply p arguments w)
  | meaning => application meaning arguments w

/-- The truth value of a condition. -/
def Value.truth (value : Value) : Except Stop Bool :=
  orFault do Machine.truth? (← value.word?)

mutual

/-- The value of an expression. -/
def Expression.eval (I : Interpretation) (application : Application) (scene : Scene) (w : World) :
    Expression → Except Stop Value
  | .integer _ _ literal => .ok [some literal.value]
  | .character _ _ literal => .ok [some literal.value]
  | .vname _ type found => do
    let place ← found.locate I application scene w
    orFault (w.fetch? place (← orFault type).width)
  | .call _ _ callee args => do
    let arguments ← args.eval I application scene w
    (← orFault (scene.meaning? callee)).apply I application arguments w
  | .ifElse _ _ condition thenBranch elseBranch => do
    if ← (← condition.eval I application scene w).truth then
      thenBranch.eval I application scene w
    else elseBranch.eval I application scene w
  | .letIn _ _ declared body => do
    let (scene, w) ← declared.elaborate I application scene w
    body.eval I application scene w
  | .unary _ _ operator operand => do
    let operand ← operand.eval I application scene w
    orFault (I.unary operator operand)
  | .binary _ _ left operator right => do
    let left ← left.eval I application scene w
    let right ← right.eval I application scene w
    orFault (I.binary operator left right)
  | .array _ _ elements => elements.eval I application scene w
  | .record _ _ fields => fields.eval I application scene w

/-- The elements of an array, one after the other. -/
def ArrayAggregate.eval (I : Interpretation) (application : Application) (scene : Scene)
    (w : World) : ArrayAggregate → Except Stop Value
  | .one _ element => element.eval I application scene w
  | .more _ element rest => do
    let element ← element.eval I application scene w
    let rest ← rest.eval I application scene w
    return element ++ rest

/-- The fields of a record, one after the other. -/
def RecordAggregate.eval (I : Interpretation) (application : Application) (scene : Scene)
    (w : World) : RecordAggregate → Except Stop Value
  | .one _ _ value => value.eval I application scene w
  | .more _ _ value rest => do
    let value ← value.eval I application scene w
    let rest ← rest.eval I application scene w
    return value ++ rest

/-- The place that a vname stands for. A subscript has to be in the bounds of its array. -/
def Vname.locate (I : Interpretation) (application : Application) (scene : Scene) (w : World) :
    Vname → Except Stop Place
  | .simple _ _ _ name =>
    match scene.meaning? name with
    | some (.place place) => .ok place
    | _ => .error .fault
  | .dot _ _ _ record field => do
    let place ← record.locate I application scene w
    match record.type with
    | some (.record _ _ fields) =>
      return { place with offset := place.offset + (← orFault (fields.position? field.spelling)) }
    | _ => .error .fault
  | .subscript _ _ _ array index => do
    let place ← array.locate I application scene w
    let index ← orFault (← index.eval I application scene w).word?
    match array.type with
    | some (.array _ _ length element) =>
      if 0 ≤ index ∧ index < length.value then
        return { place with offset := place.offset + index * element.width }
      else .error .fault
    | _ => .error .fault

/-- The scene and the world that declarations leave. -/
def Declaration.elaborate (I : Interpretation) (application : Application) (scene : Scene)
    (w : World) : Declaration → Except Stop (Scene × World)
  | .const _ _ name value => do
    let value ← value.eval I application scene w
    return (← orFault (scene.bind? name (.value value)), w)
  | .var _ _ name type => do
    return (← orFault (scene.bind? name (.place ⟨.block w.blocks.length, 0⟩)),
      w.allocate type.width)
  | .proc _ _ name formals body => do
    let id ← orFault name.binding
    return (.more id (.procedure id formals body scene) scene, w)
  | .func _ _ name formals _ body => do
    let id ← orFault name.binding
    return (.more id (.function id formals body scene) scene, w)
  | .type .. => .ok (scene, w)
  | .sequence _ first second => do
    let (scene, w) ← first.elaborate I application scene w
    second.elaborate I application scene w

/-- What the parameters of a call will mean. -/
def Actuals.eval (I : Interpretation) (application : Application) (scene : Scene) (w : World) :
    Actuals → Except Stop (List Meaning)
  | .empty _ => .ok []
  | .one _ first => do return [← first.eval I application scene w]
  | .more _ first rest => do
    let first ← first.eval I application scene w
    let rest ← rest.eval I application scene w
    return first :: rest

def Actual.eval (I : Interpretation) (application : Application) (scene : Scene) (w : World) :
    Actual → Except Stop Meaning
  | .const _ value => do return .value (← value.eval I application scene w)
  | .var _ found => do return .place (← found.locate I application scene w)
  | .proc _ name | .func _ name => orFault (scene.meaning? name)

end

attribute [simp] Expression.eval ArrayAggregate.eval RecordAggregate.eval Vname.locate
  Declaration.elaborate Actuals.eval Actual.eval

/-! ## Commands -/

/-- A step that changes the world. The world is there also when the step does not end. -/
abbrev Run := ExceptT Stop (StateM World)

namespace Run

/-- How a step ends, and the world then. -/
def exec {α : Type} (m : Run α) (w : World) : Except Stop α × World := m.run.run w

/-- What is found out about the world without a change of it. -/
def ask {α : Type} (question : World → Except Stop α) : Run α := do
  question (← get)

/-- A change of the world that may fail. -/
def change (f : World → Option World) : Run Unit := do
  set (← ask fun w => orFault (f w))

/-- Repeat a body while a test holds. Each test uses up fuel. -/
def iterate (test : Run Bool) (body : Run Unit) : Nat → Run Unit
  | 0 => throw .timeout
  | fuel + 1 => do
    if ← test then
      body
      iterate test body fuel

end Run

/-- How routines of the program are called, and the fuel for loops. -/
structure Callees where
  fuel    : Nat
  apply   : Application
  perform : Meaning → List Meaning → Run Unit

/-- Call a procedure. -/
def Meaning.perform (I : Interpretation) (callees : Callees) (meaning : Meaning)
    (arguments : List Meaning) : Run Unit :=
  match meaning with
  | .primitive p => Run.change (I.perform p arguments)
  | meaning => callees.perform meaning arguments

/-- The truth value of a condition. -/
def Expression.test (I : Interpretation) (callees : Callees) (scene : Scene)
    (condition : Expression) : Run Bool :=
  Run.ask fun w => do (← condition.eval I callees.apply scene w).truth

/-- Run a command. -/
def Command.perform (I : Interpretation) (callees : Callees) (scene : Scene) : Command → Run Unit
  | .empty _ => return
  | .assign _ target value => do
    let place ← Run.ask (target.locate I callees.apply scene)
    let value ← Run.ask fun w => value.eval I callees.apply scene w
    Run.change fun w => w.store? place value
  | .call _ callee args => do
    let arguments ← Run.ask fun w => args.eval I callees.apply scene w
    let meaning ← orFault (scene.meaning? callee)
    meaning.perform I callees arguments
  | .sequence _ first second => do
    first.perform I callees scene
    second.perform I callees scene
  | .letIn _ declared body => do
    let before ← get
    let (scene, w) ← declared.elaborate I callees.apply scene before
    set w
    body.perform I callees scene
    modify fun w => w.release before.blocks.length
  | .ifElse _ condition thenBranch elseBranch => do
    if ← condition.test I callees scene then thenBranch.perform I callees scene
    else elseBranch.perform I callees scene
  | .whileDo _ condition body =>
    Run.iterate (condition.test I callees scene) (body.perform I callees scene) callees.fuel
  | .repeatUntil _ body condition => do
    body.perform I callees scene
    Run.iterate (do return !(← condition.test I callees scene)) (body.perform I callees scene)
      callees.fuel
  | .loopWhile _ body condition tail => do
    body.perform I callees scene
    Run.iterate (condition.test I callees scene)
      (do tail.perform I callees scene; body.perform I callees scene) callees.fuel

attribute [simp] Command.perform

/-! ## Routines and programs -/

/-- Apply a function of the program. Its body sees the function itself. -/
def applyWith (I : Interpretation) : Nat → Application
  | 0, _, _, _ => .error .timeout
  | fuel + 1, .function id formals body scene, arguments, w => do
    let self := Scene.more id (.function id formals body scene) scene
    body.eval I (applyWith I fuel) (← orFault (self.bindAll? formals arguments)) w
  | _ + 1, _, _, _ => .error .fault

/-- Call a procedure of the program. Its body sees the procedure itself. -/
def performWith (I : Interpretation) : Nat → Meaning → List Meaning → Run Unit
  | 0, _, _ => throw .timeout
  | fuel + 1, .procedure id formals body scene, arguments => do
    let self := Scene.more id (.procedure id formals body scene) scene
    body.perform I ⟨fuel, applyWith I fuel, performWith I fuel⟩
      (← orFault (self.bindAll? formals arguments))
  | _ + 1, _, _ => throw .fault

/-- How the routines of a program are called with some fuel. -/
def Interpretation.callees (I : Interpretation) (fuel : Nat) : Callees :=
  ⟨fuel, applyWith I fuel, performWith I fuel⟩

/-- How a program ends that is run with some fuel, and the world then. -/
def Program.run (program : Program) (I : Interpretation) (fuel : Nat) : Except Stop Unit × World :=
  (program.command.perform I (I.callees fuel) .standard).exec .empty

end TriangleTam
