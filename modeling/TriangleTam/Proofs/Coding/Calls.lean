import TriangleTam.Proofs.Coding.Depths
import TriangleTam.Proofs.Coding.Runs

/-! # Calls of the encoder

  Encoding walks over the **phrases** of a tree. A **call** is a phrase with
  the frame it is encoded in and the encoder that is met there; the calls of a
  run are listed in order, the call for a phrase before those for its parts.

  Lines are written from one encoder to another when the code of the second is
  that of the first with the lines behind it. A call is **placed** in the lines
  when the depths of the stack where its code starts and where it ends are the
  size of its frame, without and with the words it leaves, and control comes
  out of its code at the end alone.
-/

namespace TriangleTam

/-! ## Phrases -/

/-- A part of a tree that the encoder is called for. -/
inductive Phrase
  | command (command : Command)
  | expression (expression : Expression)
  | arrayAggregate (elements : ArrayAggregate)
  | recordAggregate (fields : RecordAggregate)
  | vname (vname : Vname)
  | declaration (declaration : Declaration)
  | actuals (actuals : Actuals)
  | actual (actual : Actual)

namespace Phrase

/-- Encode the phrase. Returns the words that its code leaves on the stack: of a vname the
    index that waits, of a declaration its storage. -/
def encode : Phrase → Frame → Encode Int
  | .command phrase, frame => do
    Encode.command phrase frame
    return 0
  | .expression phrase, frame => Encode.expression phrase frame
  | .arrayAggregate phrase, frame => Encode.arrayAggregate phrase frame
  | .recordAggregate phrase, frame => Encode.recordAggregate phrase frame
  | .vname phrase, frame => do
    let place ← Encode.place phrase frame
    return place.2.pending
  | .declaration phrase, frame => Encode.declaration phrase frame
  | .actuals phrase, frame => Encode.actuals phrase frame
  | .actual phrase, frame => Encode.actual phrase frame

/-- The words are those of a value of the type that an expression has. -/
def HasSize (words : Int) : Phrase → Prop
  | .expression phrase => ∃ type, phrase.type = some type ∧ words = type.size
  | _ => True

end Phrase

/-! ## Calls -/

/-- A phrase, the frame it is encoded in, and the encoder before it. -/
structure Call where
  phrase  : Phrase
  frame   : Frame
  encoder : Encoder

namespace Encode

/-- The calls after a step that returns. -/
def after {α : Type} (m : Encode α) (s : Encoder) (calls : α → Encoder → List Call) :
    List Call :=
  match m.exec s with
  | (.ok a, s') => calls a s'
  | (.error _, _) => []

theorem after_eq {α : Type} {m : Encode α} {s s' : Encoder} {a : α}
    (h : m.exec s = (.ok a, s')) (calls : α → Encoder → List Call) :
    after m s calls = calls a s' := by
  unfold after
  rw [h]

/-- The frame of an index counts the index that waits. -/
def indexFrame (frame : Frame) (access : Access) : Encode Frame :=
  if access.indexed then grow frame Machine.scalarSize else pure frame

/-- The calls that a routine makes: those for its body. -/
def routineCalls (name : Name) (parameters : Formals) (frame : Frame) (s : Encoder)
    (body : Frame → Encoder → List Call) : List Call :=
  after (emitForward .jump 0) s fun _ s =>
  after next s fun entry s =>
  after (bind name (.knownRoutine Machine.closureSize ⟨frame.level, entry⟩)) s fun _ s =>
  if frame.level ≥ Machine.maxRoutineLevel then []
  else after (formals parameters (frame.push 0)) s fun _ s =>
    body (frame.push Machine.linkDataSize) s

end Encode

/-- A call before the calls that it makes. -/
def Phrase.calls (phrase : Phrase) (frame : Frame) (s : Encoder) (inner : List Call) :
    List Call :=
  ⟨phrase, frame, s⟩ :: inner

section

open Encode (after emitForward patch grow indexFrame routineCalls)

mutual

/-- The calls that encoding a command makes, without its own. -/
def Command.inner (frame : Frame) (s : Encoder) : Command → List Call
  | .empty _ => []
  | .assign _ target value =>
    (Phrase.expression value).calls frame s (value.inner frame s) ++
    after (Encode.expression value frame) s fun size s =>
    after (grow frame size) s fun frame s =>
    (Phrase.vname target).calls frame s (target.inner frame s)
  | .call _ _ args => (Phrase.actuals args).calls frame s (args.inner frame s)
  | .sequence _ first second =>
    (Phrase.command first).calls frame s (first.inner frame s) ++
    after (Encode.command first frame) s fun _ s =>
    (Phrase.command second).calls frame s (second.inner frame s)
  | .letIn _ declared body =>
    (Phrase.declaration declared).calls frame s (declared.inner frame s) ++
    after (Encode.declaration declared frame) s fun extra s =>
    after (grow frame extra) s fun frame s =>
    (Phrase.command body).calls frame s (body.inner frame s)
  | .ifElse _ condition thenBranch elseBranch =>
    (Phrase.expression condition).calls frame s (condition.inner frame s) ++
    after (Encode.expression condition frame) s fun _ s =>
    after (emitForward .jumpIf Machine.falseRep) s fun toElse s =>
    (Phrase.command thenBranch).calls frame s (thenBranch.inner frame s) ++
    after (Encode.command thenBranch frame) s fun _ s =>
    after (emitForward .jump 0) s fun _ s =>
    after (patch toElse) s fun _ s =>
    (Phrase.command elseBranch).calls frame s (elseBranch.inner frame s)
  | .whileDo _ condition body =>
    after (emitForward .jump 0) s fun toTest s =>
    (Phrase.command body).calls frame s (body.inner frame s) ++
    after (Encode.command body frame) s fun _ s =>
    after (patch toTest) s fun _ s =>
    (Phrase.expression condition).calls frame s (condition.inner frame s)
  | .repeatUntil _ body condition =>
    (Phrase.command body).calls frame s (body.inner frame s) ++
    after (Encode.command body frame) s fun _ s =>
    (Phrase.expression condition).calls frame s (condition.inner frame s)
  | .loopWhile _ body condition tail =>
    (Phrase.command body).calls frame s (body.inner frame s) ++
    after (Encode.command body frame) s fun _ s =>
    (Phrase.expression condition).calls frame s (condition.inner frame s) ++
    after (Encode.expression condition frame) s fun _ s =>
    after (emitForward .jumpIf Machine.falseRep) s fun _ s =>
    (Phrase.command tail).calls frame s (tail.inner frame s)

def Expression.inner (frame : Frame) (s : Encoder) : Expression → List Call
  | .integer .. | .character .. => []
  | .vname span type found =>
    after (Encode.sizeOf? type span) s fun _ s =>
    (Phrase.vname found).calls frame s (found.inner frame s)
  | .call span type _ args =>
    after (Encode.sizeOf? type span) s fun _ s =>
    (Phrase.actuals args).calls frame s (args.inner frame s)
  | .ifElse span type condition thenBranch elseBranch =>
    after (Encode.sizeOf? type span) s fun _ s =>
    (Phrase.expression condition).calls frame s (condition.inner frame s) ++
    after (Encode.expression condition frame) s fun _ s =>
    after (emitForward .jumpIf Machine.falseRep) s fun toElse s =>
    (Phrase.expression thenBranch).calls frame s (thenBranch.inner frame s) ++
    after (Encode.expression thenBranch frame) s fun _ s =>
    after (emitForward .jump 0) s fun _ s =>
    after (patch toElse) s fun _ s =>
    (Phrase.expression elseBranch).calls frame s (elseBranch.inner frame s)
  | .letIn span type declared body =>
    after (Encode.sizeOf? type span) s fun _ s =>
    (Phrase.declaration declared).calls frame s (declared.inner frame s) ++
    after (Encode.declaration declared frame) s fun extra s =>
    after (grow frame extra) s fun frame s =>
    (Phrase.expression body).calls frame s (body.inner frame s)
  | .unary span type _ operand =>
    after (Encode.sizeOf? type span) s fun _ s =>
    (Phrase.expression operand).calls frame s (operand.inner frame s)
  | .binary span type left _ right =>
    after (Encode.sizeOf? type span) s fun _ s =>
    (Phrase.expression left).calls frame s (left.inner frame s) ++
    after (Encode.expression left frame) s fun leftSize s =>
    after (grow frame leftSize) s fun frame s =>
    (Phrase.expression right).calls frame s (right.inner frame s)
  | .array span type elements =>
    after (Encode.sizeOf? type span) s fun _ s =>
    (Phrase.arrayAggregate elements).calls frame s (elements.inner frame s)
  | .record span type fields =>
    after (Encode.sizeOf? type span) s fun _ s =>
    (Phrase.recordAggregate fields).calls frame s (fields.inner frame s)

def ArrayAggregate.inner (frame : Frame) (s : Encoder) : ArrayAggregate → List Call
  | .one _ element => (Phrase.expression element).calls frame s (element.inner frame s)
  | .more _ element rest =>
    (Phrase.expression element).calls frame s (element.inner frame s) ++
    after (Encode.expression element frame) s fun size s =>
    after (grow frame size) s fun frame s =>
    (Phrase.arrayAggregate rest).calls frame s (rest.inner frame s)

def RecordAggregate.inner (frame : Frame) (s : Encoder) : RecordAggregate → List Call
  | .one _ _ value => (Phrase.expression value).calls frame s (value.inner frame s)
  | .more _ _ value rest =>
    (Phrase.expression value).calls frame s (value.inner frame s) ++
    after (Encode.expression value frame) s fun size s =>
    after (grow frame size) s fun frame s =>
    (Phrase.recordAggregate rest).calls frame s (rest.inner frame s)

def Vname.inner (frame : Frame) (s : Encoder) : Vname → List Call
  | .simple .. => []
  | .dot _ _ _ record _ => (Phrase.vname record).calls frame s (record.inner frame s)
  | .subscript span type _ array index =>
    (Phrase.vname array).calls frame s (array.inner frame s) ++
    after (Encode.place array frame) s fun place s =>
    after (Encode.sizeOf? type span) s fun _ s =>
    if index.integerValue?.isSome then []
    else after (indexFrame frame place.2) s fun frame s =>
      (Phrase.expression index).calls frame s (index.inner frame s)

def Declaration.inner (frame : Frame) (s : Encoder) : Declaration → List Call
  | .const _ _ _ value =>
    if value.literalValue?.isSome then []
    else (Phrase.expression value).calls frame s (value.inner frame s)
  | .var .. | .type .. => []
  | .proc _ _ name parameters body =>
    routineCalls name parameters frame s fun frame s =>
    (Phrase.command body).calls frame s (body.inner frame s)
  | .func _ _ name parameters _ body =>
    routineCalls name parameters frame s fun frame s =>
    (Phrase.expression body).calls frame s (body.inner frame s)
  | .sequence _ first second =>
    (Phrase.declaration first).calls frame s (first.inner frame s) ++
    after (Encode.declaration first frame) s fun size s =>
    after (grow frame size) s fun frame s =>
    (Phrase.declaration second).calls frame s (second.inner frame s)

def Actuals.inner (frame : Frame) (s : Encoder) : Actuals → List Call
  | .empty _ => []
  | .one _ first => (Phrase.actual first).calls frame s (first.inner frame s)
  | .more _ first rest =>
    (Phrase.actual first).calls frame s (first.inner frame s) ++
    after (Encode.actual first frame) s fun size s =>
    after (grow frame size) s fun frame s =>
    (Phrase.actuals rest).calls frame s (rest.inner frame s)

def Actual.inner (frame : Frame) (s : Encoder) : Actual → List Call
  | .const _ value => (Phrase.expression value).calls frame s (value.inner frame s)
  | .var _ found => (Phrase.vname found).calls frame s (found.inner frame s)
  | .proc .. | .func .. => []

end

end

/-! ## Placed calls -/

/-- The call has returned the words it leaves, and its code stands in the lines that start at
    `base`, from place `i` to place `j`, where the depths of the stack before and after it are as
    the frame says. -/
structure Call.PlacedFrom (base : Nat) (lines : List Line) (exit : Int) (call : Call)
    (words : Int) (s' : Encoder) (i j : Nat) : Prop where
  returns : (call.phrase.encode call.frame).exec call.encoder = (.ok words, s')
  size    : call.phrase.HasSize words
  start   : call.encoder.start = base + i
  finish  : s'.start = base + j
  order   : i ≤ j
  bound   : j ≤ lines.length
  entry   : Line.depthAt lines exit i = call.frame.size
  exit    : Line.depthAt lines exit j = call.frame.size + words
  /-- From inside of the code control goes on inside, or comes out at the end. -/
  inside  : ∀ k line a', i ≤ k → k < j → lines[k]? = some line →
    line.instruction.Goes (base + k) a' → ∃ k', i ≤ k' ∧ k' ≤ j ∧ a' = base + k'

def Call.Placed (base : Nat) (lines : List Line) (exit : Int) (call : Call) : Prop :=
  ∃ words s' i j, call.PlacedFrom base lines exit words s' i j

namespace Call.Placed

variable {base : Nat} {first second : List Line} {middle exit : Int} {call : Call}

theorem append_left (h : call.Placed base first middle) (hentry : Line.depthAt second exit 0 = middle) :
    call.Placed base (first ++ second) exit := by
  obtain ⟨words, s', i, j, hplaced⟩ := h
  have hj := hplaced.bound
  have hi := Nat.le_trans hplaced.order hj
  refine ⟨words, s', i, j, hplaced.returns, hplaced.size, hplaced.start, hplaced.finish,
    hplaced.order, ?_, ?_, ?_, ?_⟩
  · rw [List.length_append]
    exact Nat.le_add_right_of_le hj
  · rw [Line.depthAt_append_left hentry hi, hplaced.entry]
  · rw [Line.depthAt_append_left hentry hj, hplaced.exit]
  · intro k line a' hik hkj hline
    rw [List.getElem?_append_left (Nat.lt_of_lt_of_le hkj hj)] at hline
    exact hplaced.inside k line a' hik hkj hline

theorem append_right (h : call.Placed (base + first.length) second exit) :
    call.Placed base (first ++ second) exit := by
  obtain ⟨words, s', i, j, hplaced⟩ := h
  refine ⟨words, s', first.length + i, first.length + j, hplaced.returns, hplaced.size, ?_, ?_,
    Nat.add_le_add_left hplaced.order _, ?_, ?_, ?_, ?_⟩
  · rw [hplaced.start, Nat.add_assoc]
  · rw [hplaced.finish, Nat.add_assoc]
  · rw [List.length_append]
    exact Nat.add_le_add_left hplaced.bound _
  · rw [Line.depthAt_append_right, hplaced.entry]
  · rw [Line.depthAt_append_right, hplaced.exit]
  · intro k line a' hik hkj hline hgoes
    obtain ⟨m, rfl⟩ : ∃ m, k = first.length + m := ⟨k - first.length, by omega⟩
    rw [List.getElem?_append_right (Nat.le_add_right _ _), Nat.add_sub_cancel_left] at hline
    rw [← Nat.add_assoc] at hgoes
    obtain ⟨m', him', hm'j, rfl⟩ := hplaced.inside m line a' (by omega) (by omega) hline hgoes
    exact ⟨first.length + m', by omega, by omega, Nat.add_assoc _ _ _⟩

theorem cons {line : Line} (h : call.Placed (base + 1) second exit) :
    call.Placed base (line :: second) exit := by
  rw [← List.singleton_append]
  exact append_right h

end Call.Placed

/-! ## Written lines -/

/-- From `s` to `s'` the lines were written, with a stack that is `entry` deep before and `exit`
    deep after them, and the calls are placed in them. -/
structure Encoder.Wrote (s s' : Encoder) (calls : List Call) (entry exit : Int)
    (lines : List Line) : Prop where
  code  : s'.emitter.code.toList = s.emitter.code.toList ++ codeOf lines
  entry : Line.depthAt lines exit 0 = entry
  calls : ∀ call ∈ calls, call.Placed s.start lines exit

namespace Encoder.Wrote

variable {s s₁ s₂ : Encoder} {calls calls' : List Call} {entry middle exit : Int}
  {lines lines' : List Line}

theorem start_eq (h : s.Wrote s₁ calls entry exit lines) : s₁.start = s.start + lines.length := by
  have hlength := congrArg List.length h.code
  rwa [List.length_append, length_codeOf] at hlength

/-- Instructions that make no call. -/
theorem of_writes {code : List Instruction} (h : s.Writes s₁ code) (hquiet : s₁.Quiet)
    (hlines : codeOf lines = code) (hentry : Line.depthAt lines exit 0 = entry) :
    s.Wrote s₁ [] entry exit lines :=
  ⟨by rw [hlines]; exact h hquiet, hentry, by simp⟩

/-- Nothing was written. -/
theorem nil (h : s.Writes s₁ []) (hquiet : s₁.Quiet) (depth : Int) :
    s.Wrote s₁ [] depth depth [] :=
  of_writes h hquiet rfl rfl

theorem append (h : s.Wrote s₁ calls entry middle lines)
    (h' : s₁.Wrote s₂ calls' middle exit lines') :
    s.Wrote s₂ (calls ++ calls') entry exit (lines ++ lines') := by
  refine ⟨?_, ?_, ?_⟩
  · rw [h'.code, h.code, codeOf_append, List.append_assoc]
  · rw [Line.depthAt_append_left h'.entry (Nat.zero_le _), h.entry]
  · intro call hmem
    rcases List.mem_append.1 hmem with hmem | hmem
    · exact (h.calls call hmem).append_left h'.entry
    · have hplaced := h'.calls call hmem
      rw [h.start_eq] at hplaced
      exact hplaced.append_right

/-- What writes nothing may come first. -/
theorem after_nil (h : s.Writes s₁ []) (hquiet : s₁.Quiet)
    (h' : s₁.Wrote s₂ calls entry exit lines) : s.Wrote s₂ calls entry exit lines :=
  (nil h hquiet entry).append h'

/-- What writes nothing may come last. -/
theorem append_nil (h : s.Wrote s₁ calls entry exit lines) (h' : s₁.Writes s₂ [])
    (hquiet : s₂.Quiet) : s.Wrote s₂ calls entry exit lines := by
  have happend := h.append (nil h' hquiet exit)
  rwa [List.append_nil, List.append_nil] at happend

/-- Lines without calls come last. -/
theorem append_plain (h : s.Wrote s₁ calls entry middle lines)
    (h' : s₁.Wrote s₂ [] middle exit lines') :
    s.Wrote s₂ calls entry exit (lines ++ lines') := by
  have happend := h.append h'
  rwa [List.append_nil] at happend

/-- Straight code comes last. -/
theorem append_straight (h : s.Wrote s₁ calls entry middle lines) {code : List Instruction}
    (h' : s₁.Writes s₂ code) (hquiet : s₂.Quiet) (hnil : code = [] → exit = middle) :
    s.Wrote s₂ calls entry exit (lines ++ Line.straight middle code) :=
  h.append_plain (of_writes h' hquiet (codeOf_straight middle code) (Line.depthAt_straight hnil))

/-- The same lines, without calls. -/
theorem plain (h : s.Wrote s₁ calls entry exit lines) : s.Wrote s₁ [] entry exit lines :=
  ⟨h.code, h.entry, by simp⟩

theorem with_calls (h : s.Wrote s₁ [] entry exit lines)
    (hcalls : ∀ call ∈ calls, call.Placed s.start lines exit) :
    s.Wrote s₁ calls entry exit lines :=
  ⟨h.code, h.entry, hcalls⟩

/-- A jump among the lines was patched. -/
theorem patch (before : List Line) {line : Line} {after : List Line} {address : Nat}
    (h : s.Wrote s₁ [] entry exit (before ++ line :: after))
    (hpatch : s₁.Patched s₂ address)
    (haddress : address = s.start + before.length) :
    s.Wrote s₂ [] entry exit
      (before ++ { line with instruction := { line.instruction with d := s₁.start } } :: after) := by
  refine ⟨?_, ?_, by simp⟩
  · have hcode := h.code
    rw [codeOf_append, ← List.append_assoc] at hcode
    have hlength : address = (s.emitter.code.toList ++ codeOf before).length := by
      rw [haddress, List.length_append, length_codeOf]
      rfl
    rw [hpatch hcode hlength, codeOf_append, ← List.append_assoc]
    rfl
  · rw [← h.entry]
    cases before with
    | nil => rfl
    | cons first others => rfl

/-- A condition, a jump to the second branch, the first branch and a jump over the second. Both
    jumps are patched when their targets are reached. -/
theorem ifElse {s₃ s₄ s₅ s₆ s₇ : Encoder} {c₁ c₂ c₃ : List Call} {l₁ l₂ l₃ : List Line}
    {toElse toEnd : Nat}
    (hcondition : s.Wrote s₁ c₁ entry (middle + 1) l₁)
    (hjumpIf : s₁.Writes s₂ [.plain .jumpIf Machine.falseRep 0]) (hquiet₂ : s₂.Quiet)
    (hthen : s₂.Wrote s₃ c₂ middle exit l₂)
    (hjump : s₃.Writes s₄ [.plain .jump 0 0]) (hquiet₄ : s₄.Quiet)
    (hpatch : s₄.Patched s₅ toElse) (helse : s₅.Wrote s₆ c₃ middle exit l₃)
    (hpatch' : s₆.Patched s₇ toEnd) (htoElse : toElse = s₁.start) (htoEnd : toEnd = s₃.start) :
    s₂.start = s.start + l₁.length + 1 ∧
    s₅.start = s.start + l₁.length + 1 + l₂.length + 1 ∧
    s.Wrote s₇ (c₁ ++ (c₂ ++ c₃)) entry exit
      (l₁ ++ Line.jumpIf Machine.falseRep (s.start + l₁.length + 1 + l₂.length + 1) (middle + 1) ::
        (l₂ ++ Line.jump (s.start + l₁.length + 1 + l₂.length + 1 + l₃.length) exit :: l₃)) := by
  let forward : Line := ⟨.plain .jumpIf Machine.falseRep 0, middle + 1, ⟨1, 0⟩⟩
  let past : Line := ⟨.plain .jump 0 0, exit, ⟨0, 0⟩⟩
  have hforward : s₁.Wrote s₂ [] (middle + 1) middle [forward] :=
    of_writes hjumpIf hquiet₂ rfl rfl
  have hpast : s₃.Wrote s₄ [] exit middle [past] := of_writes hjump hquiet₄ rfl rfl
  -- up to the end of the first branch, with both jumps unpatched
  have hfirst : s.Wrote s₄ [] entry middle (l₁ ++ forward :: (l₂ ++ [past])) :=
    hcondition.plain.append (hforward.append (hthen.plain.append hpast))
  have hstart₂ : s₂.start = s.start + l₁.length + 1 := by
    rw [hforward.start_eq, hcondition.start_eq]
    rfl
  have hstart₃ : s₃.start = s.start + l₁.length + 1 + l₂.length := by
    rw [hthen.start_eq, hstart₂]
  have hstart₄ : s₄.start = s.start + l₁.length + 1 + l₂.length + 1 := by
    rw [hpast.start_eq, hstart₃]
    rfl
  have hforward' : { forward with instruction := { forward.instruction with d := s₄.start } } =
      Line.jumpIf Machine.falseRep (s.start + l₁.length + 1 + l₂.length + 1) (middle + 1) := by
    rw [hstart₄]
    rfl
  have hpatched := hfirst.patch l₁ hpatch (htoElse.trans hcondition.start_eq)
  have hstart₅ : s₅.start = s₄.start := by
    rw [hpatched.start_eq, hfirst.start_eq]
    simp
  rw [hforward'] at hpatched
  -- up to the end of the second branch, with the jump over it unpatched
  have hboth := hpatched.append helse.plain
  have hstart₆ : s₆.start = s.start + l₁.length + 1 + l₂.length + 1 + l₃.length := by
    rw [helse.start_eq, hstart₅, hstart₄]
  have hpast' : { past with instruction := { past.instruction with d := s₆.start } } =
      Line.jump (s.start + l₁.length + 1 + l₂.length + 1 + l₃.length) exit := by
    rw [hstart₆]
    rfl
  have hsplit (line : Line) :
      l₁ ++ line :: (l₂ ++ [past]) ++ l₃ = (l₁ ++ line :: l₂) ++ past :: l₃ := by simp
  rw [hsplit] at hboth
  have hend := hboth.patch _ hpatch' (htoEnd.trans (by rw [hstart₃]; simp; omega))
  rw [hpast'] at hend
  refine ⟨hstart₂, hstart₅.trans hstart₄, with_calls (by simpa using hend) ?_⟩
  intro call hmem
  rcases List.mem_append.1 hmem with hmem | hmem
  · exact (hcondition.calls call hmem).append_left rfl
  · rcases List.mem_append.1 hmem with hmem | hmem
    · have hplaced := hthen.calls call hmem
      rw [hstart₂] at hplaced
      exact .append_right (.cons (hplaced.append_left rfl))
    · have hplaced := helse.calls call hmem
      rw [hstart₅, hstart₄] at hplaced
      exact .append_right (.cons (.append_right (.cons hplaced)))

/-- The call itself is placed around the lines of its phrase. -/
theorem call {phrase : Phrase} {frame : Frame} {words : Int}
    (h : s.Wrote s₁ calls frame.size exit lines) (hexit : exit = frame.size + words)
    (hreturns : (phrase.encode frame).exec s = (.ok words, s₁)) (hsize : phrase.HasSize words)
    (hclosed : Line.Closed s.start lines frame.size exit) :
    s.Wrote s₁ (phrase.calls frame s calls) frame.size exit lines := by
  refine ⟨h.code, h.entry, ?_⟩
  intro call hmem
  rcases List.mem_cons.1 hmem with rfl | hmem
  · refine ⟨words, s₁, 0, lines.length, hreturns, hsize, rfl, h.start_eq, Nat.zero_le _,
      Nat.le_refl _, h.entry, (Line.depthAt_length _ _).trans hexit, ?_⟩
    intro k line a' _ _ hline hgoes
    obtain ⟨k', hk', ha', -⟩ := hclosed.goes k line a' hline hgoes
    exact ⟨k', Nat.zero_le _, hk', ha'⟩
  · exact h.calls call hmem

end Encoder.Wrote

end TriangleTam
