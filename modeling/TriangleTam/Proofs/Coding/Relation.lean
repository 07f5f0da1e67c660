import TriangleTam.Proofs.Coding.Assembler
import TriangleTam.Proofs.Coding.Control
import TriangleTam.Proofs.Scoping.Occurrences

/-! # Relations between translations

  A relation between the computations of two assemblers, and the control
  structure of their code, **covers** a tree if it is closed under what the
  translation of the tree is put together of: under sequencing, under the
  operations at the types, the names and the levels of the tree, and under
  control constructs. The translations with the two assemblers are related
  then, at the control structure of the tree. That an assembler preserves an
  invariant is the case of a relation that looks at one side alone.
-/

namespace TriangleTam

/-- The entity is of a value or a parameter that belongs to a routine of the level. -/
def Entity.LocalTo (level : Nat) : Entity → Prop
  | .knownValue .. => True
  | .unknownValue _ address | .knownAddress _ address | .unknownAddress _ address
  | .unknownRoutine _ address => address.level = level
  | _ => False

namespace Assembler

/-- A relation between computations, with what is known of their common result. -/
abbrev Relation (m m' : Type → Type) :=
  ∀ ⦃α : Type⦄, m α → m' α → (α → Prop) → Prop

/-- What is known of the parts of a tree that translation meets. -/
structure Facts where
  /-- A denoter that is written. -/
  written : TypeDenoter → Prop := fun _ => True
  /-- A type that checking found. -/
  found   : Option TypeDenoter → Prop := fun _ => True
  occurs  : Occurrence → Prop := fun _ => True
  /-- The entity of a place that is used at a level. -/
  reaches : Nat → Entity → Prop := fun _ _ => True

variable {m m' : Type → Type} [Monad m] [Monad m']

/-- The relation is closed under sequencing and under the operations that leave control alone. -/
structure Agrees (asm : Assembler m) (asm' : Assembler m') (R : Control → Relation m m')
    (facts : Facts) : Prop where
  pure {α : Type} {a : α} {Q : α → Prop} : Q a → R .nil (pure a) (pure a) Q
  bind {c c' : Control} {α β : Type} {x : m α} {x' : m' α} {f : α → m β} {f' : α → m' β}
    {Q : α → Prop} {P : β → Prop} : R c x x' Q → (∀ a, Q a → R c' (f a) (f' a) P) →
    R (c ++ c') (x >>= f) (x' >>= f') P
  loadL (n : Int) : R .nil (asm.emitPlain .loadL 0 n) (asm'.emitPlain .loadL 0 n) fun _ => True
  push (n : Int) : R .nil (asm.emitPlain .push 0 n) (asm'.emitPlain .push 0 n) fun _ => True
  pop (n d : Int) : R .nil (asm.emitPlain .pop n d) (asm'.emitPlain .pop n d) fun _ => True
  primitive (p : Primitive) :
    R .nil (asm.emitPrimitive p) (asm'.emitPrimitive p) fun _ => True
  word (n : Int) : R .nil (asm.word n) (asm'.word n) fun _ => True
  sizeOf {type : TypeDenoter} :
    facts.written type → R .nil (asm.sizeOf type) (asm'.sizeOf type) fun _ => True
  sizeOf? {type : Option TypeDenoter} (span : Span) :
    facts.found type → R .nil (asm.sizeOf? type span) (asm'.sizeOf? type span) fun _ => True
  fieldOffset {record : Vname} (field : Name) : facts.found record.type →
    R .nil (asm.fieldOffset record field) (asm'.fieldOffset record field) fun _ => True
  entityOf {level : Nat} {name : Name} : facts.occurs (.use level name) →
    R .nil (asm.entityOf name) (asm'.entityOf name) (facts.reaches level)
  bindName {level : Nat} {name : Name} {entity : Entity} :
    facts.occurs (.binder level name) → entity.LocalTo level →
    R .nil (asm.bind name entity) (asm'.bind name entity) fun _ => True
  fetch {place : Encode.Place} {frame : Frame} (size : Int) :
    frame.level ≤ Machine.maxRoutineLevel → facts.reaches frame.level place.1 →
    R .nil (asm.fetch place frame size) (asm'.fetch place frame size) fun _ => True
  store {place : Encode.Place} {frame : Frame} (size : Int) :
    frame.level ≤ Machine.maxRoutineLevel → facts.reaches frame.level place.1 →
    R .nil (asm.store place frame size) (asm'.store place frame size) fun _ => True
  fetchAddress {place : Encode.Place} {frame : Frame} :
    frame.level ≤ Machine.maxRoutineLevel → facts.reaches frame.level place.1 →
    R .nil (asm.fetchAddress place frame) (asm'.fetchAddress place frame) fun _ => True
  invoke {name : Name} {frame : Frame} :
    frame.level ≤ Machine.maxRoutineLevel → facts.occurs (.use frame.level name) →
    R .nil (asm.invoke name frame) (asm'.invoke name frame) fun _ => True
  pass {name : Name} {frame : Frame} :
    frame.level ≤ Machine.maxRoutineLevel → facts.occurs (.use frame.level name) →
    R .nil (asm.pass name frame) (asm'.pass name frame) fun _ => True

/-- The relation is closed under what translation is put together of. -/
structure Covers (asm : Assembler m) (asm' : Assembler m') (R : Control → Relation m m')
    (facts : Facts) : Prop extends Agrees asm asm' R facts where
  branch {c₁ c₂ c₃ : Control} {α β γ : Type} {x : m α} {x' : m' α} {y : m β} {y' : m' β}
    {z : m γ} {z' : m' γ} :
    R c₁ x x' (fun _ => True) → R c₂ y y' (fun _ => True) → R c₃ z z' (fun _ => True) →
    R (.branch c₁ c₂ c₃ .nil) (asm.branch x y z) (asm'.branch x' y' z') fun _ => True
  whileDo {c₁ c₂ : Control} {α β : Type} {x : m α} {x' : m' α} {y : m β} {y' : m' β} :
    R c₁ x x' (fun _ => True) → R c₂ y y' (fun _ => True) →
    R (.whileDo c₁ c₂ .nil) (asm.whileDo x y) (asm'.whileDo x' y') fun _ => True
  repeatUntil {c₁ c₂ : Control} {α β : Type} {x : m α} {x' : m' α} {y : m β} {y' : m' β} :
    R c₁ x x' (fun _ => True) → R c₂ y y' (fun _ => True) →
    R (.repeatUntil c₁ c₂ .nil) (asm.repeatUntil x y) (asm'.repeatUntil x' y') fun _ => True
  loopWhile {c₁ c₂ c₃ : Control} {α β γ : Type} {x : m α} {x' : m' α} {y : m β} {y' : m' β}
    {z : m γ} {z' : m' γ} :
    R c₁ x x' (fun _ => True) → R c₂ y y' (fun _ => True) → R c₃ z z' (fun _ => True) →
    R (.loopWhile c₁ c₂ c₃ .nil) (asm.loopWhile x y z) (asm'.loopWhile x' y' z') fun _ => True
  routine {c : Control} {name : Name} {level : Nat} {x : m Int} {x' : m' Int} {y : m Int}
    {y' : m' Int} : facts.occurs (.binder level name) →
    (level < Machine.maxRoutineLevel → R .nil x x' fun _ => True) →
    (level < Machine.maxRoutineLevel → R c y y' fun _ => True) →
    R (.ofRoutine name level c) (asm.routine name level x y) (asm'.routine name level x' y')
      fun _ => True

/-- The relation is closed under the operations that control is made of. -/
structure Controls (asm : Assembler m) (asm' : Assembler m') (R : Relation m m')
    (facts : Facts) : Prop where
  next : R asm.next asm'.next fun _ => True
  jump (op : OpCode) (n d : Int) : R (asm.emit op n .cb d) (asm'.emit op n .cb d) fun _ => True
  patch (address : Int) : R (asm.patch address) (asm'.patch address) fun _ => True
  nests (level : Nat) : R (asm.nests level) (asm'.nests level) fun nested =>
    nested = true → level < Machine.maxRoutineLevel
  bindRoutine {level : Nat} {name : Name} (entry : Int) : facts.occurs (.binder level name) →
    R (asm.bind name (.knownRoutine Machine.closureSize ⟨level, entry⟩))
      (asm'.bind name (.knownRoutine Machine.closureSize ⟨level, entry⟩)) fun _ => True

/-- A relation that is closed under all operations, whatever the control structure, is closed
    under control constructs. -/
theorem Agrees.covers {asm : Assembler m} {asm' : Assembler m'} {R : Relation m m'}
    {facts : Facts} (h : Agrees asm asm' (fun _ => R) facts) (hc : Controls asm asm' R facts) :
    Covers asm asm' (fun _ => R) facts := by
  have hbind {α β : Type} {x : m α} {x' : m' α} {f : α → m β} {f' : α → m' β} {Q : α → Prop}
      {P : β → Prop} (hx : R x x' Q) (hf : ∀ a, Q a → R (f a) (f' a) P) :
      R (x >>= f) (x' >>= f') P := @bind _ _ _ _ _ _ _ _ h .nil .nil _ _ _ _ _ _ _ _ hx hf
  have hforward (op : OpCode) (n : Int) :
      R (asm.emitForward op n) (asm'.emitForward op n) fun _ => True :=
    hbind hc.next fun _ _ => hbind (hc.jump op n 0) fun _ _ => h.pure trivial
  -- the control constructs, step by step as they are written
  refine { h with branch := ?_, whileDo := ?_, repeatUntil := ?_, loopWhile := ?_, routine := ?_ }
  · intro _ _ _ α β γ x x' y y' z z' hx hy hz
    exact hbind hx fun _ _ => hbind (hforward _ _) fun toElse _ => hbind hy fun _ _ =>
      hbind (hforward _ _) fun toEnd _ => hbind (hc.patch toElse) fun _ _ =>
      hbind hz fun result _ => hbind (hc.patch toEnd) fun _ _ => h.pure trivial
  · intro _ _ α β x x' y y' hx hy
    exact hbind (hforward _ _) fun toTest _ => hbind hc.next fun start _ =>
      hbind hy fun _ _ => hbind (hc.patch toTest) fun _ _ => hbind hx fun _ _ =>
      hc.jump _ _ start
  · intro _ _ α β x x' y y' hx hy
    exact hbind hc.next fun start _ => hbind hx fun _ _ => hbind hy fun _ _ =>
      hc.jump _ _ start
  · intro _ _ _ α β γ x x' y y' z z' hx hy hz
    exact hbind hc.next fun start _ => hbind hx fun _ _ => hbind hy fun _ _ =>
      hbind (hforward _ _) fun toEnd _ => hbind hz fun _ _ => hbind (hc.jump _ _ start) fun _ _ =>
      hc.patch toEnd
  · intro _ name level x x' y y' hname hx hy
    refine hbind (hforward _ _) fun jump _ => hbind hc.next fun entry _ =>
      hbind (hc.bindRoutine entry hname) fun _ _ => hbind (hc.nests level) fun nested hnested => ?_
    -- the body is within the limit of levels, or it is left out
    cases nested with
    | true =>
      have hlevel := hnested rfl
      exact hbind (hx hlevel) fun argumentSize _ => hbind (hy hlevel) fun resultSize _ =>
        hbind (hc.jump .ret resultSize argumentSize) fun _ _ => hc.patch jump
    | false => exact hbind (hc.jump .ret 0 0) fun _ _ => hc.patch jump

namespace Covers

variable {asm : Assembler m} {asm' : Assembler m'} {R : Control → Relation m m'} {facts : Facts}

/-- Straight-line code comes first. -/
theorem step (h : Covers asm asm' R facts) {c : Control} {α β : Type} {x : m α} {x' : m' α}
    {f : α → m β} {f' : α → m' β} {Q : α → Prop} {P : β → Prop} (hx : R .nil x x' Q)
    (hf : ∀ a, Q a → R c (f a) (f' a) P) : R c (x >>= f) (x' >>= f') P :=
  h.bind hx hf

/-- Straight-line code comes last. -/
theorem last (h : Covers asm asm' R facts) {c : Control} {α β : Type} {x : m α} {x' : m' α}
    {f : α → m β} {f' : α → m' β} {Q : α → Prop} {P : β → Prop} (hx : R c x x' Q)
    (hf : ∀ a, Q a → R .nil (f a) (f' a) P) : R c (x >>= f) (x' >>= f') P := by
  have hbind := h.bind hx hf
  rwa [Control.append_nil] at hbind

theorem grow (h : Covers asm asm' R facts) (frame : Frame) (n : Int) :
    R .nil (asm.grow frame n) (asm'.grow frame n) fun frame' => frame'.level = frame.level :=
  h.step (h.word _) fun _ _ => h.pure rfl

theorem below (h : Covers asm asm' R facts) (frame : Frame) (size : Int) :
    R .nil (asm.below frame size) (asm'.below frame size) fun address =>
      address.level = frame.level :=
  h.step (h.word _) fun _ _ => h.pure rfl

section

variable {p : Prop} [Decidable p] {x : m PUnit} {x' : m' PUnit}

/-- Code that is written in one case alone. -/
theorem perhaps (h : Covers asm asm' R facts) (hx : R .nil x x' fun _ => True) :
    R .nil (if p then x else Pure.pure ⟨⟩) (if p then x' else Pure.pure ⟨⟩) fun _ => True := by
  split
  · exact hx
  · exact h.pure trivial

theorem perhapsThen (h : Covers asm asm' R facts) {c : Control} {α : Type} {f : PUnit → m α}
    {f' : PUnit → m' α} {Q : α → Prop} (hx : R .nil x x' fun _ => True)
    (hf : R c (f ⟨⟩) (f' ⟨⟩) Q) :
    R c (if p then x >>= f else f ⟨⟩) (if p then x' >>= f' else f' ⟨⟩) Q := by
  split
  · exact h.step hx fun _ _ => hf
  · exact hf

/-- A computation or a known result comes first. -/
theorem either (h : Covers asm asm' R facts) {c : Control} {α β : Type} {y : m α} {y' : m' α}
    {a : α} {f : α → m β} {f' : α → m' β} {Q : α → Prop} {P : β → Prop} (hy : R .nil y y' Q)
    (ha : Q a) (hf : ∀ a, Q a → R c (f a) (f' a) P) :
    R c (if p then y >>= f else Pure.pure a >>= f) (if p then y' >>= f' else Pure.pure a >>= f')
      P := by
  split
  · exact h.step hy hf
  · exact h.step (h.pure ha) hf

end

theorem formal (h : Covers asm asm' R facts) {frame : Frame} {parameter : Formal}
    (hwritten : parameter.All facts.written)
    (hoccurs : ∀ occurrence ∈ parameter.occurrences frame.level, facts.occurs occurrence) :
    R .nil (asm.formal parameter frame) (asm'.formal parameter frame) fun _ => True := by
  cases parameter with
  | const span duplicated name type =>
    refine h.step (h.sizeOf hwritten) fun size _ => h.step (h.below frame size) fun address hat =>
      h.step (h.bindName (hoccurs _ List.mem_cons_self) hat) fun _ _ => h.pure trivial
  | var span duplicated name type =>
    refine h.step (h.sizeOf hwritten) fun size _ => h.step (h.below frame _) fun address hat =>
      h.step (h.bindName (hoccurs _ List.mem_cons_self) hat) fun _ _ => h.pure trivial
  | proc span duplicated name inner | func span duplicated name inner result =>
    have hname := hoccurs _ (List.mem_append_right _ List.mem_cons_self)
    exact h.step (h.below frame _) fun address hat =>
      h.step (h.bindName hname hat) fun _ _ => h.pure trivial

theorem formals (h : Covers asm asm' R facts) : ∀ {parameters : Formals} {frame : Frame},
    parameters.All facts.written →
    (∀ occurrence ∈ parameters.occurrences frame.level, facts.occurs occurrence) →
    R .nil (asm.formals parameters frame) (asm'.formals parameters frame) fun _ => True
  | .empty _, _, _, _ => h.pure trivial
  | .one .., _, hwritten, hoccurs => h.formal hwritten hoccurs
  | .more _ first rest, frame, ⟨hfirst, hrest⟩, hoccurs => by
    obtain ⟨hoccurs₁, hoccurs₂⟩ := List.forall_mem_append.1 hoccurs
    refine h.step (h.formals hrest hoccurs₂) fun restSize _ =>
      h.step (h.grow frame restSize) fun frame' hlevel => ?_
    rw [← hlevel] at hoccurs₁
    exact h.step (h.formal hfirst hoccurs₁) fun size _ => h.word _

mutual

theorem command (h : Covers asm asm' R facts) : ∀ {phrase : Command} {frame : Frame},
    frame.level ≤ Machine.maxRoutineLevel → phrase.All facts.written facts.found →
    (∀ occurrence ∈ phrase.occurrences frame.level, facts.occurs occurrence) →
    R (phrase.control frame.level) (asm.command phrase frame) (asm'.command phrase frame) fun _ => True
  | .empty _, _, _, _, _ => h.pure trivial
  | .assign _ target value, frame, hlevel, ⟨htarget, hvalue⟩, hoccurs => by
    obtain ⟨hoccurs₁, hoccurs₂⟩ := List.forall_mem_append.1 hoccurs
    refine h.bind (h.expression hlevel hvalue hoccurs₂) fun size _ =>
      h.step (h.grow frame size) fun frame' heq => ?_
    -- a grown frame has the level that it had
    rw [← heq] at hlevel hoccurs₁ ⊢
    exact h.last (h.place hlevel htarget hoccurs₁) fun place hreaches =>
      h.store size hlevel hreaches
  | .call _ callee args, frame, hlevel, hargs, hoccurs => by
    obtain ⟨hcallee, hoccurs'⟩ := List.forall_mem_cons.1 hoccurs
    exact h.last (h.actuals hlevel hargs hoccurs') fun size _ => h.invoke hlevel hcallee
  | .sequence _ first second, frame, hlevel, ⟨hfirst, hsecond⟩, hoccurs => by
    obtain ⟨hoccurs₁, hoccurs₂⟩ := List.forall_mem_append.1 hoccurs
    exact h.bind (h.command hlevel hfirst hoccurs₁) fun _ _ => h.command hlevel hsecond hoccurs₂
  | .letIn _ declared body, frame, hlevel, ⟨hdeclared, hbody⟩, hoccurs => by
    obtain ⟨hoccurs₁, hoccurs₂⟩ := List.forall_mem_append.1 hoccurs
    refine h.bind (h.declaration hlevel hdeclared hoccurs₁) fun extra _ =>
      h.step (h.grow frame extra) fun frame' heq => ?_
    rw [← heq] at hlevel hoccurs₂ ⊢
    exact h.last (h.command hlevel hbody hoccurs₂) fun _ _ => h.perhaps (h.pop 0 extra)
  | .ifElse _ condition thenBranch elseBranch, frame, hlevel, ⟨hcondition, hthen, helse⟩,
      hoccurs => by
    obtain ⟨hoccurs₁, hoccurs⟩ := List.forall_mem_append.1 hoccurs
    obtain ⟨hoccurs₂, hoccurs₃⟩ := List.forall_mem_append.1 hoccurs
    exact h.branch (h.expression hlevel hcondition hoccurs₁) (h.command hlevel hthen hoccurs₂)
      (h.command hlevel helse hoccurs₃)
  | .whileDo _ condition body, frame, hlevel, ⟨hcondition, hbody⟩, hoccurs => by
    obtain ⟨hoccurs₁, hoccurs₂⟩ := List.forall_mem_append.1 hoccurs
    exact h.whileDo (h.expression hlevel hcondition hoccurs₁) (h.command hlevel hbody hoccurs₂)
  | .repeatUntil _ body condition, frame, hlevel, ⟨hbody, hcondition⟩, hoccurs => by
    obtain ⟨hoccurs₁, hoccurs₂⟩ := List.forall_mem_append.1 hoccurs
    exact h.repeatUntil (h.command hlevel hbody hoccurs₁)
      (h.expression hlevel hcondition hoccurs₂)
  | .loopWhile _ body condition tail, frame, hlevel, ⟨hbody, hcondition, htail⟩, hoccurs => by
    obtain ⟨hoccurs₁, hoccurs⟩ := List.forall_mem_append.1 hoccurs
    obtain ⟨hoccurs₂, hoccurs₃⟩ := List.forall_mem_append.1 hoccurs
    exact h.loopWhile (h.command hlevel hbody hoccurs₁)
      (h.expression hlevel hcondition hoccurs₂) (h.command hlevel htail hoccurs₃)

theorem expression (h : Covers asm asm' R facts) : ∀ {phrase : Expression} {frame : Frame},
    frame.level ≤ Machine.maxRoutineLevel → phrase.All facts.written facts.found →
    (∀ occurrence ∈ phrase.occurrences frame.level, facts.occurs occurrence) →
    R (phrase.control frame.level) (asm.expression phrase frame) (asm'.expression phrase frame) fun _ => True
  | .integer span type literal, _, _, htype, _ | .character span type literal, _, _, htype, _ =>
    h.step (h.sizeOf? span htype) fun _ _ =>
      h.step (h.loadL literal.value) fun _ _ => h.pure trivial
  | .vname span type found, frame, hlevel, ⟨htype, hfound⟩, hoccurs =>
    h.step (h.sizeOf? span htype) fun size _ =>
      h.last (h.place hlevel hfound hoccurs) fun place hreaches =>
      h.step (h.fetch size hlevel hreaches) fun _ _ => h.pure trivial
  | .call span type callee args, frame, hlevel, ⟨htype, hargs⟩, hoccurs => by
    obtain ⟨hcallee, hoccurs'⟩ := List.forall_mem_cons.1 hoccurs
    exact h.step (h.sizeOf? span htype) fun size _ =>
      h.last (h.actuals hlevel hargs hoccurs') fun argumentSize _ =>
      h.step (h.invoke hlevel hcallee) fun _ _ => h.pure trivial
  | .ifElse span type condition thenBranch elseBranch, frame, hlevel,
      ⟨htype, hcondition, hthen, helse⟩, hoccurs => by
    obtain ⟨hoccurs₁, hoccurs⟩ := List.forall_mem_append.1 hoccurs
    obtain ⟨hoccurs₂, hoccurs₃⟩ := List.forall_mem_append.1 hoccurs
    exact h.step (h.sizeOf? span htype) fun _ _ =>
      h.branch (h.expression hlevel hcondition hoccurs₁) (h.expression hlevel hthen hoccurs₂)
        (h.expression hlevel helse hoccurs₃)
  | .letIn span type declared body, frame, hlevel, ⟨htype, hdeclared, hbody⟩, hoccurs => by
    obtain ⟨hoccurs₁, hoccurs₂⟩ := List.forall_mem_append.1 hoccurs
    refine h.step (h.sizeOf? span htype) fun _ _ =>
      h.bind (h.declaration hlevel hdeclared hoccurs₁) fun extra _ =>
      h.step (h.grow frame extra) fun frame' heq => ?_
    rw [← heq] at hlevel hoccurs₂ ⊢
    exact h.last (h.expression hlevel hbody hoccurs₂) fun size _ =>
      h.perhapsThen (h.pop size extra) (h.pure trivial)
  | .unary span type operator operand, frame, hlevel, ⟨htype, hoperand⟩, hoccurs => by
    obtain ⟨hoperator, hoccurs'⟩ := List.forall_mem_cons.1 hoccurs
    exact h.step (h.sizeOf? span htype) fun size _ =>
      h.last (h.expression hlevel hoperand hoccurs') fun _ _ =>
      h.step (h.invoke hlevel hoperator) fun _ _ => h.pure trivial
  | .binary span type left operator right, frame, hlevel, ⟨htype, hleft, hright⟩, hoccurs => by
    obtain ⟨hoperator, hoccurs⟩ := List.forall_mem_cons.1 hoccurs
    obtain ⟨hoccurs₁, hoccurs₂⟩ := List.forall_mem_append.1 hoccurs
    refine h.step (h.sizeOf? span htype) fun size _ =>
      h.bind (h.expression hlevel hleft hoccurs₁) fun leftSize _ =>
      h.step (h.grow frame leftSize) fun frame' heq => ?_
    have hlevel' := hlevel
    -- the right operand is in a grown frame of the same level, the operator in the old one
    rw [← heq] at hlevel' hoccurs₂ ⊢
    exact h.last (h.expression hlevel' hright hoccurs₂) fun rightSize _ =>
      h.step (h.word _) fun argumentSize _ =>
      h.step (h.invoke hlevel hoperator) fun _ _ => h.pure trivial
  | .array span type elements, frame, hlevel, ⟨htype, helements⟩, hoccurs =>
    h.step (h.sizeOf? span htype) fun _ _ => h.arrayAggregate hlevel helements hoccurs
  | .record span type fields, frame, hlevel, ⟨htype, hfields⟩, hoccurs =>
    h.step (h.sizeOf? span htype) fun _ _ => h.recordAggregate hlevel hfields hoccurs

theorem arrayAggregate (h : Covers asm asm' R facts) :
    ∀ {phrase : ArrayAggregate} {frame : Frame},
    frame.level ≤ Machine.maxRoutineLevel → phrase.All facts.written facts.found →
    (∀ occurrence ∈ phrase.occurrences frame.level, facts.occurs occurrence) →
    R (phrase.control frame.level) (asm.arrayAggregate phrase frame) (asm'.arrayAggregate phrase frame) fun _ => True
  | .one _ element, frame, hlevel, hall, hoccurs => by
    have hexpression : element.All facts.written facts.found := hall
    exact h.expression hlevel hexpression hoccurs
  | .more _ element rest, frame, hlevel, ⟨helement, hrest⟩, hoccurs => by
    obtain ⟨hoccurs₁, hoccurs₂⟩ := List.forall_mem_append.1 hoccurs
    refine h.bind (h.expression hlevel helement hoccurs₁) fun size _ =>
      h.step (h.grow frame size) fun frame' heq => ?_
    rw [← heq] at hlevel hoccurs₂ ⊢
    exact h.last (h.arrayAggregate hlevel hrest hoccurs₂) fun restSize _ => h.word _

theorem recordAggregate (h : Covers asm asm' R facts) :
    ∀ {phrase : RecordAggregate} {frame : Frame},
    frame.level ≤ Machine.maxRoutineLevel → phrase.All facts.written facts.found →
    (∀ occurrence ∈ phrase.occurrences frame.level, facts.occurs occurrence) →
    R (phrase.control frame.level) (asm.recordAggregate phrase frame) (asm'.recordAggregate phrase frame) fun _ => True
  | .one _ _ value, frame, hlevel, hall, hoccurs => by
    have hexpression : value.All facts.written facts.found := hall
    exact h.expression hlevel hexpression hoccurs
  | .more _ _ value rest, frame, hlevel, ⟨hvalue, hrest⟩, hoccurs => by
    obtain ⟨hoccurs₁, hoccurs₂⟩ := List.forall_mem_append.1 hoccurs
    refine h.bind (h.expression hlevel hvalue hoccurs₁) fun size _ =>
      h.step (h.grow frame size) fun frame' heq => ?_
    rw [← heq] at hlevel hoccurs₂ ⊢
    exact h.last (h.recordAggregate hlevel hrest hoccurs₂) fun restSize _ => h.word _

theorem place (h : Covers asm asm' R facts) : ∀ {phrase : Vname} {frame : Frame},
    frame.level ≤ Machine.maxRoutineLevel → phrase.All facts.written facts.found →
    (∀ occurrence ∈ phrase.occurrences frame.level, facts.occurs occurrence) →
    R (phrase.control frame.level) (asm.place phrase frame) (asm'.place phrase frame) fun place =>
      facts.reaches frame.level place.1
  | .simple _ _ _ name, frame, _, _, hoccurs =>
    h.step (h.entityOf (hoccurs _ List.mem_cons_self)) fun _ hreaches => h.pure hreaches
  | .dot _ _ _ record field, frame, hlevel, ⟨_, hrecord⟩, hoccurs =>
    h.last (h.place hlevel hrecord hoccurs) fun _ hreaches =>
      h.step (h.fieldOffset field hrecord.type) fun _ _ => h.step (h.word _) fun _ _ =>
      h.pure hreaches
  | .subscript span type _ array index, frame, hlevel, ⟨htype, harray, hindex⟩, hoccurs => by
    obtain ⟨hoccurs₁, hoccurs₂⟩ := List.forall_mem_append.1 hoccurs
    refine h.bind (h.place hlevel harray hoccurs₁) fun place hreaches =>
      h.step (h.sizeOf? span htype) fun elementSize _ => ?_
    obtain ⟨entity, access⟩ := place
    -- a literal index only moves the offset, and any other is computed
    cases hliteral : index.integerValue? with
    | some value =>
      rw [Expression.control_of_literalValue?
        (Expression.literalValue?_of_integerValue? hliteral)]
      exact h.step (h.word _) fun distance _ => h.step (h.word _) fun offset _ => h.pure hreaches
    | none =>
      refine h.either (h.grow frame _) rfl fun indexFrame heq => ?_
      have hlevel' := hlevel
      rw [← heq] at hlevel' hoccurs₂ hreaches ⊢
      refine h.last (h.expression hlevel' hindex hoccurs₂) fun _ _ => ?_
      dsimp only
      split
      · refine h.step (h.loadL _) fun _ _ => h.step (h.primitive .mult) fun _ _ => ?_
        refine h.perhapsThen (h.primitive .add) ?_
        exact h.pure hreaches
      · refine h.perhapsThen (h.primitive .add) ?_
        exact h.pure hreaches

theorem declaration (h : Covers asm asm' R facts) : ∀ {phrase : Declaration} {frame : Frame},
    frame.level ≤ Machine.maxRoutineLevel → phrase.All facts.written facts.found →
    (∀ occurrence ∈ phrase.occurrences frame.level, facts.occurs occurrence) →
    R (phrase.control frame.level) (asm.declaration phrase frame) (asm'.declaration phrase frame) fun _ => True
  | .const _ _ name value, frame, hlevel, hvalue, hoccurs => by
    obtain ⟨hoccurs₁, hoccurs₂⟩ := List.forall_mem_append.1 hoccurs
    have hname := hoccurs₂ _ List.mem_cons_self
    have hfound : facts.found value.type := Expression.All.type hvalue
    unfold Assembler.declaration Declaration.control
    -- a literal is represented by itself, and any other value by its place in the frame
    cases hliteral : value.literalValue? with
    | some known =>
      rw [Expression.control_of_literalValue? hliteral]
      exact h.step (h.sizeOf? _ hfound) fun size _ =>
        h.step (h.bindName hname trivial) fun _ _ => h.pure trivial
    | none =>
      exact h.last (h.expression hlevel hvalue hoccurs₁) fun size _ =>
        h.step (h.bindName hname rfl) fun _ _ => h.pure trivial
  | .var _ _ name type, frame, hlevel, htype, hoccurs =>
    h.step (h.sizeOf htype) fun size _ => h.step (h.push size) fun _ _ =>
      h.step (h.bindName (hoccurs _ List.mem_cons_self) rfl) fun _ _ => h.pure trivial
  | .proc _ _ name parameters body, frame, hlevel, ⟨hparameters, hbody⟩, hoccurs => by
    obtain ⟨hname, hoccurs⟩ := List.forall_mem_cons.1 hoccurs
    obtain ⟨hoccurs₁, hoccurs₂⟩ := List.forall_mem_append.1 hoccurs
    refine h.last (h.routine hname (fun hinner => ?_) fun hinner => ?_) fun _ _ => h.pure trivial
    · exact h.formals hparameters hoccurs₁
    · have hlevel' : (frame.push Machine.linkDataSize).level ≤ Machine.maxRoutineLevel := hinner
      exact h.last (h.command hlevel' hbody hoccurs₂) fun _ _ => h.pure trivial
  | .func _ _ name parameters result body, frame, hlevel, ⟨hparameters, _, hbody⟩, hoccurs => by
    obtain ⟨hname, hoccurs⟩ := List.forall_mem_cons.1 hoccurs
    obtain ⟨hoccurs₁, hoccurs₂⟩ := List.forall_mem_append.1 hoccurs
    refine h.last (h.routine hname (fun hinner => ?_) fun hinner => ?_) fun _ _ => h.pure trivial
    · exact h.formals hparameters hoccurs₁
    · have hlevel' : (frame.push Machine.linkDataSize).level ≤ Machine.maxRoutineLevel := hinner
      exact h.expression hlevel' hbody hoccurs₂
  | .type _ _ name type, frame, _, htype, _ =>
    h.step (h.sizeOf htype) fun _ _ => h.pure trivial
  | .sequence _ first second, frame, hlevel, ⟨hfirst, hsecond⟩, hoccurs => by
    obtain ⟨hoccurs₁, hoccurs₂⟩ := List.forall_mem_append.1 hoccurs
    refine h.bind (h.declaration hlevel hfirst hoccurs₁) fun firstSize _ =>
      h.step (h.grow frame firstSize) fun frame' heq => ?_
    rw [← heq] at hlevel hoccurs₂ ⊢
    exact h.last (h.declaration hlevel hsecond hoccurs₂) fun secondSize _ => h.word _

theorem actuals (h : Covers asm asm' R facts) : ∀ {phrase : Actuals} {frame : Frame},
    frame.level ≤ Machine.maxRoutineLevel → phrase.All facts.written facts.found →
    (∀ occurrence ∈ phrase.occurrences frame.level, facts.occurs occurrence) →
    R (phrase.control frame.level) (asm.actuals phrase frame) (asm'.actuals phrase frame) fun _ => True
  | .empty _, _, _, _, _ => h.pure trivial
  | .one _ first, frame, hlevel, hall, hoccurs => by
    have hactual : first.All facts.written facts.found := hall
    exact h.actual hlevel hactual hoccurs
  | .more _ first rest, frame, hlevel, ⟨hfirst, hrest⟩, hoccurs => by
    obtain ⟨hoccurs₁, hoccurs₂⟩ := List.forall_mem_append.1 hoccurs
    refine h.bind (h.actual hlevel hfirst hoccurs₁) fun size _ =>
      h.step (h.grow frame size) fun frame' heq => ?_
    rw [← heq] at hlevel hoccurs₂ ⊢
    exact h.last (h.actuals hlevel hrest hoccurs₂) fun restSize _ => h.word _

theorem actual (h : Covers asm asm' R facts) : ∀ {phrase : Actual} {frame : Frame},
    frame.level ≤ Machine.maxRoutineLevel → phrase.All facts.written facts.found →
    (∀ occurrence ∈ phrase.occurrences frame.level, facts.occurs occurrence) →
    R (phrase.control frame.level) (asm.actual phrase frame) (asm'.actual phrase frame) fun _ => True
  | .const _ value, frame, hlevel, hvalue, hoccurs => by
    have hexpression : value.All facts.written facts.found := hvalue
    exact h.expression hlevel hexpression hoccurs
  | .var _ found, frame, hlevel, hfound, hoccurs => by
    have hplace : found.All facts.written facts.found := hfound
    exact h.last (h.place hlevel hplace hoccurs) fun place hreaches =>
      h.step (h.fetchAddress hlevel hreaches) fun _ _ => h.pure trivial
  | .proc _ name, frame, hlevel, _, hoccurs | .func _ name, frame, hlevel, _, hoccurs =>
    h.step (h.pass hlevel (hoccurs _ List.mem_cons_self)) fun _ _ => h.pure trivial

end

end Covers

end Assembler

end TriangleTam
