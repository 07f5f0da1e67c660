import TriangleTam.Proofs.Coding.Object
import TriangleTam.Proofs.Coding.Outcomes
import TriangleTam.Proofs.Coding.Relation
import TriangleTam.Proofs.Coding.Requests
import TriangleTam.Proofs.Recast.Tree

/-! # Encoding recast trees

  Two encoders are **twins** if they have the same code, the same entities and
  the same reports. What they remember of sizes, their **tallies**, may differ:
  one may have types on record that the other has yet to lay out.

  Twins that encode a tree and the tree recast go through the same steps. They
  stay twins, as long as the way in which their tallies differ is kept by
  every size that they meet.
-/

namespace TriangleTam

/-! ## Translation -/

namespace Assembler

/-- The operations at names and types as they are recast. -/
def recast {m : Type → Type} (asm : Assembler m) (f : Recast) : Assembler m :=
  { asm with
    bind := fun name entity => asm.bind (name.recast f) entity
    entityOf := fun name => asm.entityOf (name.recast f)
    sizeOf := fun type => asm.sizeOf (type.recast f)
    sizeOf? := fun type span => asm.sizeOf? (type.map (·.recast f)) (f.span span)
    fieldOffset := fun record field => asm.fieldOffset (record.recast f) (field.recast f) }

variable {m : Type → Type} [Monad m] (asm : Assembler m) (f : Recast)

theorem formal_recast (parameter : Formal) (frame : Frame) :
    asm.formal (parameter.recast f) frame = (asm.recast f).formal parameter frame := by
  cases parameter <;> rfl

theorem formals_recast : ∀ (parameters : Formals) (frame : Frame),
    asm.formals (parameters.recast f) frame = (asm.recast f).formals parameters frame
  | .empty _, _ => rfl
  | .one _ first, frame => asm.formal_recast f first frame
  | .more _ first rest, frame => by
    simp only [Formals.recast, formals, formals_recast rest, formal_recast]
    rfl

mutual

theorem command_recast : ∀ (phrase : Command) (frame : Frame),
    asm.command (phrase.recast f) frame = (asm.recast f).command phrase frame
  | .empty _, _ => rfl
  | .assign _ target value, frame => by
    simp only [Command.recast, command, expression_recast value, place_recast target]
    rfl
  | .call _ callee args, frame => by
    simp only [Command.recast, command, actuals_recast args]
    rfl
  | .sequence _ first second, frame => by
    simp only [Command.recast, command, command_recast first, command_recast second]
  | .letIn _ declared body, frame => by
    simp only [Command.recast, command, declaration_recast declared, command_recast body]
    rfl
  | .ifElse _ condition thenBranch elseBranch, frame => by
    simp only [Command.recast, command, expression_recast condition, command_recast thenBranch,
      command_recast elseBranch]
    rfl
  | .whileDo _ condition body, frame => by
    simp only [Command.recast, command, expression_recast condition, command_recast body]
    rfl
  | .repeatUntil _ body condition, frame => by
    simp only [Command.recast, command, expression_recast condition, command_recast body]
    rfl
  | .loopWhile _ body condition tail, frame => by
    simp only [Command.recast, command, expression_recast condition, command_recast body,
      command_recast tail]
    rfl

theorem expression_recast : ∀ (phrase : Expression) (frame : Frame),
    asm.expression (phrase.recast f) frame = (asm.recast f).expression phrase frame
  | .integer .., _ | .character .., _ => rfl
  | .vname _ _ found, frame => by
    simp only [Expression.recast, expression, place_recast found]
    rfl
  | .call _ _ callee args, frame => by
    simp only [Expression.recast, expression, actuals_recast args]
    rfl
  | .ifElse _ _ condition thenBranch elseBranch, frame => by
    simp only [Expression.recast, expression, expression_recast condition,
      expression_recast thenBranch, expression_recast elseBranch]
    rfl
  | .letIn _ _ declared body, frame => by
    simp only [Expression.recast, expression, declaration_recast declared,
      expression_recast body]
    rfl
  | .unary _ _ operator operand, frame => by
    simp only [Expression.recast, expression, expression_recast operand]
    rfl
  | .binary _ _ left operator right, frame => by
    simp only [Expression.recast, expression, expression_recast left, expression_recast right]
    rfl
  | .array _ _ elements, frame => by
    simp only [Expression.recast, expression, arrayAggregate_recast elements]
    rfl
  | .record _ _ fields, frame => by
    simp only [Expression.recast, expression, recordAggregate_recast fields]
    rfl

theorem arrayAggregate_recast : ∀ (phrase : ArrayAggregate) (frame : Frame),
    asm.arrayAggregate (phrase.recast f) frame = (asm.recast f).arrayAggregate phrase frame
  | .one _ element, frame => expression_recast element frame
  | .more _ element rest, frame => by
    simp only [ArrayAggregate.recast, arrayAggregate, expression_recast element,
      arrayAggregate_recast rest]
    rfl

theorem recordAggregate_recast : ∀ (phrase : RecordAggregate) (frame : Frame),
    asm.recordAggregate (phrase.recast f) frame = (asm.recast f).recordAggregate phrase frame
  | .one _ _ value, frame => expression_recast value frame
  | .more _ _ value rest, frame => by
    simp only [RecordAggregate.recast, recordAggregate, expression_recast value,
      recordAggregate_recast rest]
    rfl

theorem place_recast : ∀ (phrase : Vname) (frame : Frame),
    asm.place (phrase.recast f) frame = (asm.recast f).place phrase frame
  | .simple .., _ => rfl
  | .dot _ _ _ record field, frame => by
    simp only [Vname.recast, place, place_recast record]
    rfl
  | .subscript _ _ _ array index, frame => by
    simp only [Vname.recast, place, place_recast array, Expression.integerValue?_recast,
      expression_recast index]
    rfl

theorem declaration_recast : ∀ (phrase : Declaration) (frame : Frame),
    asm.declaration (phrase.recast f) frame = (asm.recast f).declaration phrase frame
  | .const _ _ name value, frame => by
    simp only [Declaration.recast, declaration, Expression.literalValue?_recast,
      Expression.type_recast, Expression.span_recast, expression_recast value]
    rfl
  | .var .., _ | .type .., _ => rfl
  | .proc _ _ name parameters body, frame => by
    simp only [Declaration.recast, declaration, formals_recast, command_recast body]
    rfl
  | .func _ _ name parameters _ body, frame => by
    simp only [Declaration.recast, declaration, formals_recast, expression_recast body]
    rfl
  | .sequence _ first second, frame => by
    simp only [Declaration.recast, declaration, declaration_recast first,
      declaration_recast second]
    rfl

theorem actuals_recast : ∀ (phrase : Actuals) (frame : Frame),
    asm.actuals (phrase.recast f) frame = (asm.recast f).actuals phrase frame
  | .empty _, _ => rfl
  | .one _ first, frame => actual_recast first frame
  | .more _ first rest, frame => by
    simp only [Actuals.recast, actuals, actual_recast first, actuals_recast rest]
    rfl

theorem actual_recast : ∀ (phrase : Actual) (frame : Frame),
    asm.actual (phrase.recast f) frame = (asm.recast f).actual phrase frame
  | .const _ value, frame => expression_recast value frame
  | .var _ found, frame => by
    simp only [Actual.recast, actual, place_recast found]
    rfl
  | .proc .., _ | .func .., _ => rfl

end

end Assembler

/-! ## Emitters -/

/-- The same restrictions were reported to two journals since these had the reports `old` and
    `old'`. -/
def Journal.Twin (old old' : Array Diagnostic) (journal journal' : Journal) : Prop :=
  ∃ messages : Array String, journal.diagnostics = old ++ messages.map .ofRestriction ∧
    journal'.diagnostics = old' ++ messages.map .ofRestriction

namespace Journal.Twin

variable {old old' : Array Diagnostic} {journal journal' : Journal}

theorem start (journal journal' : Journal) :
    journal.Twin journal.diagnostics journal'.diagnostics journal' :=
  ⟨#[], by simp, by simp⟩

/-- A restriction is reported to both. -/
theorem restrict (h : journal.Twin old old' journal') (message : String) :
    (journal.report (.ofRestriction message)).Twin old old'
      (journal'.report (.ofRestriction message)) := by
  obtain ⟨messages, hmade, hmade'⟩ := h
  refine ⟨messages.push message, ?_, ?_⟩
  · rw [Journal.report, hmade, Array.push_append, Array.map_push]
  · rw [Journal.report, hmade', Array.push_append, Array.map_push]

/-- What is logged besides is no report. -/
theorem logged (h : journal.Twin old old' journal') {logged logged' : Journal}
    (hlogged : logged.diagnostics = journal.diagnostics)
    (hlogged' : logged'.diagnostics = journal'.diagnostics) : logged.Twin old old' logged' := by
  obtain ⟨messages, hmade, hmade'⟩ := h
  exact ⟨messages, hlogged.trans hmade, hlogged'.trans hmade'⟩

/-- Journals that started with the same reports have the same reports. -/
theorem diagnostics_eq (h : journal.Twin old old journal') :
    journal'.diagnostics = journal.diagnostics := by
  obtain ⟨messages, hmade, hmade'⟩ := h
  exact hmade'.trans hmade.symm

end Journal.Twin

/-- The emitters have the same code, and the same was reported by both since their journals had
    the reports `old` and `old'`. -/
structure Emitter.Twin (old old' : Array Diagnostic) (e e' : Emitter) : Prop where
  code          : e'.code = e.code
  journal       : e.journal.Twin old old' e'.journal
  full          : e'.full = e.full
  unaddressable : e'.unaddressable = e.unaddressable

namespace Emitter.Twin

variable {old old' : Array Diagnostic} {e e' : Emitter}

theorem next_eq (h : e.Twin old old' e') : e'.next = e.next := by
  unfold next
  rw [h.code]

/-- Twins that report the same are twins. -/
theorem restrict (h : e.Twin old old' e') (message : String) :
    (e.restrict message).Twin old old' (e'.restrict message) := by
  exact ⟨h.code, h.journal.restrict message, h.full, h.unaddressable⟩

theorem restrictAddress (h : e.Twin old old' e') : e.restrictAddress.Twin old old' e'.restrictAddress := by
  have hrestricted := h.restrict Limit.word.message
  unfold Emitter.restrictAddress
  rw [h.unaddressable]
  by_cases hreported : e.unaddressable = true
  · rwa [if_pos hreported, if_pos hreported]
  · rw [if_neg hreported, if_neg hreported]
    exact ⟨hrestricted.code, hrestricted.journal, hrestricted.full, rfl⟩

theorem restrictCode (h : e.Twin old old' e') : e.restrictCode.Twin old old' e'.restrictCode := by
  have hrestricted := h.restrict Limit.codeStore.message
  unfold Emitter.restrictCode
  rw [h.full]
  by_cases hreported : e.full = true
  · rwa [if_pos hreported, if_pos hreported]
  · rw [if_neg hreported, if_neg hreported]
    exact ⟨hrestricted.code, hrestricted.journal, rfl, hrestricted.unaddressable⟩

theorem clampOperand (h : e.Twin old old' e') (n : Int) (limit : Limit) :
    (e'.clampOperand n limit).1 = (e.clampOperand n limit).1 ∧
      (e.clampOperand n limit).2.Twin old old' (e'.clampOperand n limit).2 := by
  unfold Emitter.clampOperand
  split
  · exact ⟨rfl, h.restrict _⟩
  · exact ⟨rfl, h⟩

theorem emit (h : e.Twin old old' e') (op : OpCode) (n : Int) (r : Register) (d : Int) :
    (e.emit op n r d).Twin old old' (e'.emit op n r d) := by
  obtain ⟨hn, hclamped⟩ := h.clampOperand n .operandLength
  unfold Emitter.emit
  dsimp only
  rw [hn, hclamped.code]
  split
  · exact ⟨rfl, hclamped.journal, hclamped.full, hclamped.unaddressable⟩
  · exact hclamped.restrictCode

theorem patch (h : e.Twin old old' e') (address : Int) : (e.patch address).Twin old old' (e'.patch address) := by
  unfold Emitter.patch
  rw [h.next_eq, h.code]
  split
  · exact h
  · exact ⟨rfl, h.journal, h.full, h.unaddressable⟩

theorem displayRegister (h : e.Twin old old' e') (frame : Frame) (level : Nat) :
    (e.displayRegister frame level).2.Twin old old' (e'.displayRegister frame level).2 := by
  unfold Emitter.displayRegister
  split
  · exact h
  · dsimp only
    split
    · exact h.restrict _
    · exact h

theorem displace (h : e.Twin old old' e') (address : Address) (access : Access) :
    (e.displace address access).2.Twin old old' (e'.displace address access).2 := by
  unfold Emitter.displace
  dsimp only
  split
  · exact h
  · exact h.restrictAddress

theorem serve (h : e.Twin old old' e') (request : Request) : (e.serve request).Twin old old' (e'.serve request) := by
  cases request with
  | register frame level => exact h.displayRegister frame level
  | emit op n r d => exact h.emit op n r d
  | place op n r address access => exact (h.displace address access).emit op n r _

theorem serveAll (requests : List Request) : ∀ {e e' : Emitter}, e.Twin old old' e' →
    (e.serveAll requests).Twin old old' (e'.serveAll requests) := by
  induction requests with
  | nil => exact id
  | cons request requests ih => exact fun h => ih (h.serve request)

end Emitter.Twin

/-- Whether the operation is refused does not depend on the emitter. -/
def Entity.Answers (act : Emitter → Except NotApplicable Emitter) : Prop :=
  ∀ ⦃e e₁⦄, act e = .ok e₁ → ∀ e', ∃ e₁', act e' = .ok e₁'

/-- What an entity asks of one twin it asks of the other. -/
theorem Emitter.Twin.asks {old old' : Array Diagnostic} {e e' e₁ : Emitter} (h : e.Twin old old' e')
    {act : Emitter → Except NotApplicable Emitter} {requests : Option (List Request)}
    (hasks : Entity.Asks act requests) (hanswers : Entity.Answers act) (hact : act e = .ok e₁) :
    ∃ e₁', act e' = .ok e₁' ∧ e₁.Twin old old' e₁' := by
  obtain ⟨e₁', hact'⟩ := hanswers hact e'
  obtain ⟨made, hmade, rfl⟩ := hasks e e₁ hact
  obtain ⟨made', hmade', rfl⟩ := hasks e' e₁' hact'
  obtain rfl : made = made' := Option.some.inj (hmade.symm.trans hmade')
  exact ⟨_, hact', serveAll made h⟩

namespace Entity

variable (entity : Entity) (frame : Frame) (size : Int) (access : Access)

theorem fetch_answers : Answers (entity.fetch frame size access) := by
  intro e e₁ h e'
  cases entity with
  | knownValue | unknownAddress => exact ⟨_, rfl⟩
  | unknownValue _ address | knownAddress _ address =>
    unfold fetch
    dsimp only
    split <;> exact ⟨_, rfl⟩
  | _ => cases h

theorem store_answers : Answers (entity.store frame size access) := by
  intro e e₁ h e'
  cases entity with
  | unknownAddress => exact ⟨_, rfl⟩
  | knownAddress _ address =>
    unfold store
    dsimp only
    split <;> exact ⟨_, rfl⟩
  | _ => cases h

theorem fetchAddress_answers : Answers (entity.fetchAddress frame access) := by
  intro e e₁ h e'
  cases entity with
  | knownAddress | unknownAddress => exact ⟨_, rfl⟩
  | _ => cases h

theorem call_answers : Answers (entity.call frame) := by
  intro e e₁ h e'
  cases entity with
  | knownRoutine | unknownRoutine | primitiveRoutine | equalityRoutine | barRoutine =>
    exact ⟨_, rfl⟩
  | _ => cases h

theorem fetchClosure_answers : Answers (entity.fetchClosure frame) := by
  intro e e₁ h e'
  cases entity with
  | knownRoutine | unknownRoutine | primitiveRoutine | equalityRoutine | barRoutine =>
    exact ⟨_, rfl⟩
  | _ => cases h

end Entity

/-! ## Encoders -/

/-- What an encoder remembers of sizes. -/
structure Tally where
  layouts    : Layouts
  outOfRange : Bool

namespace Tally

/-- The tally after a size was met. -/
def meet (t : Tally) (n : Int) : Tally :=
  { t with outOfRange := t.outOfRange || !decide (Word.Fits n) }

/-- The tally after a type was laid out. -/
def layOut (t : Tally) (type : TypeDenoter) : Tally :=
  ⟨(type.layOut { layouts := t.layouts }).layouts,
    t.outOfRange || (type.layOut { layouts := t.layouts }).outOfRange⟩

end Tally

def Encoder.tally (s : Encoder) : Tally := ⟨s.layouts, s.outOfRange⟩

/-- Meeting sizes, and laying out the types that satisfy `P`, keeps how two tallies differ. -/
structure Recast.Keeps (f : Recast) (P : TypeDenoter → Prop) (K : Tally → Tally → Prop) :
    Prop where
  meet {t t' : Tally} (n : Int) : K t t' → K (t.meet n) (t'.meet n)
  layOut {t t' : Tally} {type : TypeDenoter} : P type → K t t' →
    K (t.layOut type) (t'.layOut (type.recast f))

/-- The encoders differ in their tallies alone, and these as `K` allows. -/
structure Encoder.Twin old old' (K : Tally → Tally → Prop) (s s' : Encoder) : Prop where
  emitter  : s.emitter.Twin old old' s'.emitter
  entities : s'.entities = s.entities
  tally    : K s.tally s'.tally

namespace Encode

/-- From twins on, what one step does the other does too, and leaves twins. -/
def Twins (old old' : Array Diagnostic) (K : Tally → Tally → Prop) :
    Assembler.Relation Encode Encode :=
  fun _ x x' Q => ∀ ⦃s a t⦄, x.exec s = (.ok a, t) → ∀ ⦃s'⦄, s.Twin old old' K s' →
    ∃ t', x'.exec s' = (.ok a, t') ∧ t.Twin old old' K t' ∧ Q a

namespace Twins

variable {old old' : Array Diagnostic} {K : Tally → Tally → Prop} {α β : Type} {f : Recast} {P : TypeDenoter → Prop}

theorem pure {a : α} {Q : α → Prop} (h : Q a) :
    Twins old old' K (Pure.pure a) (Pure.pure a) Q := by
  intro s a' t hexec s' htwin
  obtain ⟨ha, rfl⟩ := Prod.mk.inj hexec
  obtain rfl := Except.ok.inj ha
  exact ⟨s', rfl, htwin, h⟩

theorem bind {x x' : Encode α} {g g' : α → Encode β} {Q : α → Prop} {R : β → Prop}
    (hx : Twins old old' K x x' Q) (hg : ∀ a, Q a → Twins old old' K (g a) (g' a) R) :
    Twins old old' K (x >>= g) (x' >>= g') R := by
  intro s b t hexec s' htwin
  obtain ⟨a, s₁, hexec₁, hexec₂⟩ := exec_bind_ok hexec
  obtain ⟨s₁', hexec₁', htwin₁, ha⟩ := hx hexec₁ htwin
  obtain ⟨t', hexec₂', htwin₂, hb⟩ := hg a ha hexec₂ htwin₁
  exact ⟨t', (exec_bind hexec₁').trans hexec₂', htwin₂, hb⟩

theorem next : Twins old old' K Encode.next Encode.next fun _ => True := by
  intro s a t hexec s' htwin
  obtain ⟨ha, rfl⟩ := Prod.mk.inj hexec
  obtain rfl := Except.ok.inj ha
  refine ⟨s', ?_, htwin, trivial⟩
  rw [next_exec, htwin.emitter.next_eq]

theorem emitting {act : Emitter → Emitter}
    (hact : ∀ {e e' : Emitter}, e.Twin old old' e' → (act e).Twin old old' (act e')) :
    Twins old old' K (Encode.emitting act) (Encode.emitting act) fun _ => True := by
  intro s a t hexec s' htwin
  obtain ⟨-, rfl⟩ := Prod.mk.inj hexec
  exact ⟨_, rfl, ⟨hact htwin.emitter, htwin.entities, htwin.tally⟩, trivial⟩

theorem emit (op : OpCode) (n : Int) (r : Register) (d : Int) :
    Twins old old' K (Encode.emit op n r d) (Encode.emit op n r d) fun _ => True :=
  emitting fun htwin => htwin.emit op n r d

/-- What an entity is asked to do. -/
theorem requesting {act : Emitter → Except NotApplicable Emitter}
    {requests : Option (List Request)} (hasks : Entity.Asks act requests)
    (hanswers : Entity.Answers act) :
    Twins old old' K (Encode.requesting act) (Encode.requesting act) fun _ => True := by
  intro s a t hexec s' htwin
  obtain ⟨e, he, rfl⟩ := requesting_ok hexec
  obtain ⟨e', he', htwin'⟩ := htwin.emitter.asks hasks hanswers he
  refine ⟨{ s' with emitter := e' }, ?_, ⟨htwin', htwin.entities, htwin.tally⟩, trivial⟩
  unfold Encode.requesting
  rw [exec_get_bind]
  simp only [he']
  rfl

theorem clampOperand (n : Int) (limit : Limit) :
    Twins old old' K (Encode.clampOperand n limit) (Encode.clampOperand n limit) fun _ => True := by
  intro s a t hexec s' htwin
  obtain ⟨ha, rfl⟩ := Prod.mk.inj ((clampOperand_exec n limit s).symm.trans hexec)
  obtain rfl := Except.ok.inj ha
  obtain ⟨hn, hclamped⟩ := htwin.emitter.clampOperand n limit
  have hexec' := clampOperand_exec n limit s'
  rw [hn] at hexec'
  exact ⟨_, hexec', ⟨hclamped, htwin.entities, htwin.tally⟩, trivial⟩

/-! ### Names -/

theorem entityOf (name : Name) :
    Twins old old' K (Encode.entityOf name) (Encode.entityOf (name.recast f)) fun _ => True := by
  intro s entity t hexec s' htwin
  obtain ⟨rfl, id, hid, hat⟩ := entityOf_ok hexec
  refine ⟨s', ?_, htwin, trivial⟩
  unfold Encode.entityOf
  rw [exec_get_bind, Name.binding_recast, hid, Option.bind_some, htwin.entities, hat]
  rfl

theorem bindName (name : Name) (entity : Entity) :
    Twins old old' K (Encode.bind name entity) (Encode.bind (name.recast f) entity) fun _ => True := by
  intro s a t hexec s' htwin
  obtain ⟨id, journal, hid, hdiagnostics, rfl⟩ := bind_ok hexec
  have hentities : (id, entity) :: s'.entities = (id, entity) :: s.entities := by
    rw [htwin.entities]
  unfold Encode.bind
  rw [Name.binding_recast, hid]
  dsimp only
  rw [exec_get_bind]
  -- the table is logged, or not: neither is a report
  by_cases hshow : s'.showTable = true
  · rw [if_pos hshow]
    exact ⟨_, rfl, ⟨⟨htwin.emitter.code, htwin.emitter.journal.logged hdiagnostics rfl,
      htwin.emitter.full, htwin.emitter.unaddressable⟩, hentities, htwin.tally⟩, trivial⟩
  · rw [if_neg hshow]
    exact ⟨_, rfl, ⟨⟨htwin.emitter.code, htwin.emitter.journal.logged hdiagnostics rfl,
      htwin.emitter.full, htwin.emitter.unaddressable⟩, hentities, htwin.tally⟩, trivial⟩

/-! ### Sizes -/

section

variable (hkeeps : f.Keeps P K)

include hkeeps

theorem word (n : Int) : Twins old old' K (Encode.word n) (Encode.word n) fun _ => True := by
  intro s a t hexec s' htwin
  obtain ⟨ha, rfl⟩ := Prod.mk.inj ((word_exec n s).symm.trans hexec)
  obtain rfl := Except.ok.inj ha
  exact ⟨_, word_exec n s', ⟨htwin.emitter, htwin.entities, hkeeps.meet n htwin.tally⟩, trivial⟩

theorem sizeOf {type : TypeDenoter} (htype : P type) :
    Twins old old' K (Encode.sizeOf type) (Encode.sizeOf (type.recast f)) fun _ => True := by
  intro s a t hexec s' htwin
  obtain ⟨journal, hjournal, hexec'⟩ := sizeOf_exec type s
  obtain ⟨ha, rfl⟩ := Prod.mk.inj (hexec'.symm.trans hexec)
  obtain rfl := Except.ok.inj ha
  obtain ⟨journal', hjournal', hexec''⟩ := sizeOf_exec (type.recast f) s'
  rw [TypeDenoter.size_recast] at hexec''
  exact ⟨_, hexec'', ⟨⟨htwin.emitter.code, htwin.emitter.journal.logged hjournal hjournal', htwin.emitter.full,
    htwin.emitter.unaddressable⟩, htwin.entities, hkeeps.layOut htype htwin.tally⟩, trivial⟩

theorem sizeOf? {type : Option TypeDenoter} (span : Span) (htype : ∀ found ∈ type, P found) :
    Twins old old' K (Encode.sizeOf? type span) (Encode.sizeOf? (type.map (·.recast f)) (f.span span))
      fun _ => True := by
  cases type with
  | some found => exact sizeOf hkeeps (htype found rfl)
  | none =>
    intro s a t hexec
    cases hexec

theorem fieldOffset {record : Vname} (field : Name) (htype : ∀ found ∈ record.type, P found) :
    Twins old old' K (Encode.fieldOffset record field)
      (Encode.fieldOffset (record.recast f) (field.recast f)) fun _ => True := by
  intro s offset t hexec s' htwin
  obtain ⟨type, hrecord, hoffset, hsize⟩ := fieldOffset_ok hexec
  obtain ⟨t', hsize', htwin', -⟩ := sizeOf hkeeps (htype type hrecord) hsize htwin
  refine ⟨t', ?_, htwin', trivial⟩
  unfold Encode.fieldOffset
  rw [Vname.type_recast, hrecord]
  dsimp only [Option.map_some]
  rw [exec_bind hsize', Name.spelling_recast, TypeDenoter.fieldOffset?_recast, hoffset]
  rfl

/-! ### Trees -/

/-- What is so of the parts of a tree whose types satisfy `P`. -/
theorem agrees : Assembler.Agrees Encode.assembler (Encode.assembler.recast f)
    (fun _ => Twins old old' K) { written := P, found := fun type => ∀ found ∈ type, P found } where
  pure := .pure
  bind := .bind
  loadL n := .emit .loadL 0 .cb n
  push n := .emit .push 0 .cb n
  pop n d := .emit .pop n .cb d
  primitive p := .emit .call Register.sb.number .pb p.displacement
  word n := word hkeeps n
  sizeOf htype := sizeOf hkeeps htype
  sizeOf? span htype := sizeOf? hkeeps span htype
  fieldOffset field htype := fieldOffset hkeeps field htype
  entityOf _ := .entityOf _
  bindName _ _ := .bindName _ _
  fetch size _ _ := .bind (.clampOperand size .loadLength) fun _ _ =>
    .requesting (Entity.fetch_asks _ _ _ _) (Entity.fetch_answers _ _ _ _)
  store size _ _ := .bind (.clampOperand size .storeLength) fun _ _ =>
    .requesting (Entity.store_asks _ _ _ _) (Entity.store_answers _ _ _ _)
  fetchAddress _ _ := .requesting (Entity.fetchAddress_asks _ _ _) (Entity.fetchAddress_answers _ _ _)
  invoke _ _ := .bind (.entityOf _) fun _ _ =>
    .requesting (Entity.call_asks _ _) (Entity.call_answers _ _)
  pass _ _ := .bind (.entityOf _) fun _ _ =>
    .requesting (Entity.fetchClosure_asks _ _) (Entity.fetchClosure_answers _ _)

omit hkeeps in
theorem nests (level : Nat) : Twins old old' K (Encode.assembler.nests level) (Encode.assembler.nests level)
    fun nested => nested = true → level < Machine.maxRoutineLevel := by
  unfold Encode.assembler
  dsimp only
  by_cases hlevel : level ≥ Machine.maxRoutineLevel
  · rw [if_pos hlevel]
    exact bind (emitting fun htwin => htwin.restrict _) fun _ _ => pure nofun
  · rw [if_neg hlevel]
    exact pure fun _ => Nat.lt_of_not_le hlevel

omit hkeeps in
theorem controls : Assembler.Controls Encode.assembler (Encode.assembler.recast f) (Twins old old' K)
    { written := P, found := fun type => ∀ found ∈ type, P found } where
  next := .next
  jump op n d := .emit op n .cb d
  patch address := .emitting fun htwin => htwin.patch address
  nests := .nests
  bindRoutine _ _ := .bindName _ _

/-- Twins that encode a command and the command recast stay twins. -/
theorem command {phrase : Command} (hall : phrase.All P fun type => ∀ found ∈ type, P found)
    {frame : Frame} (hlevel : frame.level ≤ Machine.maxRoutineLevel) :
    Twins old old' K (Encode.command phrase frame) (Encode.command (phrase.recast f) frame)
      fun _ => True := by
  have hagrees : Assembler.Agrees _ _ (fun _ => Twins old old' K) _ := agrees hkeeps
  have hcommand := (hagrees.covers controls).command hlevel hall fun _ _ => trivial
  rw [← Assembler.command_recast, assembler_command, assembler_command] at hcommand
  exact hcommand

end

end Twins

end Encode

end TriangleTam
