import TriangleTam.Proofs.Coding.Depths
import TriangleTam.Proofs.Coding.Routines

/-! # Effects of instructions

  What an instruction takes and leaves can be read off the code around it and
  the routines of the program: a routine is called where its body starts or by
  the closure that was pushed before, and the operands of an equality are as
  long as the literal in front of it says. Lines are **effective** when each of
  them says this of its instruction.

  A routine **stands** in lines when its body is there, closed, with the link
  data alone on the stack where it starts and its result on top of that where
  its return ends it.
-/

namespace TriangleTam

/-! ## Effects -/

/-- What the instruction at `a` of the code takes and leaves. -/
inductive Effect (π : Plan) (code : List Instruction) (a : Nat) : Transfer → Prop
  /-- Anything but a call has its own effect. -/
  | plain {i} : code[a]? = some i → i.op ≠ .call → i.op ≠ .callI → Effect π code a i.transfer
  | primitive {p} :
      code[a]? = some (.primitive p) → ¬ p.IsEquality → Effect π code a p.transfer
  /-- The size of the operands is on the stack too. -/
  | equality {b p n} :
      a = b + 1 → code[b]? = some (.plain .loadL 0 n) → code[a]? = some (.primitive p) →
      p.IsEquality → Effect π code a ⟨2 * n + 1, 1⟩
  /-- A declared routine is called where it starts. -/
  | routine {routine link size address} :
      code[a]? = some ⟨.call, Register.cb.number, link, address.displacement⟩ →
      routine ∈ π.routines → routine.declared = true →
      π.entity routine.binding = some (.knownRoutine size address) →
      Effect π code a routine.transfer
  /-- A routine that is a parameter is called by its closure. -/
  | closure {b routine frame size address} :
      a = b + 1 → code[b]? = some (address.pushClosureCode frame) →
      code[a]? = some (.plain .callI 0 0) →
      routine ∈ π.routines → routine.declared = false →
      π.entity routine.binding = some (.unknownRoutine size address) →
      Effect π code a ⟨routine.transfer.takes + Machine.closureSize, routine.transfer.leaves⟩

namespace Effect

variable {π : Plan} {code more : List Instruction} {a : Nat} {t : Transfer}

theorem append_left (h : Effect π code a t) : Effect π (code ++ more) a t := by
  have hleft {b : Nat} {i : Instruction} (hat : code[b]? = some i) :
      (code ++ more)[b]? = some i := by
    rw [List.getElem?_append_left (List.getElem?_eq_some_iff.1 hat).1, hat]
  cases h with
  | plain hat hcall hcallI => exact .plain (hleft hat) hcall hcallI
  | primitive hat hp => exact .primitive (hleft hat) hp
  | equality hb hat hat' hp => exact .equality hb (hleft hat) (hleft hat') hp
  | routine hat hmem hdeclared hentity => exact .routine (hleft hat) hmem hdeclared hentity
  | closure hb hat hat' hmem hdeclared hentity =>
    exact .closure hb (hleft hat) (hleft hat') hmem hdeclared hentity

theorem append_right (h : Effect π code a t) : Effect π (more ++ code) (more.length + a) t := by
  have hright {b : Nat} {i : Instruction} (hat : code[b]? = some i) :
      (more ++ code)[more.length + b]? = some i := by
    rw [List.getElem?_append_right (Nat.le_add_right _ _), Nat.add_sub_cancel_left, hat]
  cases h with
  | plain hat hcall hcallI => exact .plain (hright hat) hcall hcallI
  | primitive hat hp => exact .primitive (hright hat) hp
  | equality hb hat hat' hp =>
    subst hb
    exact .equality (Nat.add_assoc _ _ _).symm (hright hat) (hright hat') hp
  | routine hat hmem hdeclared hentity => exact .routine (hright hat) hmem hdeclared hentity
  | closure hb hat hat' hmem hdeclared hentity =>
    subst hb
    exact .closure (Nat.add_assoc _ _ _).symm (hright hat) (hright hat') hmem hdeclared hentity

end Effect

/-! ## Effective lines -/

namespace Line

/-- Each line says what its instruction takes and leaves. -/
def Effects (π : Plan) (lines : List Line) : Prop :=
  ∀ (i : Nat) (line : Line), lines[i]? = some line → Effect π (codeOf lines) i line.transfer

/-- The effects are right, no line is a halt, and a return finds the link data and its result on
    the stack. -/
structure Effective (π : Plan) (lines : List Line) : Prop where
  effects : Effects π lines
  runs    : ∀ line ∈ lines, line.instruction.op ≠ .halt
  returns : ∀ line ∈ lines, line.instruction.op = .ret →
    line.depth = Machine.linkDataSize + line.instruction.n

variable {π : Plan} {line : Line} {lines first second : List Line}

namespace Effects

theorem append (h : Effects π first) (h' : Effects π second) : Effects π (first ++ second) := by
  intro i line hline
  rw [codeOf_append]
  by_cases hi : i < first.length
  · rw [List.getElem?_append_left hi] at hline
    exact (h i line hline).append_left
  · obtain ⟨k, rfl⟩ : ∃ k, i = first.length + k := ⟨i - first.length, by omega⟩
    rw [List.getElem?_append_right (Nat.le_add_right _ _), Nat.add_sub_cancel_left] at hline
    rw [← length_codeOf first]
    exact (h' k line hline).append_right

theorem single (h : Effect π [line.instruction] 0 line.transfer) : Effects π [line] := by
  intro i found hfound
  cases i with
  | zero =>
    obtain rfl : line = found := Option.some.inj hfound
    exact h
  | succ i => cases hfound

end Effects

end Line

namespace Line.Effective

variable {π : Plan} {line : Line} {lines first second : List Line}

theorem nil : Effective π [] where
  effects _ _ hline := by cases hline
  runs _ hmem       := absurd hmem List.not_mem_nil
  returns _ hmem    := absurd hmem List.not_mem_nil

theorem append (h : Effective π first) (h' : Effective π second) :
    Effective π (first ++ second) := by
  refine ⟨h.effects.append h'.effects, ?_, ?_⟩
  · intro line hmem
    rcases List.mem_append.1 hmem with hmem | hmem
    · exact h.runs line hmem
    · exact h'.runs line hmem
  · intro line hmem
    rcases List.mem_append.1 hmem with hmem | hmem
    · exact h.returns line hmem
    · exact h'.returns line hmem

theorem single (h : Effect π [line.instruction] 0 line.transfer)
    (hhalt : line.instruction.op ≠ .halt)
    (hret : line.instruction.op = .ret → line.depth = Machine.linkDataSize + line.instruction.n) :
    Effective π [line] := by
  refine ⟨.single h, ?_, ?_⟩
  · intro found hmem
    rw [List.mem_singleton.1 hmem]
    exact hhalt
  · intro found hmem
    rw [List.mem_singleton.1 hmem]
    exact hret

theorem cons (h : Effective π [line]) (h' : Effective π lines) : Effective π (line :: lines) := by
  rw [← List.singleton_append]
  exact h.append h'

/-- A line with the effect of its instruction, which is no call. -/
theorem of_plain {i : Instruction} {depth : Int} {t : Transfer} (ht : i.transfer = t)
    (hcall : i.op ≠ .call) (hcallI : i.op ≠ .callI) (hhalt : i.op ≠ .halt)
    (hret : i.op = .ret → depth = Machine.linkDataSize + i.n) : Effective π [⟨i, depth, t⟩] := by
  subst ht
  exact single (.plain rfl hcall hcallI) hhalt hret

theorem jump (target : Nat) (depth : Int) : Effective π [.jump target depth] :=
  of_plain rfl nofun nofun nofun nofun

theorem jumpIf (n : Int) (target : Nat) (depth : Int) : Effective π [.jumpIf n target depth] :=
  of_plain rfl nofun nofun nofun nofun

theorem ret (result arguments : Int) :
    Effective π [.ret result arguments (Machine.linkDataSize + result)] :=
  of_plain rfl nofun nofun nofun fun _ => rfl

end Line.Effective

theorem Instruction.IsStraight.effective {π : Plan} {i : Instruction} (h : i.IsStraight)
    (depth : Int) : Line.Effective π [⟨i, depth, i.transfer⟩] := by
  have hhalt : i.op ≠ .halt := by
    intro hop
    rw [IsStraight, hop] at h
    exact h
  have hret : i.op ≠ .ret := by
    intro hop
    rw [IsStraight, hop] at h
    exact h
  refine .single ?_ hhalt fun hop => absurd hop hret
  by_cases hcall : i.op = .call
  · rw [IsStraight, hcall] at h
    obtain ⟨p, hp, rfl⟩ := h
    show Effect π [.primitive p] 0 (primitive p).transfer
    rw [transfer_primitive]
    exact .primitive rfl hp
  · have hcallI : i.op ≠ .callI := by
      intro hop
      rw [IsStraight, hop] at h
      exact h
    exact .plain rfl hcall hcallI

open Instruction (Deepen)

namespace Line

variable {π : Plan}

theorem effective_straight {is : List Instruction} {n : Int} (h : Deepen is n) (depth : Int) :
    Effective π (straight depth is) := by
  induction h generalizing depth with
  | nil => exact .nil
  | cons hi _ ih => exact .cons (hi.effective depth) (ih _)

theorem effective_release (depth n extra : Int) : Effective π (release depth n extra) := by
  unfold release
  by_cases hpos : extra > 0
  · rw [if_pos hpos]
    have hpop : Deepen [.plain .pop n extra] (n - (n + extra)) := .single trivial rfl
    exact effective_straight hpop depth
  · rw [if_neg hpos]
    exact .nil

/-- Two lines of which the second has its effect because of the first. -/
theorem effective_pair {line line' : Line} (h : Effective π [line])
    (h' : Effect π [line.instruction, line'.instruction] 1 line'.transfer)
    (hhalt : line'.instruction.op ≠ .halt) (hret : line'.instruction.op ≠ .ret) :
    Effective π [line, line'] := by
  refine ⟨?_, ?_, ?_⟩
  · intro i found hfound
    match i with
    | 0 => exact (h.effects 0 found hfound).append_left
    | 1 =>
      obtain rfl : line' = found := Option.some.inj hfound
      exact h'
    | i + 2 => cases hfound
  · intro found hmem
    rcases List.mem_cons.1 hmem with rfl | hmem
    · exact h.runs found (List.mem_singleton_self _)
    · rw [List.mem_singleton.1 hmem]
      exact hhalt
  · intro found hmem hop
    rcases List.mem_cons.1 hmem with rfl | hmem
    · exact h.returns found (List.mem_singleton_self _) hop
    · rw [List.mem_singleton.1 hmem] at hop
      exact absurd hop hret

end Line

/-- A call has the effect of what it calls. -/
theorem Entity.Performs.effective_callLines {π : Plan} {id : BindingId} {t : Transfer}
    {entity : Entity} (h : entity.Performs π id t) (hentity : π.entity id = some entity)
    (frame : Frame) : Line.Effective π (entity.callLines frame t) := by
  cases h with
  | routine hmem => exact .single (.routine rfl hmem rfl hentity) nofun nofun
  | @closure size address t hmem =>
    have hload : Line.Effective π [⟨address.pushClosureCode frame, frame.size + t.takes,
        ⟨0, Machine.closureSize⟩⟩] := .of_plain rfl nofun nofun nofun nofun
    exact Line.effective_pair hload (.closure rfl rfl rfl hmem rfl hentity) nofun nofun
  | @primitive p hp =>
    unfold callLines
    dsimp only
    by_cases hid : p = .id
    · rw [if_pos hid]
      exact .nil
    · rw [if_neg hid]
      exact .single (.primitive rfl hp) nofun nofun
  | @equality p n hp =>
    have hhalf : (2 * n).tdiv 2 = n := Int.mul_tdiv_cancel_left n (by decide)
    have hload : Line.Effective π [⟨.plain .loadL 0 ((2 * n).tdiv 2), frame.size + 2 * n, ⟨0, 1⟩⟩] :=
      .of_plain rfl nofun nofun nofun nofun
    refine Line.effective_pair hload ?_ nofun nofun
    show Effect π [.plain .loadL 0 ((2 * n).tdiv 2), .primitive p] 1 ⟨2 * n + 1, 1⟩
    rw [hhalf]
    exact .equality rfl rfl rfl hp
  | bar => exact Line.effective_straight ((Deepen.literal 100).append .mult) _

mutual

theorem Command.Code.effective {π : Plan} {F : Frame} {a : Nat} {command : Command}
    {lines : List Line} : Command.Code π F a command lines → Line.Effective π lines
  | .empty => .nil
  | .assign hvalue htarget hvariable =>
    hvalue.effective.append (htarget.effective.append
      (Line.effective_straight (hvariable.deepen_storeCode _ _ _) _))
  | .call hargs _ hentity hperforms _ =>
    hargs.effective.append (hperforms.effective_callLines hentity F)
  | .sequence hfirst hsecond => hfirst.effective.append hsecond.effective
  | .letIn hdeclared hbody =>
    hdeclared.effective.append (hbody.effective.append (Line.effective_release _ _ _))
  | .ifElse hcondition hthen helse =>
    hcondition.effective.append (.cons (.jumpIf _ _ _)
      (hthen.effective.append (.cons (.jump _ _) helse.effective)))
  | .whileDo hbody hcondition =>
    .cons (.jump _ _) (hbody.effective.append (hcondition.effective.append (.jumpIf _ _ _)))
  | .repeatUntil hbody hcondition =>
    hbody.effective.append (hcondition.effective.append (.jumpIf _ _ _))
  | .loopWhile hbody hcondition htail =>
    hbody.effective.append (hcondition.effective.append (.cons (.jumpIf _ _ _)
      (htail.effective.append (.jump _ _))))

theorem Expression.Code.effective {π : Plan} {F : Frame} {a : Nat} {expression : Expression}
    {lines : List Line} {n : Int} :
    Expression.Code π F a expression lines n → Line.Effective π lines
  | .integer | .character => Line.effective_straight (.literal _) _
  | .vname hfound hsuits =>
    hfound.effective.append (Line.effective_straight (hsuits.deepen_fetchCode F) _)
  | .call hargs _ hentity hperforms =>
    hargs.effective.append (hperforms.effective_callLines hentity F)
  | .ifElse hcondition hthen helse =>
    hcondition.effective.append (.cons (.jumpIf _ _ _)
      (hthen.effective.append (.cons (.jump _ _) helse.effective)))
  | .letIn hdeclared hbody =>
    hdeclared.effective.append (hbody.effective.append (Line.effective_release _ _ _))
  | .unary hoperand _ hentity hperforms =>
    hoperand.effective.append (hperforms.effective_callLines hentity F)
  | .binary hleft hright _ hentity hperforms _ =>
    hleft.effective.append (hright.effective.append (hperforms.effective_callLines hentity F))
  | .array helements => helements.effective
  | .record hfields => hfields.effective

theorem ArrayAggregate.Code.effective {π : Plan} {F : Frame} {a : Nat}
    {elements : ArrayAggregate} {lines : List Line} {n : Int} :
    ArrayAggregate.Code π F a elements lines n → Line.Effective π lines
  | .one helement => helement.effective
  | .more helement hrest => helement.effective.append hrest.effective

theorem RecordAggregate.Code.effective {π : Plan} {F : Frame} {a : Nat}
    {fields : RecordAggregate} {lines : List Line} {n : Int} :
    RecordAggregate.Code π F a fields lines n → Line.Effective π lines
  | .one hvalue => hvalue.effective
  | .more hvalue hrest => hvalue.effective.append hrest.effective

theorem Vname.Code.effective {π : Plan} {F : Frame} {a : Nat} {vname : Vname}
    {lines : List Line} {entity : Entity} {access : Access} :
    Vname.Code π F a vname lines entity access → Line.Effective π lines
  | .simple _ _ => .nil
  | .dot hrecord _ _ _ => hrecord.effective
  | .known harray _ _ => harray.effective
  | .unknown harray _ _ hindex =>
    harray.effective.append (hindex.effective.append (Line.effective_straight
      ((deepen_scaleCode _).append (Access.deepen_indexCode _)) _))

theorem Declaration.Code.effective {π : Plan} {F : Frame} {a : Nat} {declaration : Declaration}
    {lines : List Line} {extra : Int} :
    Declaration.Code π F a declaration lines extra → Line.Effective π lines
  | .literal .. | .type => .nil
  | .const _ hvalue _ _ _ => hvalue.effective
  | .var _ _ _ => Line.effective_straight (.push _) _
  | .proc _ _ hbody => .cons (.jump _ _) (hbody.effective.append (.ret _ _))
  | .func _ _ hbody => .cons (.jump _ _) (hbody.effective.append (.ret _ _))
  | .sequence hfirst hsecond => hfirst.effective.append hsecond.effective

theorem Actuals.Code.effective {π : Plan} {F : Frame} {a : Nat} {actuals : Actuals}
    {lines : List Line} {n : Int} :
    Actuals.Code π F a actuals lines n → Line.Effective π lines
  | .empty => .nil
  | .one hfirst => hfirst.effective
  | .more hfirst hrest => hfirst.effective.append hrest.effective

theorem Actual.Code.effective {π : Plan} {F : Frame} {a : Nat} {actual : Actual}
    {lines : List Line} {n : Int} :
    Actual.Code π F a actual lines n → Line.Effective π lines
  | .const hvalue => hvalue.effective
  | .var hfound hvariable =>
    hfound.effective.append (Line.effective_straight (hvariable.deepen_addressCode F _) _)
  | .proc _ _ hroutine | .func _ _ hroutine =>
    Line.effective_straight (hroutine.deepen_closureCode F) _

end

/-! ## Routines that stand in lines -/

/-- In lines that start at `base` the body of the routine starts where the routine is
    represented, and its return ends it. -/
def Routine.Stands (π : Plan) (base : Nat) (lines : List Line) (routine : Routine) : Prop :=
  ∃ (level : Nat) (before body after : List Line),
    π.entity routine.binding =
      some (.knownRoutine Machine.closureSize ⟨level, (base + before.length : Nat)⟩) ∧
    Line.Closed (base + before.length) body Machine.linkDataSize
      (Machine.linkDataSize + routine.transfer.leaves) ∧
    lines = before ++ (body ++ Line.ret routine.transfer.leaves routine.transfer.takes
      (Machine.linkDataSize + routine.transfer.leaves) :: after)

/-- Every declared routine stands in the lines. -/
def Line.Hold (π : Plan) (base : Nat) (lines : List Line) (routines : List Routine) : Prop :=
  ∀ routine ∈ routines, routine.declared = true → routine.Stands π base lines

namespace Line.Hold

variable {π : Plan} {base : Nat} {line : Line} {lines first second : List Line}
  {routines routines' : List Routine}

theorem nil : Hold π base lines [] := nofun

theorem append_left (h : Hold π base first routines) : Hold π base (first ++ second) routines := by
  intro routine hmem hdeclared
  obtain ⟨level, before, body, after, hentity, hclosed, rfl⟩ := h routine hmem hdeclared
  refine ⟨level, before, body, after ++ second, hentity, hclosed, ?_⟩
  simp

theorem append_right (h : Hold π (base + first.length) second routines) :
    Hold π base (first ++ second) routines := by
  intro routine hmem hdeclared
  obtain ⟨level, before, body, after, hentity, hclosed, rfl⟩ := h routine hmem hdeclared
  have hbase : base + (first ++ before).length = base + first.length + before.length := by
    rw [List.length_append, Nat.add_assoc]
  refine ⟨level, first ++ before, body, after, ?_, ?_, ?_⟩
  · rw [hbase, hentity]
  · rw [hbase]
    exact hclosed
  · simp

theorem cons (h : Hold π (base + 1) lines routines) : Hold π base (line :: lines) routines := by
  rw [← List.singleton_append]
  exact append_right h

/-- More routines in the same lines. -/
theorem both (h : Hold π base lines routines) (h' : Hold π base lines routines') :
    Hold π base lines (routines ++ routines') := by
  intro routine hmem
  rcases List.mem_append.1 hmem with hmem | hmem
  · exact h routine hmem
  · exact h' routine hmem

theorem append (h : Hold π base first routines)
    (h' : Hold π (base + first.length) second routines') :
    Hold π base (first ++ second) (routines ++ routines') :=
  h.append_left.both h'.append_right

theorem of_none (h : ∀ routine ∈ routines, routine.declared = false) :
    Hold π base lines routines := by
  intro routine hmem hdeclared
  rw [h routine hmem] at hdeclared
  cases hdeclared

end Line.Hold

/-- Parameters are not declared. -/
theorem Formal.not_declared (formal : Formal) :
    ∀ routine ∈ formal.routines, routine.declared = false := by
  have hname (name : Name) (t : Transfer) :
      ∀ routine ∈ name.routine t false, routine.declared = false := by
    intro routine hmem
    obtain ⟨id, -, rfl⟩ := List.mem_map.1 hmem
    rfl
  cases formal with
  | const | var => exact List.forall_mem_nil _
  | proc _ _ name inner => exact hname name _
  | func _ _ name inner result => exact hname name _

theorem Formals.not_declared (formals : Formals) :
    ∀ routine ∈ formals.routines, routine.declared = false := by
  cases formals with
  | empty => exact List.forall_mem_nil _
  | one _ first => exact first.not_declared
  | more _ first rest =>
    intro routine hmem
    rcases List.mem_append.1 hmem with hmem | hmem
    · exact first.not_declared routine hmem
    · exact rest.not_declared routine hmem

/-- There are no routines in a literal. -/
theorem Expression.routines_of_literalValue? {expression : Expression} {value : Int}
    (h : expression.literalValue? = some value) : expression.routines = [] := by
  cases expression with
  | integer | character => rfl
  | _ => cases h

/-- The routine of a declaration stands in its lines, with all those in its body. -/
theorem Line.Hold.routine {π : Plan} {base level : Nat} {lines : List Line} {name : Name}
    {id : BindingId} {n words depth : Int} {target : Nat} {parameters : Formals}
    {routines : List Routine} (hname : name.binding = some id)
    (hentity : π.entity id = some (.knownRoutine Machine.closureSize ⟨level, (base + 1 : Nat)⟩))
    (hclosed : Line.Closed (base + 1) lines Machine.linkDataSize (Machine.linkDataSize + n))
    (hbody : Hold π (base + 1) lines routines) :
    Hold π base (jump target depth :: (lines ++ [ret n words (Machine.linkDataSize + n)]))
      (name.routine ⟨words, n⟩ true ++ (parameters.routines ++ routines)) := by
  have hself : Hold π base (jump target depth :: (lines ++ [ret n words
      (Machine.linkDataSize + n)])) (name.routine ⟨words, n⟩ true) := by
    intro routine hmem _
    rw [Name.routine, hname] at hmem
    obtain rfl := List.mem_singleton.1 hmem
    exact ⟨level, [jump target depth], lines, [], hentity, hclosed, rfl⟩
  exact hself.both ((of_none parameters.not_declared).both hbody.append_left.cons)

mutual

theorem Command.Code.hold {π : Plan} {F : Frame} {a : Nat} {command : Command}
    {lines : List Line} :
    Command.Code π F a command lines → Line.Hold π a lines command.routines
  | .empty => .nil
  | .assign hvalue htarget _ =>
    .both (.append_right htarget.hold.append_left) hvalue.hold.append_left
  | .call hargs _ _ _ _ => hargs.hold.append_left
  | .sequence hfirst hsecond => hfirst.hold.append hsecond.hold
  | .letIn hdeclared hbody => hdeclared.hold.append hbody.hold.append_left
  | .ifElse hcondition hthen helse =>
    hcondition.hold.append (.cons (hthen.hold.append (.cons helse.hold)))
  | .whileDo hbody hcondition =>
    .cons (.both (.append_right hcondition.hold.append_left) hbody.hold.append_left)
  | .repeatUntil hbody hcondition => hbody.hold.append hcondition.hold.append_left
  | .loopWhile hbody hcondition htail =>
    hbody.hold.append (hcondition.hold.append (.cons htail.hold.append_left))

theorem Expression.Code.hold {π : Plan} {F : Frame} {a : Nat} {expression : Expression}
    {lines : List Line} {n : Int} :
    Expression.Code π F a expression lines n → Line.Hold π a lines expression.routines
  | .integer | .character => .nil
  | .vname hfound _ => hfound.hold.append_left
  | .call hargs _ _ _ => hargs.hold.append_left
  | .ifElse hcondition hthen helse =>
    hcondition.hold.append (.cons (hthen.hold.append (.cons helse.hold)))
  | .letIn hdeclared hbody => hdeclared.hold.append hbody.hold.append_left
  | .unary hoperand _ _ _ => hoperand.hold.append_left
  | .binary hleft hright _ _ _ _ => hleft.hold.append hright.hold.append_left
  | .array helements => helements.hold
  | .record hfields => hfields.hold

theorem ArrayAggregate.Code.hold {π : Plan} {F : Frame} {a : Nat} {elements : ArrayAggregate}
    {lines : List Line} {n : Int} :
    ArrayAggregate.Code π F a elements lines n → Line.Hold π a lines elements.routines
  | .one helement => helement.hold
  | .more helement hrest => helement.hold.append hrest.hold

theorem RecordAggregate.Code.hold {π : Plan} {F : Frame} {a : Nat} {fields : RecordAggregate}
    {lines : List Line} {n : Int} :
    RecordAggregate.Code π F a fields lines n → Line.Hold π a lines fields.routines
  | .one hvalue => hvalue.hold
  | .more hvalue hrest => hvalue.hold.append hrest.hold

theorem Vname.Code.hold {π : Plan} {F : Frame} {a : Nat} {vname : Vname} {lines : List Line}
    {entity : Entity} {access : Access} :
    Vname.Code π F a vname lines entity access → Line.Hold π a lines vname.routines
  | .simple _ _ => .nil
  | .dot hrecord _ _ _ => hrecord.hold
  | .known harray _ hindex => by
    have hnone := Expression.routines_of_literalValue?
      (Expression.literalValue?_of_integerValue? hindex)
    rw [Vname.routines, hnone, List.append_nil]
    exact harray.hold
  | .unknown harray _ _ hindex => harray.hold.append hindex.hold.append_left

theorem Declaration.Code.hold {π : Plan} {F : Frame} {a : Nat} {declaration : Declaration}
    {lines : List Line} {extra : Int} :
    Declaration.Code π F a declaration lines extra → Line.Hold π a lines declaration.routines
  | .literal hliteral _ _ => by
    rw [Declaration.routines, Expression.routines_of_literalValue? hliteral]
    exact .nil
  | .const _ hvalue _ _ _ => hvalue.hold
  | .var .. | .type => .nil
  | .proc hname hentity hbody => .routine hname hentity hbody.closed hbody.hold
  | .func hname hentity hbody => .routine hname hentity hbody.closed hbody.hold
  | .sequence hfirst hsecond => hfirst.hold.append hsecond.hold

theorem Actuals.Code.hold {π : Plan} {F : Frame} {a : Nat} {actuals : Actuals}
    {lines : List Line} {n : Int} :
    Actuals.Code π F a actuals lines n → Line.Hold π a lines actuals.routines
  | .empty => .nil
  | .one hfirst => hfirst.hold
  | .more hfirst hrest => hfirst.hold.append hrest.hold

theorem Actual.Code.hold {π : Plan} {F : Frame} {a : Nat} {actual : Actual}
    {lines : List Line} {n : Int} :
    Actual.Code π F a actual lines n → Line.Hold π a lines actual.routines
  | .const hvalue => hvalue.hold
  | .var hfound _ => hfound.hold.append_left
  | .proc .. | .func .. => .nil

end

end TriangleTam
