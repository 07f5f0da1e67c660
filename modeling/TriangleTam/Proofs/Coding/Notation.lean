import TriangleTam.Proofs.Coding.Scheme
import TriangleTam.Proofs.Text.Assembly

/-! # Code as the notation shows it

  The notation of an instruction leaves words out, and the code scheme always
  writes the same in their place: the code base for a register, the stack base
  for the static link of a primitive routine, and zero for a size or a
  displacement. So lines are **plain**: each of their instructions is what its
  text shows.
-/

namespace TriangleTam

open Instruction (shown)

/-! ## Instructions and sequences -/

theorem Instruction.shown_primitive (p : Primitive) : (primitive p).shown = primitive p := by
  show (if _ then _ else _) = _
  split <;> rfl

theorem Instruction.shown_pair {i j : Instruction} (hi : i.shown = i) (hj : j.shown = j) :
    ∀ k ∈ [i, j], k.shown = k :=
  List.forall_mem_cons.2 ⟨hi, List.forall_mem_singleton.2 hj⟩

theorem Access.shown_indexCode (access : Access) : ∀ i ∈ access.indexCode, i.shown = i := by
  unfold indexCode
  split
  · exact List.forall_mem_singleton.2 (Instruction.shown_primitive .add)
  · nofun

theorem shown_scaleCode (width : Int) : ∀ i ∈ scaleCode width, i.shown = i := by
  unfold scaleCode
  split
  · exact Instruction.shown_pair rfl (Instruction.shown_primitive _)
  · nofun

namespace Address

theorem shown_pushCode (address : Address) (frame : Frame) (access : Access) :
    ∀ i ∈ address.pushCode frame access, i.shown = i :=
  List.forall_mem_cons.2 ⟨rfl, access.shown_indexCode⟩

theorem shown_pushStoredCode (address : Address) (frame : Frame) (access : Access) :
    ∀ i ∈ address.pushStoredCode frame access, i.shown = i := by
  refine List.forall_mem_cons.2 ⟨rfl, List.forall_mem_append.2 ⟨access.shown_indexCode, ?_⟩⟩
  split
  · nofun
  · exact Instruction.shown_pair rfl (Instruction.shown_primitive _)

end Address

namespace Entity

variable (entity : Entity) (frame : Frame) (size : Int) (access : Access)

theorem shown_fetchCode : ∀ i ∈ entity.fetchCode frame size access, i.shown = i := by
  unfold fetchCode
  split
  · exact List.forall_mem_singleton.2 rfl
  · split
    · exact List.forall_mem_append.2
        ⟨Address.shown_pushCode _ _ _, List.forall_mem_singleton.2 rfl⟩
    · exact List.forall_mem_singleton.2 rfl
  · split
    · exact List.forall_mem_append.2
        ⟨Address.shown_pushCode _ _ _, List.forall_mem_singleton.2 rfl⟩
    · exact List.forall_mem_singleton.2 rfl
  · exact List.forall_mem_append.2
      ⟨Address.shown_pushStoredCode _ _ _, List.forall_mem_singleton.2 rfl⟩
  · nofun

theorem shown_storeCode : ∀ i ∈ entity.storeCode frame size access, i.shown = i := by
  unfold storeCode
  split
  · split
    · exact List.forall_mem_append.2
        ⟨Address.shown_pushCode _ _ _, List.forall_mem_singleton.2 rfl⟩
    · exact List.forall_mem_singleton.2 rfl
  · exact List.forall_mem_append.2
      ⟨Address.shown_pushStoredCode _ _ _, List.forall_mem_singleton.2 rfl⟩
  · nofun

theorem shown_addressCode : ∀ i ∈ entity.addressCode frame access, i.shown = i := by
  unfold addressCode
  split
  · exact Address.shown_pushCode _ _ _
  · exact Address.shown_pushStoredCode _ _ _
  · nofun

theorem shown_callCode : ∀ i ∈ entity.callCode frame size, i.shown = i := by
  unfold callCode
  split
  · exact List.forall_mem_singleton.2 rfl
  · exact Instruction.shown_pair rfl rfl
  · split
    · nofun
    · exact List.forall_mem_singleton.2 (Instruction.shown_primitive _)
  · exact Instruction.shown_pair rfl (Instruction.shown_primitive _)
  · exact Instruction.shown_pair rfl (Instruction.shown_primitive _)
  · nofun

theorem shown_closureCode : ∀ i ∈ entity.closureCode frame, i.shown = i := by
  unfold closureCode
  split
  · exact Instruction.shown_pair rfl rfl
  · exact List.forall_mem_singleton.2 rfl
  · exact Instruction.shown_pair rfl rfl
  · exact Instruction.shown_pair rfl rfl
  · exact Instruction.shown_pair rfl rfl
  · nofun

end Entity

/-! ## Lines -/

/-- Each instruction is what its text shows. -/
def Line.Plain (lines : List Line) : Prop := ∀ i ∈ codeOf lines, i.shown = i

namespace Line.Plain

variable {line : Line} {lines first second : List Line}

theorem nil : Plain [] := nofun

theorem append (h : Plain first) (h' : Plain second) : Plain (first ++ second) := by
  unfold Plain
  rw [codeOf_append]
  exact List.forall_mem_append.2 ⟨h, h'⟩

theorem cons (h : line.instruction.shown = line.instruction) (h' : Plain lines) :
    Plain (line :: lines) := List.forall_mem_cons.2 ⟨h, h'⟩

theorem straight {depth : Int} {is : List Instruction} (h : ∀ i ∈ is, i.shown = i) :
    Plain (straight depth is) := by
  unfold Plain
  rwa [codeOf_straight]

theorem release (depth n extra : Int) : Plain (release depth n extra) := by
  unfold Line.release
  split
  · exact straight (List.forall_mem_singleton.2 rfl)
  · exact nil

theorem call (entity : Entity) (frame : Frame) (t : Transfer) :
    Plain (entity.callLines frame t) := by
  unfold Plain
  rw [Entity.codeOf_callLines]
  exact entity.shown_callCode frame t.takes

end Line.Plain

/-! ## The scheme -/

mutual

/-- The code of a command is plain. -/
theorem Command.Code.plain {π : Plan} {F : Frame} {a : Nat} {command : Command}
    {lines : List Line} : Command.Code π F a command lines → Line.Plain lines
  | .empty => .nil
  | .assign hvalue htarget _ =>
    hvalue.plain.append (htarget.plain.append (.straight (Entity.shown_storeCode _ _ _ _)))
  | .call hargs _ _ _ _ => hargs.plain.append (.call _ F _)
  | .sequence hfirst hsecond => hfirst.plain.append hsecond.plain
  | .letIn hdeclared hbody => hdeclared.plain.append (hbody.plain.append (.release _ _ _))
  | .ifElse hcondition hthen helse =>
    hcondition.plain.append (.cons rfl (hthen.plain.append (.cons rfl helse.plain)))
  | .whileDo hbody hcondition =>
    .cons rfl (hbody.plain.append (hcondition.plain.append (.cons rfl .nil)))
  | .repeatUntil hbody hcondition =>
    hbody.plain.append (hcondition.plain.append (.cons rfl .nil))
  | .loopWhile hbody hcondition htail =>
    hbody.plain.append (hcondition.plain.append (.cons rfl
      (htail.plain.append (.cons rfl .nil))))

theorem Expression.Code.plain {π : Plan} {F : Frame} {a : Nat} {expression : Expression}
    {lines : List Line} {n : Int} :
    Expression.Code π F a expression lines n → Line.Plain lines
  | .integer | .character => .straight (List.forall_mem_singleton.2 rfl)
  | .vname hfound _ => hfound.plain.append (.straight (Entity.shown_fetchCode _ _ _ _))
  | .call hargs _ _ _ => hargs.plain.append (.call _ F _)
  | .ifElse hcondition hthen helse =>
    hcondition.plain.append (.cons rfl (hthen.plain.append (.cons rfl helse.plain)))
  | .letIn hdeclared hbody => hdeclared.plain.append (hbody.plain.append (.release _ _ _))
  | .unary hoperand _ _ _ => hoperand.plain.append (.call _ F _)
  | .binary hleft hright _ _ _ _ => hleft.plain.append (hright.plain.append (.call _ F _))
  | .array helements => helements.plain
  | .record hfields => hfields.plain

theorem ArrayAggregate.Code.plain {π : Plan} {F : Frame} {a : Nat} {elements : ArrayAggregate}
    {lines : List Line} {n : Int} :
    ArrayAggregate.Code π F a elements lines n → Line.Plain lines
  | .one helement => helement.plain
  | .more helement hrest => helement.plain.append hrest.plain

theorem RecordAggregate.Code.plain {π : Plan} {F : Frame} {a : Nat} {fields : RecordAggregate}
    {lines : List Line} {n : Int} :
    RecordAggregate.Code π F a fields lines n → Line.Plain lines
  | .one hvalue => hvalue.plain
  | .more hvalue hrest => hvalue.plain.append hrest.plain

theorem Vname.Code.plain {π : Plan} {F : Frame} {a : Nat} {vname : Vname} {lines : List Line}
    {entity : Entity} {access : Access} :
    Vname.Code π F a vname lines entity access → Line.Plain lines
  | .simple _ _ => .nil
  | .dot hrecord _ _ _ => hrecord.plain
  | .known harray _ _ => harray.plain
  | .unknown harray _ _ hindex =>
    harray.plain.append (hindex.plain.append
      (.straight (List.forall_mem_append.2 ⟨shown_scaleCode _, Access.shown_indexCode _⟩)))

theorem Declaration.Code.plain {π : Plan} {F : Frame} {a : Nat} {declaration : Declaration}
    {lines : List Line} {extra : Int} :
    Declaration.Code π F a declaration lines extra → Line.Plain lines
  | .literal .. | .type => .nil
  | .const _ hvalue _ _ _ => hvalue.plain
  | .var _ _ _ => .straight (List.forall_mem_singleton.2 rfl)
  | .proc _ _ hbody => .cons rfl (hbody.plain.append (.cons rfl .nil))
  | .func _ _ hbody => .cons rfl (hbody.plain.append (.cons rfl .nil))
  | .sequence hfirst hsecond => hfirst.plain.append hsecond.plain

theorem Actuals.Code.plain {π : Plan} {F : Frame} {a : Nat} {actuals : Actuals}
    {lines : List Line} {n : Int} : Actuals.Code π F a actuals lines n → Line.Plain lines
  | .empty => .nil
  | .one hfirst => hfirst.plain
  | .more hfirst hrest => hfirst.plain.append hrest.plain

theorem Actual.Code.plain {π : Plan} {F : Frame} {a : Nat} {actual : Actual}
    {lines : List Line} {n : Int} : Actual.Code π F a actual lines n → Line.Plain lines
  | .const hvalue => hvalue.plain
  | .var hfound _ => hfound.plain.append (.straight (Entity.shown_addressCode _ F _))
  | .proc .. | .func .. => .straight (Entity.shown_closureCode _ F)

end

end TriangleTam
