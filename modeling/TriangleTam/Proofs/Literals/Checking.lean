import Mathlib.Data.List.Forall2
import TriangleTam.Proofs.Literals.Trees
import TriangleTam.Proofs.Typing.Folded

/-! # Integer literals through checking

  Checking decorates the expressions of a tree one for one, and leaves integer
  literals as they are. The lengths of the types that it finds are spelled in
  the program, but for those of array aggregates: their numerals are made from
  the numbers of elements.
-/

namespace TriangleTam

/-! ## Expressions and their decorations -/

/-- The second expression is the first one with its decorations. -/
def Expression.Decorated (e e' : Expression) : Prop :=
  ∃ Γ s type s', Expression.Typed Γ s e e' type s'

mutual

/-- The expressions of a decorated tree are the decorations of those of the tree. -/
theorem Command.Typed.parts {Γ : Env} {s s' : Supply} {command command' : Command} :
    Command.Typed Γ s command command' s' →
      List.Forall₂ Expression.Decorated command.expressions command'.expressions
  | .empty => .nil
  | .assign htarget hvalue _ _ => List.rel_append htarget.parts hvalue.parts
  | .call _ hargs => hargs.parts
  | .sequence hfirst hsecond => List.rel_append hfirst.parts hsecond.parts
  | .letIn hdeclared hbody => List.rel_append hdeclared.parts hbody.parts
  | .ifElse hcondition hthen helse =>
    List.rel_append (List.rel_append hcondition.parts hthen.parts) helse.parts
  | .whileDo hcondition hbody => List.rel_append hcondition.parts hbody.parts
  | .repeatUntil hbody hcondition => List.rel_append hbody.parts hcondition.parts
  | .loopWhile hbody hcondition htail =>
    List.rel_append (List.rel_append hbody.parts hcondition.parts) htail.parts

theorem Expression.Typed.parts {Γ : Env} {s s' : Supply} {expression expression' : Expression}
    {type : TypeDenoter} : Expression.Typed Γ s expression expression' type s' →
      List.Forall₂ Expression.Decorated expression.expressions expression'.expressions
  | .integer => .cons ⟨Γ, s, _, _, .integer⟩ .nil
  | .character => .cons ⟨Γ, s, _, _, .character⟩ .nil
  | .vname hfound => .cons ⟨_, _, _, _, .vname hfound⟩ hfound.parts
  | .call hfind hargs => .cons ⟨_, _, _, _, .call hfind hargs⟩ hargs.parts
  | .ifElse hcondition hthen helse hequivalent =>
    .cons ⟨_, _, _, _, .ifElse hcondition hthen helse hequivalent⟩
      (List.rel_append (List.rel_append hcondition.parts hthen.parts) helse.parts)
  | .letIn hdeclared hbody =>
    .cons ⟨_, _, _, _, .letIn hdeclared hbody⟩ (List.rel_append hdeclared.parts hbody.parts)
  | .unary hoperand hfind hequivalent =>
    .cons ⟨_, _, _, _, .unary hoperand hfind hequivalent⟩ hoperand.parts
  | .binary hleft hright hfind hequivalent hequivalent' =>
    .cons ⟨_, _, _, _, .binary hleft hright hfind hequivalent hequivalent'⟩
      (List.rel_append hleft.parts hright.parts)
  | .equality hleft hright hfind hequivalent =>
    .cons ⟨_, _, _, _, .equality hleft hright hfind hequivalent⟩
      (List.rel_append hleft.parts hright.parts)
  | .array helements => .cons ⟨_, _, _, _, .array helements⟩ helements.parts
  | .record hfields => .cons ⟨_, _, _, _, .record hfields⟩ hfields.parts

theorem ArrayAggregate.Typed.parts {Γ : Env} {s s' : Supply}
    {elements elements' : ArrayAggregate} {type : TypeDenoter} :
    ArrayAggregate.Typed Γ s elements elements' type s' →
      List.Forall₂ Expression.Decorated elements.expressions elements'.expressions
  | .one helement => helement.parts
  | .more helement hrest _ => List.rel_append helement.parts hrest.parts

theorem RecordAggregate.Typed.parts {Γ : Env} {s s' : Supply}
    {fields fields' : RecordAggregate} {types : Fields} :
    RecordAggregate.Typed Γ s fields fields' types s' →
      List.Forall₂ Expression.Decorated fields.expressions fields'.expressions
  | .one hvalue => hvalue.parts
  | .more hvalue hrest _ => List.rel_append hvalue.parts hrest.parts

theorem Vname.Typed.parts {Γ : Env} {s s' : Supply} {vname vname' : Vname}
    {type : TypeDenoter} : Vname.Typed Γ s vname vname' type s' →
      List.Forall₂ Expression.Decorated vname.expressions vname'.expressions
  | .const _ | .var _ => .nil
  | .dot hrecord _ => hrecord.parts
  | .subscript harray hindex => List.rel_append harray.parts hindex.parts

theorem Declaration.Typed.parts {Γ Γ' : Env} {s s' : Supply}
    {declaration declaration' : Declaration} :
    Declaration.Typed Γ s declaration declaration' Γ' s' →
      List.Forall₂ Expression.Decorated declaration.expressions declaration'.expressions
  | .const hvalue _ => hvalue.parts
  | .var _ _ | .type _ _ => .nil
  | .proc _ _ hbody => hbody.parts
  | .func _ _ _ hbody _ => hbody.parts
  | .sequence hfirst hsecond => List.rel_append hfirst.parts hsecond.parts

theorem Actuals.Typed.parts {Γ : Env} {s s' : Supply} {actuals actuals' : Actuals}
    {shapes : Signature} : Actuals.Typed Γ s actuals shapes actuals' s' →
      List.Forall₂ Expression.Decorated actuals.expressions actuals'.expressions
  | .empty => .nil
  | .one hfirst => hfirst.parts
  | .more hfirst hrest => List.rel_append hfirst.parts hrest.parts

theorem Actual.Typed.parts {Γ : Env} {s s' : Supply} {actual actual' : Actual}
    {shape : FormalShape} : Actual.Typed Γ s actual shape actual' s' →
      List.Forall₂ Expression.Decorated actual.expressions actual'.expressions
  | .const hvalue _ => hvalue.parts
  | .var hfound _ _ => hfound.parts
  | .proc _ _ | .func _ _ _ => .nil

end

/-- An aggregate is of an array type, and its length is the numeral of its elements. -/
def Expression.SpellsCount : Expression → Prop
  | .array _ type elements => ∃ serial span element,
    type = some (.array serial span ⟨Numeral.ofNat elements.count, span⟩ element)
  | _ => True

section measured

variable {P : IntegerLiteral → Prop} {s s' : Supply}

/-- The arrays made so far have lengths that satisfy `P`. -/
def Supply.Measured (P : IntegerLiteral → Prop) (s : Supply) : Prop :=
  ∀ serial span length element, .array serial span length element ∈ s.denoters → P length

theorem Supply.Measured.add_array (h : s.Measured P) {length : IntegerLiteral}
    (hlength : P length) (serial : Nat) (span : Span) (element : TypeDenoter) :
    (s.add (.array serial span length element)).Measured P := by
  intro serial' span' length' element' hmem
  rcases List.mem_append.1 hmem with hmem | hmem
  · exact h _ _ _ _ hmem
  · cases List.mem_singleton.1 hmem
    exact hlength

theorem Supply.Measured.add_record (h : s.Measured P) (serial : Nat) (span : Span)
    (fields : Fields) : (s.add (.record serial span fields)).Measured P := by
  intro serial' span' length' element' hmem
  rcases List.mem_append.1 hmem with hmem | hmem
  · exact h _ _ _ _ hmem
  · cases List.mem_singleton.1 hmem

/-- If the expression is an array aggregate, the numeral of its elements satisfies `P`. -/
def Expression.CountIn (P : IntegerLiteral → Prop) (e : Expression) : Prop :=
  ∀ n ∈ e.count?, ∀ span, P ⟨Numeral.ofNat n, span⟩

mutual

theorem TypeDenoter.Typed.measured {Γ : Env} {s s' : Supply} {type type' : TypeDenoter} :
    TypeDenoter.Typed Γ s type type' s' → type.Lengths P → s.Measured P → s'.Measured P
  | .boolean, _, hs | .character, _, hs | .integer, _, hs | .named _, _, hs => hs
  | .array _ helement, ⟨hlength, h⟩, hs => (helement.measured h hs).add_array hlength _ _ _
  | .record hfields, h, hs => (hfields.measured h hs).add_record _ _ _

theorem Fields.Typed.measured {Γ : Env} {s s' : Supply} {fields fields' : Fields} :
    Fields.Typed Γ s fields fields' s' → fields.Lengths P → s.Measured P → s'.Measured P
  | .one htype, h, hs => htype.measured h hs
  | .more htype hrest, ⟨h, h'⟩, hs => hrest.measured h' (htype.measured h hs)

end

mutual

theorem Formal.Typed.measured {Γ Γ' : Env} {s s' : Supply} {formal formal' : Formal}
    {shape : FormalShape} : Formal.Typed Γ s formal formal' shape Γ' s' →
      formal.All (TypeDenoter.Lengths P) → s.Measured P → s'.Measured P
  | .const htype _, h, hs | .var htype _, h, hs =>
    htype.measured h hs
  | .proc hinner _, h, hs =>
    hinner.measured h hs
  | .func hresult hinner _, ⟨h, h'⟩, hs =>
    hinner.measured h (hresult.measured h' hs)

theorem Formals.Typed.measured {Γ Γ' : Env} {s s' : Supply} {formals formals' : Formals}
    {shapes : Signature} : Formals.Typed Γ s formals formals' shapes Γ' s' →
      formals.All (TypeDenoter.Lengths P) → s.Measured P → s'.Measured P
  | .empty, _, hs => hs
  | .one hfirst, h, hs => hfirst.measured h hs
  | .more hfirst hrest, ⟨h, h'⟩, hs => hrest.measured h' (hfirst.measured h hs)

end

variable {found : Option TypeDenoter → Prop}

mutual

/-- The arrays that are made for a tree have lengths written in it, or numerals of elements. -/
theorem Command.Typed.measured {Γ : Env} {s s' : Supply} {command command' : Command} :
    Command.Typed Γ s command command' s' → command.All (TypeDenoter.Lengths P) found →
      (∀ e ∈ command.expressions, e.CountIn P) → s.Measured P → s'.Measured P
  | .empty, _, _, hs => hs
  | .assign htarget hvalue _ _, ⟨h, h'⟩, hcounts, hs =>
    have ⟨hc, hc'⟩ := List.forall_mem_append.1 hcounts
    hvalue.measured h' hc' (htarget.measured h hc hs)
  | .call _ hargs, h, hcounts, hs => hargs.measured h hcounts hs
  | .sequence hfirst hsecond, ⟨h, h'⟩, hcounts, hs =>
    have ⟨hc, hc'⟩ := List.forall_mem_append.1 hcounts
    hsecond.measured h' hc' (hfirst.measured h hc hs)
  | .letIn hdeclared hbody, ⟨h, h'⟩, hcounts, hs =>
    have ⟨hc, hc'⟩ := List.forall_mem_append.1 hcounts
    hbody.measured h' hc' (hdeclared.measured h hc hs)
  | .ifElse hcondition hthen helse, ⟨h, h', h''⟩, hcounts, hs =>
    have ⟨hcounts, hc''⟩ := List.forall_mem_append.1 hcounts
    have ⟨hc, hc'⟩ := List.forall_mem_append.1 hcounts
    helse.measured h'' hc'' (hthen.measured h' hc' (hcondition.measured h hc hs))
  | .whileDo hcondition hbody, ⟨h, h'⟩, hcounts, hs =>
    have ⟨hc, hc'⟩ := List.forall_mem_append.1 hcounts
    hbody.measured h' hc' (hcondition.measured h hc hs)
  | .repeatUntil hbody hcondition, ⟨h, h'⟩, hcounts, hs =>
    have ⟨hc, hc'⟩ := List.forall_mem_append.1 hcounts
    hcondition.measured h' hc' (hbody.measured h hc hs)
  | .loopWhile hbody hcondition htail, ⟨h, h', h''⟩, hcounts, hs =>
    have ⟨hcounts, hc''⟩ := List.forall_mem_append.1 hcounts
    have ⟨hc, hc'⟩ := List.forall_mem_append.1 hcounts
    htail.measured h'' hc'' (hcondition.measured h' hc' (hbody.measured h hc hs))

theorem Expression.Typed.measured {Γ : Env} {s s' : Supply} {expression expression' : Expression}
    {type : TypeDenoter} : Expression.Typed Γ s expression expression' type s' →
      expression.All (TypeDenoter.Lengths P) found →
      (∀ e ∈ expression.expressions, e.CountIn P) → s.Measured P → s'.Measured P
  | .integer, _, _, hs | .character, _, _, hs => hs
  | .vname hfound, ⟨_, h⟩, hcounts, hs =>
    have ⟨_, hc⟩ := List.forall_mem_cons.1 hcounts
    hfound.measured h hc hs
  | .call _ hargs, ⟨_, h⟩, hcounts, hs =>
    have ⟨_, hc⟩ := List.forall_mem_cons.1 hcounts
    hargs.measured h hc hs
  | .ifElse hcondition hthen helse _, ⟨_, h, h', h''⟩, hcounts, hs =>
    have ⟨_, hcounts⟩ := List.forall_mem_cons.1 hcounts
    have ⟨hcounts, hc''⟩ := List.forall_mem_append.1 hcounts
    have ⟨hc, hc'⟩ := List.forall_mem_append.1 hcounts
    helse.measured h'' hc'' (hthen.measured h' hc' (hcondition.measured h hc hs))
  | .letIn hdeclared hbody, ⟨_, h, h'⟩, hcounts, hs =>
    have ⟨_, hcounts⟩ := List.forall_mem_cons.1 hcounts
    have ⟨hc, hc'⟩ := List.forall_mem_append.1 hcounts
    hbody.measured h' hc' (hdeclared.measured h hc hs)
  | .unary hoperand _ _, ⟨_, h⟩, hcounts, hs =>
    have ⟨_, hc⟩ := List.forall_mem_cons.1 hcounts
    hoperand.measured h hc hs
  | .binary hleft hright _ _ _, ⟨_, h, h'⟩, hcounts, hs
  | .equality hleft hright _ _, ⟨_, h, h'⟩, hcounts, hs =>
    have ⟨_, hcounts⟩ := List.forall_mem_cons.1 hcounts
    have ⟨hc, hc'⟩ := List.forall_mem_append.1 hcounts
    hright.measured h' hc' (hleft.measured h hc hs)
  | .array helements, ⟨_, h⟩, hcounts, hs =>
    have ⟨hcount, hc⟩ := List.forall_mem_cons.1 hcounts
    (helements.measured h hc hs).add_array (hcount _ rfl _) _ _ _
  | .record hfields, ⟨_, h⟩, hcounts, hs =>
    have ⟨_, hc⟩ := List.forall_mem_cons.1 hcounts
    (hfields.measured h hc hs).add_record _ _ _

theorem ArrayAggregate.Typed.measured {Γ : Env} {s s' : Supply}
    {elements elements' : ArrayAggregate} {type : TypeDenoter} :
    ArrayAggregate.Typed Γ s elements elements' type s' →
      elements.All (TypeDenoter.Lengths P) found →
      (∀ e ∈ elements.expressions, e.CountIn P) → s.Measured P → s'.Measured P
  | .one helement, h, hcounts, hs => helement.measured h hcounts hs
  | .more helement hrest _, ⟨h, h'⟩, hcounts, hs =>
    have ⟨hc, hc'⟩ := List.forall_mem_append.1 hcounts
    hrest.measured h' hc' (helement.measured h hc hs)

theorem RecordAggregate.Typed.measured {Γ : Env} {s s' : Supply}
    {fields fields' : RecordAggregate} {types : Fields} :
    RecordAggregate.Typed Γ s fields fields' types s' →
      fields.All (TypeDenoter.Lengths P) found →
      (∀ e ∈ fields.expressions, e.CountIn P) → s.Measured P → s'.Measured P
  | .one hvalue, h, hcounts, hs => hvalue.measured h hcounts hs
  | .more hvalue hrest _, ⟨h, h'⟩, hcounts, hs =>
    have ⟨hc, hc'⟩ := List.forall_mem_append.1 hcounts
    hrest.measured h' hc' (hvalue.measured h hc hs)

theorem Vname.Typed.measured {Γ : Env} {s s' : Supply} {vname vname' : Vname}
    {type : TypeDenoter} : Vname.Typed Γ s vname vname' type s' →
      vname.All (TypeDenoter.Lengths P) found →
      (∀ e ∈ vname.expressions, e.CountIn P) → s.Measured P → s'.Measured P
  | .const _, _, _, hs | .var _, _, _, hs => hs
  | .dot hrecord _, ⟨_, h⟩, hcounts, hs => hrecord.measured h hcounts hs
  | .subscript harray hindex, ⟨_, h, h'⟩, hcounts, hs =>
    have ⟨hc, hc'⟩ := List.forall_mem_append.1 hcounts
    hindex.measured h' hc' (harray.measured h hc hs)

theorem Declaration.Typed.measured {Γ Γ' : Env} {s s' : Supply}
    {declaration declaration' : Declaration} :
    Declaration.Typed Γ s declaration declaration' Γ' s' →
      declaration.All (TypeDenoter.Lengths P) found →
      (∀ e ∈ declaration.expressions, e.CountIn P) → s.Measured P → s'.Measured P
  | .const hvalue _, h, hcounts, hs =>
    hvalue.measured h hcounts hs
  | .var htype _, h, _, hs | .type htype _, h, _, hs =>
    htype.measured h hs
  | .proc _ hparameters hbody, ⟨h, h'⟩, hcounts, hs =>
    hbody.measured h' hcounts (hparameters.measured h hs)
  | .func hresult _ hparameters hbody _, ⟨h, h', h''⟩, hcounts, hs =>
    hbody.measured h'' hcounts (hparameters.measured h (hresult.measured h' hs))
  | .sequence hfirst hsecond, ⟨h, h'⟩, hcounts, hs =>
    have ⟨hc, hc'⟩ := List.forall_mem_append.1 hcounts
    hsecond.measured h' hc' (hfirst.measured h hc hs)

theorem Actuals.Typed.measured {Γ : Env} {s s' : Supply} {actuals actuals' : Actuals}
    {shapes : Signature} : Actuals.Typed Γ s actuals shapes actuals' s' →
      actuals.All (TypeDenoter.Lengths P) found →
      (∀ e ∈ actuals.expressions, e.CountIn P) → s.Measured P → s'.Measured P
  | .empty, _, _, hs => hs
  | .one hfirst, h, hcounts, hs => hfirst.measured h hcounts hs
  | .more hfirst hrest, ⟨h, h'⟩, hcounts, hs =>
    have ⟨hc, hc'⟩ := List.forall_mem_append.1 hcounts
    hrest.measured h' hc' (hfirst.measured h hc hs)

theorem Actual.Typed.measured {Γ : Env} {s s' : Supply} {actual actual' : Actual}
    {shape : FormalShape} : Actual.Typed Γ s actual shape actual' s' →
      actual.All (TypeDenoter.Lengths P) found →
      (∀ e ∈ actual.expressions, e.CountIn P) → s.Measured P → s'.Measured P
  | .const hvalue _, h, hcounts, hs => hvalue.measured h hcounts hs
  | .var hfound _ _, h, hcounts, hs => hfound.measured h hcounts hs
  | .proc _ _, _, _, hs | .func _ _ _, _, _, hs => hs

end

mutual

/-- The arrays in a known denoter are among those that were made. -/
theorem TypeDenoter.Known.lengths (hs : s.Measured P) :
    ∀ {type : TypeDenoter}, type.Known s.denoters → type.Lengths P
  | .array .., ⟨hmade, _, helement⟩ =>
    ⟨hs _ _ _ _ (List.mem_of_getElem? hmade), helement.lengths hs⟩
  | .record .., ⟨_, hfields⟩ => hfields.lengths hs
  | .boolean, _ | .character, _ | .integer, _ | .any, _ | .error, _ | .named .., _ => trivial

theorem Fields.Known.lengths (hs : s.Measured P) :
    ∀ {fields : Fields}, fields.Known s.denoters → fields.Lengths P
  | .one _ _ type, h =>
    have htype : type.Known s.denoters := h
    htype.lengths hs
  | .more .., ⟨htype, hrest⟩ => ⟨htype.lengths hs, hrest.lengths hs⟩

end

/-- The lengths of all known types satisfy what all lengths that were made do. -/
theorem Command.All.lengths {command : Command} (h : command.All s.Knows (Finds s.Knows))
    (hs : s.Measured P) :
    command.All (TypeDenoter.Lengths P) fun type => ∀ τ ∈ type, τ.Lengths P := by
  refine h.mono (fun _ => TypeDenoter.Known.lengths hs) ?_
  rintro type ⟨τ, hmem, hknown⟩ τ' hmem'
  rw [Option.mem_unique hmem' hmem]
  exact TypeDenoter.Known.lengths hs hknown

end measured

end TriangleTam
