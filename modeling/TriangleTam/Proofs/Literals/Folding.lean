import TriangleTam.Proofs.Literals.Checking

/-! # Integer literals through folding

  Folding makes literals of its own, each for a word and spelled as this, and
  keeps the others. It touches no array aggregate: what it replaces has literals
  for operands.
-/

namespace TriangleTam

namespace Fold

/-- What folding finds is a word. -/
theorem fits_of_value? {left right : Expression} {operator : Name} {value : Int}
    (h : value? left operator right = some value) : Word.Fits value := by
  obtain ⟨_, _, _, _, -, -, -, -, -, hrange⟩ := value?_eq_some_iff.1 h
  exact hrange.fits

/-- The literal is the one that folding makes for a word. -/
def Respells (literal : IntegerLiteral) : Prop :=
  ∃ value, Word.Fits value ∧ literal.spelling = Numeral.ofInt value

theorem Respells.exact {literal : IntegerLiteral} (h : Respells literal) : literal.Exact := by
  obtain ⟨spelling, span⟩ := literal
  obtain ⟨value, hfits, rfl⟩ := h
  exact IntegerLiteral.exact_ofInt hfits span

/-- Among the expressions there are as many array aggregates of each size after folding as there
    were before, and every integer literal was there before or was made for a word. -/
structure Keeps (before after : List Expression) : Prop where
  counts   : after.filterMap Expression.count? = before.filterMap Expression.count?
  integers : ∀ literal ∈ after.filterMap Expression.integerLiteral?,
    literal ∈ before.filterMap Expression.integerLiteral? ∨ Respells literal

namespace Keeps

variable {before after before' after' : List Expression}

theorem refl (parts : List Expression) : Keeps parts parts := ⟨rfl, fun _ => .inl⟩

theorem append (h : Keeps before after) (h' : Keeps before' after') :
    Keeps (before ++ before') (after ++ after') where
  counts := by simp only [List.filterMap_append, h.counts, h'.counts]
  integers := by
    intro literal hmem
    simp only [List.filterMap_append, List.mem_append] at hmem ⊢
    rcases hmem with hmem | hmem
    · exact (h.integers literal hmem).imp_left .inl
    · exact (h'.integers literal hmem).imp_left .inr

/-- A node that stays a literal, or an aggregate of as many elements. -/
theorem cons {e e' : Expression} (h : Keeps before after) (hcount : e'.count? = e.count?)
    (hliteral : e'.integerLiteral? = e.integerLiteral?) : Keeps (e :: before) (e' :: after) := by
  have hnode : Keeps [e] [e'] := by
    refine ⟨by rw [List.filterMap_cons, List.filterMap_cons, hcount], fun literal hmem => ?_⟩
    rw [List.filterMap_cons, hliteral] at hmem
    rw [List.filterMap_cons]
    exact .inl hmem
  exact hnode.append h

end Keeps

open Gives

/-- An operation stays, or its operands are literals. -/
theorem binary_keeps {span : Span} {type : Option TypeDenoter} {left right left' right' : Expression}
    {operator : Name} (hleft : Keeps left.expressions left'.expressions)
    (hright : Keeps right.expressions right'.expressions) :
    Gives (match value? left' operator right' with
      | some value => do
        modify fun count => count + 1
        return literal left'.span value
      | none => return .binary span type left' operator right') fun folded =>
        Keeps (Expression.binary span type left operator right).expressions folded.expressions := by
  refine binary_gives ((hleft.append hright).cons rfl rfl) fun value hvalue => ?_
  -- there is no aggregate in a literal
  have hnone {e e' : Expression} (h : Keeps e.expressions e'.expressions) {a : Int}
      (hliteral : e'.integerValue? = some a) : e.expressions.filterMap Expression.count? = [] := by
    rw [← h.counts]
    cases e' with
    | integer => rfl
    | _ => cases hliteral
  obtain ⟨⟨a, hleftValue⟩, ⟨b, hrightValue⟩, -⟩ := of_value? hvalue
  refine ⟨?_, fun literal hmem => .inr ?_⟩
  · have hempty : (left.expressions ++ right.expressions).filterMap Expression.count? = [] := by
      rw [List.filterMap_append, hnone hleft hleftValue, hnone hright hrightValue]
      rfl
    exact hempty.symm
  · obtain rfl := List.mem_singleton.1 hmem
    exact ⟨value, fits_of_value? hvalue, rfl⟩

mutual

theorem command_keeps : (c : Command) →
    (command c).Gives fun folded => Keeps c.expressions folded.expressions
  | .empty span => by
    rw [command]
    exact pure (.refl [])
  | .assign span target value => by
    rw [command]
    refine bind (vname_keeps target) fun _ htarget => ?_
    exact bind (expression_keeps value) fun _ hvalue => pure (htarget.append hvalue)
  | .call span callee args => by
    rw [command]
    exact bind (actuals_keeps args) fun _ hargs => pure hargs
  | .sequence span first second => by
    rw [command]
    refine bind (command_keeps first) fun _ hfirst => ?_
    exact bind (command_keeps second) fun _ hsecond => pure (hfirst.append hsecond)
  | .letIn span declared body => by
    rw [command]
    refine bind (declaration_keeps declared) fun _ hdeclared => ?_
    exact bind (command_keeps body) fun _ hbody => pure (hdeclared.append hbody)
  | .ifElse span condition thenBranch elseBranch => by
    rw [command]
    refine bind (expression_keeps condition) fun _ hcondition => ?_
    refine bind (command_keeps thenBranch) fun _ hthen => ?_
    refine bind (command_keeps elseBranch) fun _ helse => ?_
    exact pure ((hcondition.append hthen).append helse)
  | .whileDo span condition body => by
    rw [command]
    refine bind (expression_keeps condition) fun _ hcondition => ?_
    exact bind (command_keeps body) fun _ hbody => pure (hcondition.append hbody)
  | .repeatUntil span body condition => by
    rw [command]
    refine bind (expression_keeps condition) fun _ hcondition => ?_
    exact bind (command_keeps body) fun _ hbody => pure (hbody.append hcondition)
  | .loopWhile span body condition tail => by
    rw [command]
    refine bind (command_keeps body) fun _ hbody => ?_
    refine bind (expression_keeps condition) fun _ hcondition => ?_
    refine bind (command_keeps tail) fun _ htail => ?_
    exact pure ((hbody.append hcondition).append htail)

theorem expression_keeps : (e : Expression) →
    (expression e).Gives fun folded => Keeps e.expressions folded.expressions
  | .integer span type literal => by
    rw [expression]
    exact pure (.refl _)
  | .character span type literal => by
    rw [expression]
    exact pure (.refl _)
  | .vname span type found => by
    rw [expression]
    exact bind (vname_keeps found) fun _ hfound => pure (hfound.cons rfl rfl)
  | .call span type callee args => by
    rw [expression]
    exact bind (actuals_keeps args) fun _ hargs => pure (hargs.cons rfl rfl)
  | .ifElse span type condition thenBranch elseBranch => by
    rw [expression]
    refine bind (expression_keeps condition) fun _ hcondition => ?_
    refine bind (expression_keeps thenBranch) fun _ hthen => ?_
    refine bind (expression_keeps elseBranch) fun _ helse => ?_
    exact pure (((hcondition.append hthen).append helse).cons rfl rfl)
  | .letIn span type declared body => by
    rw [expression]
    refine bind (declaration_keeps declared) fun _ hdeclared => ?_
    exact bind (expression_keeps body) fun _ hbody => pure ((hdeclared.append hbody).cons rfl rfl)
  | .unary span type operator operand => by
    rw [expression]
    exact bind (expression_keeps operand) fun _ hoperand => pure (hoperand.cons rfl rfl)
  | .binary span type left operator right => by
    rw [expression]
    refine bind (expression_keeps left) fun _ hleft => ?_
    exact bind (expression_keeps right) fun _ hright => binary_keeps hleft hright
  | .array span type elements => by
    rw [expression]
    refine bind (arrayAggregate_keeps elements) fun _ ⟨hcount, helements⟩ => ?_
    exact pure (helements.cons (congrArg some hcount) rfl)
  | .record span type fields => by
    rw [expression]
    exact bind (recordAggregate_keeps fields) fun _ hfields => pure (hfields.cons rfl rfl)

theorem arrayAggregate_keeps : (elements : ArrayAggregate) →
    (arrayAggregate elements).Gives fun folded =>
      folded.count = elements.count ∧ Keeps elements.expressions folded.expressions
  | .one span element => by
    rw [arrayAggregate]
    exact bind (expression_keeps element) fun _ helement => pure ⟨rfl, helement⟩
  | .more span element rest => by
    rw [arrayAggregate]
    refine bind (expression_keeps element) fun _ helement => ?_
    refine bind (arrayAggregate_keeps rest) fun _ ⟨hcount, hrest⟩ => ?_
    exact pure ⟨congrArg (· + 1) hcount, helement.append hrest⟩

theorem recordAggregate_keeps : (fields : RecordAggregate) →
    (recordAggregate fields).Gives fun folded => Keeps fields.expressions folded.expressions
  | .one span field value => by
    rw [recordAggregate]
    exact bind (expression_keeps value) fun _ hvalue => pure hvalue
  | .more span field value rest => by
    rw [recordAggregate]
    refine bind (expression_keeps value) fun _ hvalue => ?_
    exact bind (recordAggregate_keeps rest) fun _ hrest => pure (hvalue.append hrest)

theorem vname_keeps : (v : Vname) →
    (vname v).Gives fun folded => Keeps v.expressions folded.expressions
  | .simple span type isVariable name => by
    rw [vname]
    exact pure (.refl [])
  | .dot span type isVariable record field => by
    rw [vname]
    exact bind (vname_keeps record) fun _ hrecord => pure hrecord
  | .subscript span type isVariable array index => by
    rw [vname]
    refine bind (vname_keeps array) fun _ harray => ?_
    exact bind (expression_keeps index) fun _ hindex => pure (harray.append hindex)

theorem declaration_keeps : (d : Declaration) →
    (declaration d).Gives fun folded => Keeps d.expressions folded.expressions
  | .const span duplicated name value => by
    rw [declaration]
    exact bind (expression_keeps value) fun _ hvalue => pure hvalue
  | .var span duplicated name type => by
    rw [declaration]
    exact pure (.refl [])
  | .proc span duplicated name parameters body => by
    rw [declaration]
    exact bind (command_keeps body) fun _ hbody => pure hbody
  | .func span duplicated name parameters result body => by
    rw [declaration]
    exact bind (expression_keeps body) fun _ hbody => pure hbody
  | .type span duplicated name type => by
    rw [declaration]
    exact pure (.refl [])
  | .sequence span first second => by
    rw [declaration]
    refine bind (declaration_keeps first) fun _ hfirst => ?_
    exact bind (declaration_keeps second) fun _ hsecond => pure (hfirst.append hsecond)

theorem actuals_keeps : (args : Actuals) →
    (actuals args).Gives fun folded => Keeps args.expressions folded.expressions
  | .empty span => by
    rw [actuals]
    exact pure (.refl [])
  | .one span first => by
    rw [actuals]
    exact bind (actual_keeps first) fun _ hfirst => pure hfirst
  | .more span first rest => by
    rw [actuals]
    refine bind (actual_keeps first) fun _ hfirst => ?_
    exact bind (actuals_keeps rest) fun _ hrest => pure (hfirst.append hrest)

theorem actual_keeps : (arg : Actual) →
    (actual arg).Gives fun folded => Keeps arg.expressions folded.expressions
  | .const span value => by
    rw [actual]
    exact bind (expression_keeps value) fun _ hvalue => pure hvalue
  | .var span found => by
    rw [actual]
    exact bind (vname_keeps found) fun _ hfound => pure hfound
  | .proc span name => by
    rw [actual]
    exact pure (.refl [])
  | .func span name => by
    rw [actual]
    exact pure (.refl [])

end

end Fold

end TriangleTam
