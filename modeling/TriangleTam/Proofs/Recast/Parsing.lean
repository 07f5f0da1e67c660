import TriangleTam.Proofs.Recast.Renaming
import TriangleTam.Tree.Grammar

/-! # Parsing renamed tokens

  Two streams are **twins** if the tokens of the one are those of the other,
  renamed. A parser does not look at where tokens stand, and of their words it
  looks at literals alone. So parsers of twins both fail, with diagnostics that
  are about the same token, or both give a tree, one of which is the other
  renamed, and leave twins.
-/

namespace TriangleTam

/-! ## Streams -/

/-- The tokens of the second stream are those of the first, renamed. -/
structure Stream.Twin (ρ : Renaming) (s s' : Stream) : Prop where
  pending : List.Forall₂ (Token.Twin ρ) s.pending s'.pending
  ending  : s.ending.Twin ρ s'.ending
  serials : s'.serials = s.serials

namespace Stream.Twin

variable {ρ : Renaming} {s s' : Stream}

theorem current (h : s.Twin ρ s') : s.current.Twin ρ s'.current := by
  obtain ⟨pending, ending, lastFinish, serials⟩ := s
  obtain ⟨pending', ending', lastFinish', serials'⟩ := s'
  cases h.pending with
  | nil => exact h.ending
  | cons hfirst hrest => exact hfirst

theorem kind_eq (h : s.Twin ρ s') : s'.kind = s.kind := h.current.kind

theorem numbered (h : s.Twin ρ s') : s.numbered.Twin ρ s'.numbered :=
  ⟨h.pending, h.ending, congrArg (· + 1) h.serials⟩

/-- What cannot stand here is complained about in both. -/
theorem unexpected (h : s.Twin ρ s') (cause : SyntacticCause) :
    (s.unexpected cause).Renamed ρ (s'.unexpected cause) :=
  ⟨rfl, rfl, h.current.spelling⟩

end Stream.Twin

/-- A complaint is about the same where it names nothing that is renamed. -/
theorem Stream.fault_renamed {ρ : Renaming} (s s' : Stream) (cause : SyntacticCause)
    {token : String} (htoken : ρ.apply token = token) :
    (s.fault cause token).Renamed ρ (s'.fault cause token) :=
  ⟨rfl, rfl, htoken.symm⟩

/-! ## Parsers -/

/-- Both parsers give a value, of which the second is to the first as `R` says, and leave twins,
    or both fail, with diagnostics about the same token. -/
def Parse.Twins {α : Type} {bound bound' : Nat} (ρ : Renaming) (R : α → α → Prop) :
    Parse α bound → Parse α bound' → Prop
  | .ok parsed, .ok parsed' => R parsed.value parsed'.value ∧ parsed.rest.Twin ρ parsed'.rest
  | .error d, .error d' => d.Renamed ρ d'
  | _, _ => False

namespace Parse.Twins

variable {α β : Type} {ρ : Renaming} {R : α → α → Prop} {Q : β → β → Prop}
  {bound₁ bound₂ bound₁' bound₂' : Nat}

theorem pure {parsed : Parsed α bound₁} {parsed' : Parsed α bound₁'}
    (hvalue : R parsed.value parsed'.value) (hrest : parsed.rest.Twin ρ parsed'.rest) :
    Parse.Twins ρ R (pure parsed) (pure parsed') :=
  ⟨hvalue, hrest⟩

theorem throw {d d' : Diagnostic} (h : d.Renamed ρ d') :
    Parse.Twins ρ R (throw d : Parse α bound₁) (throw d' : Parse α bound₁') :=
  h

theorem bind {m : Parse α bound₁} {m' : Parse α bound₁'} {f : Parsed α bound₁ → Parse β bound₂}
    {f' : Parsed α bound₁' → Parse β bound₂'} (hm : Parse.Twins ρ R m m')
    (hf : ∀ a s hs a' s' hs', R a a' → s.Twin ρ s' →
      Parse.Twins ρ Q (f ⟨a, s, hs⟩) (f' ⟨a', s', hs'⟩)) :
    Parse.Twins ρ Q (m >>= f) (m' >>= f') := by
  cases m with
  | ok parsed =>
    cases m' with
    | ok parsed' => exact hf _ _ parsed.shorter _ _ parsed'.shorter hm.1 hm.2
    | error d' => exact hm.elim
  | error d =>
    cases m' with
    | ok parsed' => exact hm.elim
    | error d' => exact hm

end Parse.Twins

namespace Grammar

open Parse.Twins

variable {ρ : Renaming} {s s' : Stream}

/-! ## Terminals -/

theorem take_twins (h : s.Twin ρ s') (kind : TokenKind) {otherwise otherwise' : Diagnostic}
    (hotherwise : otherwise.Renamed ρ otherwise') :
    Parse.Twins ρ (fun token token' => token.Twin ρ token' ∧ token.kind = kind)
      (s.take kind otherwise) (s'.take kind otherwise') := by
  obtain ⟨pending, ending, lastFinish, serials⟩ := s
  obtain ⟨pending', ending', lastFinish', serials'⟩ := s'
  cases h.pending with
  | nil => exact hotherwise
  | @cons token token' others others' hfirst hrest =>
    unfold Stream.take
    dsimp only
    rw [hfirst.kind]
    by_cases hkind : token.kind = kind
    · rw [if_pos hkind, if_pos hkind]
      exact ⟨⟨hfirst, hkind⟩, hrest, h.ending, h.serials⟩
    · rw [if_neg hkind, if_neg hkind]
      exact hotherwise

theorem identifier_twins (h : s.Twin ρ s') :
    Parse.Twins ρ (ρ.Relates Name.recast) (identifier s) (identifier s') := by
  refine bind (take_twins h _ (s.fault_renamed s' _ ρ.apply_empty)) fun token _ _ token' _ _ htoken h1 => ?_
  refine pure ?_ h1
  simp [Renaming.Relates, Name.recast, htoken.1.spelling]

theorem operator_twins (h : s.Twin ρ s') :
    Parse.Twins ρ (ρ.Relates Name.recast) (operator s) (operator s') := by
  refine bind (take_twins h _ (s.fault_renamed s' _ ρ.apply_empty)) fun token _ _ token' _ _ htoken h1 => ?_
  refine pure ?_ h1
  simp [Renaming.Relates, Name.recast, htoken.1.spelling]

theorem integerLiteral_twins (h : s.Twin ρ s') :
    Parse.Twins ρ (ρ.Relates IntegerLiteral.recast) (integerLiteral s) (integerLiteral s') := by
  refine bind (take_twins h _ (s.fault_renamed s' _ ρ.apply_empty)) fun token _ _ token' _ _ htoken h1 => ?_
  have hsame : token'.spelling = token.spelling := htoken.1.same (by rw [htoken.2]; simp)
  dsimp only
  rw [hsame]
  split
  · exact throw (h.unexpected _)
  · exact pure rfl h1

theorem characterLiteral_twins (h : s.Twin ρ s') :
    Parse.Twins ρ (ρ.Relates CharacterLiteral.recast) (characterLiteral s)
      (characterLiteral s') := by
  refine bind (take_twins h _ (s.fault_renamed s' _ ρ.apply_empty)) fun token _ _ token' _ _ htoken h1 => ?_
  have hsame : token'.spelling = token.spelling := htoken.1.same (by rw [htoken.2]; simp)
  refine pure ?_ h1
  simp [Renaming.Relates, CharacterLiteral.recast, hsame]

section

variable {β : Type} {bound bound' : Nat} {Q : β → β → Prop}

/-- A token that has to stand there comes first. -/
theorem awaiting (h : s.Twin ρ s') {kind : TokenKind} {f : Parsed Token s.size → Parse β bound}
    {f' : Parsed Token s'.size → Parse β bound'}
    (hf : ∀ a s1 hs a' s1' hs', Stream.Twin ρ s1 s1' →
      Parse.Twins ρ Q (f ⟨a, s1, hs⟩) (f' ⟨a', s1', hs'⟩)) :
    Parse.Twins ρ Q (s.expect kind >>= f) (s'.expect kind >>= f') :=
  bind (take_twins h kind (s.fault_renamed s' _ (ρ.apply_written kind))) fun _ _ _ _ _ _ _ hrest =>
    hf _ _ _ _ _ _ hrest

end

/-! ## Type denoters -/

mutual

theorem typeDenoter_twins {s s' : Stream} (h : s.Twin ρ s') :
    Parse.Twins ρ (ρ.Relates TypeDenoter.recast) (typeDenoter s) (typeDenoter s') := by
  rw [typeDenoter, typeDenoter, h.kind_eq]
  split
  · -- a name
    refine bind (identifier_twins h) fun _ _ _ _ _ _ hname h1 => pure ?_ h1
    simp [TypeDenoter.recast, hname]
  · -- an array type
    refine awaiting h fun _ s1 _ _ _ _ h1 => ?_
    refine bind (integerLiteral_twins h1) fun _ s2 _ _ _ _ hlength h2 => ?_
    refine awaiting h2 fun _ s3 _ _ _ _ h3 => ?_
    refine bind (typeDenoter_twins h3) fun _ _ _ _ _ _ helement h4 => ?_
    refine pure ?_ h4.numbered
    simp [TypeDenoter.recast, hlength, helement, h4.serials]
  · -- a record type
    refine awaiting h fun _ s1 _ _ _ _ h1 => ?_
    refine bind (fieldTypes_twins h1) fun _ s2 _ _ _ _ hfields h2 => ?_
    refine awaiting h2 fun _ s3 _ _ _ _ h3 => pure ?_ h3.numbered
    simp [TypeDenoter.recast, hfields, h3.serials]
  · -- no type denoter
    exact throw (h.unexpected _)
termination_by s.size

theorem fieldTypes_twins {s s' : Stream} (h : s.Twin ρ s') :
    Parse.Twins ρ (ρ.Relates Fields.recast) (fieldTypes s) (fieldTypes s') := by
  rw [fieldTypes, fieldTypes]
  refine bind (identifier_twins h) fun _ s1 _ _ _ _ hname h1 => ?_
  refine awaiting h1 fun _ s2 _ _ _ _ h2 => ?_
  refine bind (typeDenoter_twins h2) fun _ s3 _ _ _ _ htype h3 => ?_
  dsimp only
  rw [h3.kind_eq]
  split
  · refine awaiting h3 fun _ s4 _ _ _ _ h4 => ?_
    refine bind (fieldTypes_twins h4) fun _ _ _ _ _ _ hrest h5 => pure ?_ h5
    simp [Fields.recast, hname, htype, hrest]
  · refine pure ?_ h3
    simp [Fields.recast, hname, htype]
termination_by s.size

end

/-! ## Formal parameters -/

mutual

theorem formals_twins {s s' : Stream} (h : s.Twin ρ s') :
    Parse.Twins ρ (ρ.Relates Formals.recast) (formals s) (formals s') := by
  rw [formals, formals, h.kind_eq]
  split
  · refine pure ?_ h
    simp [Formals.recast]
  · exact bind (someFormals_twins h) fun _ _ _ _ _ _ hall h1 => pure hall h1
termination_by 4 * s.size + 2

theorem someFormals_twins {s s' : Stream} (h : s.Twin ρ s') :
    Parse.Twins ρ (ρ.Relates Formals.recast) (someFormals s) (someFormals s') := by
  rw [someFormals, someFormals]
  refine bind (formal_twins h) fun _ s1 _ _ _ _ hfirst h1 => ?_
  dsimp only
  rw [h1.kind_eq]
  split
  · refine awaiting h1 fun _ s2 _ _ _ _ h2 => ?_
    refine bind (someFormals_twins h2) fun _ _ _ _ _ _ hrest h3 => pure ?_ h3
    simp [Formals.recast, hfirst, hrest]
  · refine pure ?_ h1
    simp [Formals.recast, hfirst]
termination_by 4 * s.size + 1

theorem formal_twins {s s' : Stream} (h : s.Twin ρ s') :
    Parse.Twins ρ (ρ.Relates Formal.recast) (formal s) (formal s') := by
  rw [formal, formal, h.kind_eq]
  split
  · -- a constant
    refine bind (identifier_twins h) fun _ s1 _ _ _ _ hname h1 => ?_
    refine awaiting h1 fun _ s2 _ _ _ _ h2 => ?_
    refine bind (typeDenoter_twins h2) fun _ _ _ _ _ _ htype h3 => pure ?_ h3
    simp [Formal.recast, hname, htype]
  · -- a variable
    refine awaiting h fun _ s1 _ _ _ _ h1 => ?_
    refine bind (identifier_twins h1) fun _ s2 _ _ _ _ hname h2 => ?_
    refine awaiting h2 fun _ s3 _ _ _ _ h3 => ?_
    refine bind (typeDenoter_twins h3) fun _ _ _ _ _ _ htype h4 => pure ?_ h4
    simp [Formal.recast, hname, htype]
  · -- a procedure
    refine awaiting h fun _ s1 _ _ _ _ h1 => ?_
    refine bind (identifier_twins h1) fun _ s2 _ _ _ _ hname h2 => ?_
    refine awaiting h2 fun _ s3 _ _ _ _ h3 => ?_
    refine bind (formals_twins h3) fun _ s4 _ _ _ _ hinner h4 => ?_
    refine awaiting h4 fun _ _ _ _ _ _ h5 => pure ?_ h5
    simp [Formal.recast, hname, hinner]
  · -- a function
    refine awaiting h fun _ s1 _ _ _ _ h1 => ?_
    refine bind (identifier_twins h1) fun _ s2 _ _ _ _ hname h2 => ?_
    refine awaiting h2 fun _ s3 _ _ _ _ h3 => ?_
    refine bind (formals_twins h3) fun _ s4 _ _ _ _ hinner h4 => ?_
    refine awaiting h4 fun _ s5 _ _ _ _ h5 => awaiting h5 fun _ s6 _ _ _ _ h6 => ?_
    refine bind (typeDenoter_twins h6) fun _ _ _ _ _ _ hresult h7 => pure ?_ h7
    simp [Formal.recast, hname, hinner, hresult]
  · -- no parameter
    exact throw (h.unexpected _)
termination_by 4 * s.size

end

/-! ## Commands, expressions and declarations -/

/-- The doubling of a renamed target is the doubling, renamed. -/
theorem doubling_relates (span span' mark mark' : Span) {target target' : Vname}
    (htarget : ρ.Relates Vname.recast target target') :
    ρ.Relates Command.recast (doubling span target mark) (doubling span' target' mark') := by
  have hstar : ρ.apply "*" = "*" := rfl
  simp [doubling, Command.recast, Expression.recast, Name.recast, IntegerLiteral.recast, htarget,
    hstar]

mutual

theorem command_twins {s s' : Stream} (h : s.Twin ρ s') :
    Parse.Twins ρ (ρ.Relates Command.recast) (command s) (command s') := by
  rw [command, command]
  refine bind (singleCommand_twins h) fun _ s1 _ _ _ _ hfirst h1 => ?_
  exact bind (commandsAfter_twins _ _ hfirst h1) fun _ _ _ _ _ _ hall h2 => pure hall h2
termination_by 8 * s.size + 1
decreasing_by all_goals omega

theorem commandsAfter_twins (start start' : Nat) {before before' : Command} {s s' : Stream}
    (hbefore : ρ.Relates Command.recast before before') (h : s.Twin ρ s') :
    Parse.Twins ρ (ρ.Relates Command.recast) (commandsAfter start before s)
      (commandsAfter start' before' s') := by
  rw [commandsAfter, commandsAfter, h.kind_eq]
  split
  · refine awaiting h fun _ s1 _ _ _ _ h1 => ?_
    refine bind (singleCommand_twins h1) fun _ s2 _ _ _ _ hsecond h2 => ?_
    refine bind (commandsAfter_twins _ _ ?_ h2) fun _ _ _ _ _ _ hall h3 => pure hall h3
    simp [Command.recast, hbefore, hsecond]
  · exact pure hbefore h
termination_by 8 * s.size
decreasing_by all_goals omega

theorem singleCommand_twins {s s' : Stream} (h : s.Twin ρ s') :
    Parse.Twins ρ (ρ.Relates Command.recast) (singleCommand s) (singleCommand s') := by
  rw [singleCommand, singleCommand, h.kind_eq]
  split
  · -- a call or an assignment
    refine bind (identifier_twins h) fun _ s1 _ _ _ _ hname h1 => ?_
    dsimp only
    rw [h1.kind_eq]
    split
    · refine awaiting h1 fun _ s2 _ _ _ _ h2 => ?_
      refine bind (actuals_twins h2) fun _ s3 _ _ _ _ hargs h3 => ?_
      refine awaiting h3 fun _ _ _ _ _ _ h4 => pure ?_ h4
      simp [Command.recast, hname, hargs]
    · refine bind (vnameAfter_twins _ _ ?_ h1) fun _ s2 _ _ _ _ htarget h2 => ?_
      · simp [Vname.recast, hname]
      dsimp only
      rw [h2.kind_eq]
      split
      · exact awaiting h2 fun _ _ _ _ _ _ h3 => pure (doubling_relates _ _ _ _ htarget) h3
      · refine awaiting h2 fun _ s3 _ _ _ _ h3 => ?_
        refine bind (expression_twins h3) fun _ _ _ _ _ _ hvalue h4 => pure ?_ h4
        simp [Command.recast, htarget, hvalue]
  · -- a block
    refine awaiting h fun _ s1 _ _ _ _ h1 => ?_
    refine bind (command_twins h1) fun _ s2 _ _ _ _ hinner h2 => ?_
    exact awaiting h2 fun _ _ _ _ _ _ h3 => pure hinner h3
  · -- a command in braces
    refine awaiting h fun _ s1 _ _ _ _ h1 => ?_
    refine bind (command_twins h1) fun _ s2 _ _ _ _ hinner h2 => ?_
    exact awaiting h2 fun _ _ _ _ _ _ h3 => pure hinner h3
  · -- a declaration with its scope
    refine awaiting h fun _ s1 _ _ _ _ h1 => ?_
    refine bind (declaration_twins h1) fun _ s2 _ _ _ _ hdeclared h2 => ?_
    refine awaiting h2 fun _ s3 _ _ _ _ h3 => ?_
    refine bind (singleCommand_twins h3) fun _ _ _ _ _ _ hbody h4 => pure ?_ h4
    simp [Command.recast, hdeclared, hbody]
  · -- a conditional
    refine awaiting h fun _ s1 _ _ _ _ h1 => ?_
    refine bind (expression_twins h1) fun _ s2 _ _ _ _ hcondition h2 => ?_
    refine awaiting h2 fun _ s3 _ _ _ _ h3 => ?_
    refine bind (singleCommand_twins h3) fun _ s4 _ _ _ _ hthen h4 => ?_
    refine awaiting h4 fun _ s5 _ _ _ _ h5 => ?_
    refine bind (singleCommand_twins h5) fun _ _ _ _ _ _ helse h6 => pure ?_ h6
    simp [Command.recast, hcondition, hthen, helse]
  · -- a loop with its condition in front
    refine awaiting h fun _ s1 _ _ _ _ h1 => ?_
    refine bind (expression_twins h1) fun _ s2 _ _ _ _ hcondition h2 => ?_
    refine awaiting h2 fun _ s3 _ _ _ _ h3 => ?_
    refine bind (singleCommand_twins h3) fun _ _ _ _ _ _ hbody h4 => pure ?_ h4
    simp [Command.recast, hcondition, hbody]
  · -- a loop with its condition behind
    refine awaiting h fun _ s1 _ _ _ _ h1 => ?_
    refine bind (singleCommand_twins h1) fun _ s2 _ _ _ _ hbody h2 => ?_
    refine awaiting h2 fun _ s3 _ _ _ _ h3 => ?_
    refine bind (expression_twins h3) fun _ _ _ _ _ _ hcondition h4 => pure ?_ h4
    simp [Command.recast, hbody, hcondition]
  · -- a loop with its condition in the middle
    refine awaiting h fun _ s1 _ _ _ _ h1 => ?_
    refine bind (singleCommand_twins h1) fun _ s2 _ _ _ _ hbody h2 => ?_
    refine awaiting h2 fun _ s3 _ _ _ _ h3 => ?_
    refine bind (expression_twins h3) fun _ s4 _ _ _ _ hcondition h4 => ?_
    refine awaiting h4 fun _ s5 _ _ _ _ h5 => ?_
    refine bind (singleCommand_twins h5) fun _ _ _ _ _ _ htail h6 => pure ?_ h6
    simp [Command.recast, hbody, hcondition, htail]
  -- where the command is empty, and where there is none
  all_goals first
    | exact pure (by simp [Command.recast]) h
    | exact throw (h.unexpected _)
termination_by 8 * s.size
decreasing_by all_goals omega

theorem expression_twins {s s' : Stream} (h : s.Twin ρ s') :
    Parse.Twins ρ (ρ.Relates Expression.recast) (expression s) (expression s') := by
  rw [expression, expression, h.kind_eq]
  split
  · -- a declaration with its scope
    refine awaiting h fun _ s1 _ _ _ _ h1 => ?_
    refine bind (declaration_twins h1) fun _ s2 _ _ _ _ hdeclared h2 => ?_
    refine awaiting h2 fun _ s3 _ _ _ _ h3 => ?_
    refine bind (expression_twins h3) fun _ _ _ _ _ _ hbody h4 => pure ?_ h4
    simp [Expression.recast, hdeclared, hbody]
  · -- a conditional
    refine awaiting h fun _ s1 _ _ _ _ h1 => ?_
    refine bind (expression_twins h1) fun _ s2 _ _ _ _ hcondition h2 => ?_
    refine awaiting h2 fun _ s3 _ _ _ _ h3 => ?_
    refine bind (expression_twins h3) fun _ s4 _ _ _ _ hthen h4 => ?_
    refine awaiting h4 fun _ s5 _ _ _ _ h5 => ?_
    refine bind (expression_twins h5) fun _ _ _ _ _ _ helse h6 => pure ?_ h6
    simp [Expression.recast, hcondition, hthen, helse]
  · -- operations, if there are any
    refine bind (primary_twins h) fun _ s1 _ _ _ _ hfirst h1 => ?_
    exact bind (operationsAfter_twins _ _ hfirst h1) fun _ _ _ _ _ _ hall h2 => pure hall h2
termination_by 8 * s.size + 1
decreasing_by all_goals omega

theorem operationsAfter_twins (start start' : Nat) {before before' : Expression} {s s' : Stream}
    (hbefore : ρ.Relates Expression.recast before before') (h : s.Twin ρ s') :
    Parse.Twins ρ (ρ.Relates Expression.recast) (operationsAfter start before s)
      (operationsAfter start' before' s') := by
  rw [operationsAfter, operationsAfter, h.kind_eq]
  split
  · refine bind (operator_twins h) fun _ s1 _ _ _ _ hoperator h1 => ?_
    refine bind (primary_twins h1) fun _ s2 _ _ _ _ hright h2 => ?_
    refine bind (operationsAfter_twins _ _ ?_ h2) fun _ _ _ _ _ _ hall h3 => pure hall h3
    simp [Expression.recast, hbefore, hoperator, hright]
  · exact pure hbefore h
termination_by 8 * s.size
decreasing_by all_goals omega

theorem primary_twins {s s' : Stream} (h : s.Twin ρ s') :
    Parse.Twins ρ (ρ.Relates Expression.recast) (primary s) (primary s') := by
  rw [primary, primary, h.kind_eq]
  split
  · -- an integer literal
    refine bind (integerLiteral_twins h) fun _ _ _ _ _ _ hliteral h1 => pure ?_ h1
    simp [Expression.recast, hliteral]
  · -- a character literal
    refine bind (characterLiteral_twins h) fun _ _ _ _ _ _ hliteral h1 => pure ?_ h1
    simp [Expression.recast, hliteral]
  · -- an array aggregate
    refine awaiting h fun _ s1 _ _ _ _ h1 => ?_
    refine bind (arrayAggregate_twins h1) fun _ s2 _ _ _ _ helements h2 => ?_
    refine awaiting h2 fun _ _ _ _ _ _ h3 => pure ?_ h3
    simp [Expression.recast, helements]
  · -- a record aggregate
    refine awaiting h fun _ s1 _ _ _ _ h1 => ?_
    refine bind (recordAggregate_twins h1) fun _ s2 _ _ _ _ hfields h2 => ?_
    refine awaiting h2 fun _ _ _ _ _ _ h3 => pure ?_ h3
    simp [Expression.recast, hfields]
  · -- a call or a vname
    refine bind (identifier_twins h) fun _ s1 _ _ _ _ hname h1 => ?_
    dsimp only
    rw [h1.kind_eq]
    split
    · refine awaiting h1 fun _ s2 _ _ _ _ h2 => ?_
      refine bind (actuals_twins h2) fun _ s3 _ _ _ _ hargs h3 => ?_
      refine awaiting h3 fun _ _ _ _ _ _ h4 => pure ?_ h4
      simp [Expression.recast, hname, hargs]
    · refine bind (vnameAfter_twins _ _ ?_ h1) fun _ _ _ _ _ _ hfound h2 => pure ?_ h2
      · simp [Vname.recast, hname]
      · simp [Expression.recast, hfound]
  · -- a unary operator
    refine bind (operator_twins h) fun _ s1 _ _ _ _ hoperator h1 => ?_
    refine bind (primary_twins h1) fun _ _ _ _ _ _ hoperand h2 => pure ?_ h2
    simp [Expression.recast, hoperator, hoperand]
  · -- an expression in parentheses
    refine awaiting h fun _ s1 _ _ _ _ h1 => ?_
    refine bind (expression_twins h1) fun _ s2 _ _ _ _ hinner h2 => ?_
    exact awaiting h2 fun _ _ _ _ _ _ h3 => pure hinner h3
  · -- no expression
    exact throw (h.unexpected _)
termination_by 8 * s.size
decreasing_by all_goals omega

theorem arrayAggregate_twins {s s' : Stream} (h : s.Twin ρ s') :
    Parse.Twins ρ (ρ.Relates ArrayAggregate.recast) (arrayAggregate s) (arrayAggregate s') := by
  rw [arrayAggregate, arrayAggregate]
  refine bind (expression_twins h) fun _ s1 _ _ _ _ helement h1 => ?_
  dsimp only
  rw [h1.kind_eq]
  split
  · refine awaiting h1 fun _ s2 _ _ _ _ h2 => ?_
    refine bind (arrayAggregate_twins h2) fun _ _ _ _ _ _ hrest h3 => pure ?_ h3
    simp [ArrayAggregate.recast, helement, hrest]
  · refine pure ?_ h1
    simp [ArrayAggregate.recast, helement]
termination_by 8 * s.size + 2
decreasing_by all_goals omega

theorem recordAggregate_twins {s s' : Stream} (h : s.Twin ρ s') :
    Parse.Twins ρ (ρ.Relates RecordAggregate.recast) (recordAggregate s)
      (recordAggregate s') := by
  rw [recordAggregate, recordAggregate]
  refine bind (identifier_twins h) fun _ s1 _ _ _ _ hfield h1 => ?_
  refine awaiting h1 fun _ s2 _ _ _ _ h2 => ?_
  refine bind (expression_twins h2) fun _ s3 _ _ _ _ hvalue h3 => ?_
  dsimp only
  rw [h3.kind_eq]
  split
  · refine awaiting h3 fun _ s4 _ _ _ _ h4 => ?_
    refine bind (recordAggregate_twins h4) fun _ _ _ _ _ _ hrest h5 => pure ?_ h5
    simp [RecordAggregate.recast, hfield, hvalue, hrest]
  · refine pure ?_ h3
    simp [RecordAggregate.recast, hfield, hvalue]
termination_by 8 * s.size
decreasing_by all_goals omega

theorem vnameAfter_twins (start start' : Nat) {before before' : Vname} {s s' : Stream}
    (hbefore : ρ.Relates Vname.recast before before') (h : s.Twin ρ s') :
    Parse.Twins ρ (ρ.Relates Vname.recast) (vnameAfter start before s)
      (vnameAfter start' before' s') := by
  rw [vnameAfter, vnameAfter, h.kind_eq]
  split
  · refine awaiting h fun _ s1 _ _ _ _ h1 => ?_
    refine bind (identifier_twins h1) fun _ s2 _ _ _ _ hfield h2 => ?_
    refine bind (vnameAfter_twins _ _ ?_ h2) fun _ _ _ _ _ _ hall h3 => pure hall h3
    simp [Vname.recast, hbefore, hfield]
  · refine awaiting h fun _ s1 _ _ _ _ h1 => ?_
    refine bind (expression_twins h1) fun _ s2 _ _ _ _ hindex h2 => ?_
    refine awaiting h2 fun _ s3 _ _ _ _ h3 => ?_
    refine bind (vnameAfter_twins _ _ ?_ h3) fun _ _ _ _ _ _ hall h4 => pure hall h4
    simp [Vname.recast, hbefore, hindex]
  · exact pure hbefore h
termination_by 8 * s.size
decreasing_by all_goals omega

theorem declaration_twins {s s' : Stream} (h : s.Twin ρ s') :
    Parse.Twins ρ (ρ.Relates Declaration.recast) (declaration s) (declaration s') := by
  rw [declaration, declaration]
  refine bind (singleDeclaration_twins h) fun _ s1 _ _ _ _ hfirst h1 => ?_
  exact bind (declarationsAfter_twins _ _ hfirst h1) fun _ _ _ _ _ _ hall h2 => pure hall h2
termination_by 8 * s.size + 1
decreasing_by all_goals omega

theorem declarationsAfter_twins (start start' : Nat) {before before' : Declaration}
    {s s' : Stream} (hbefore : ρ.Relates Declaration.recast before before') (h : s.Twin ρ s') :
    Parse.Twins ρ (ρ.Relates Declaration.recast) (declarationsAfter start before s)
      (declarationsAfter start' before' s') := by
  rw [declarationsAfter, declarationsAfter, h.kind_eq]
  split
  · refine awaiting h fun _ s1 _ _ _ _ h1 => ?_
    refine bind (singleDeclaration_twins h1) fun _ s2 _ _ _ _ hsecond h2 => ?_
    refine bind (declarationsAfter_twins _ _ ?_ h2) fun _ _ _ _ _ _ hall h3 => pure hall h3
    simp [Declaration.recast, hbefore, hsecond]
  · exact pure hbefore h
termination_by 8 * s.size
decreasing_by all_goals omega

theorem singleDeclaration_twins {s s' : Stream} (h : s.Twin ρ s') :
    Parse.Twins ρ (ρ.Relates Declaration.recast) (singleDeclaration s)
      (singleDeclaration s') := by
  rw [singleDeclaration, singleDeclaration, h.kind_eq]
  split
  · -- a constant
    refine awaiting h fun _ s1 _ _ _ _ h1 => ?_
    refine bind (identifier_twins h1) fun _ s2 _ _ _ _ hname h2 => ?_
    refine awaiting h2 fun _ s3 _ _ _ _ h3 => ?_
    refine bind (expression_twins h3) fun _ _ _ _ _ _ hvalue h4 => pure ?_ h4
    simp [Declaration.recast, hname, hvalue]
  · -- a variable
    refine awaiting h fun _ s1 _ _ _ _ h1 => ?_
    refine bind (identifier_twins h1) fun _ s2 _ _ _ _ hname h2 => ?_
    refine awaiting h2 fun _ s3 _ _ _ _ h3 => ?_
    refine bind (typeDenoter_twins h3) fun _ _ _ _ _ _ htype h4 => pure ?_ h4
    simp [Declaration.recast, hname, htype]
  · -- a procedure
    refine awaiting h fun _ s1 _ _ _ _ h1 => ?_
    refine bind (identifier_twins h1) fun _ s2 _ _ _ _ hname h2 => ?_
    refine awaiting h2 fun _ s3 _ _ _ _ h3 => ?_
    refine bind (formals_twins h3) fun _ s4 _ _ _ _ hparameters h4 => ?_
    refine awaiting h4 fun _ s5 _ _ _ _ h5 => awaiting h5 fun _ s6 _ _ _ _ h6 => ?_
    refine bind (singleCommand_twins h6) fun _ _ _ _ _ _ hbody h7 => pure ?_ h7
    simp [Declaration.recast, hname, hparameters, hbody]
  · -- a function
    refine awaiting h fun _ s1 _ _ _ _ h1 => ?_
    refine bind (identifier_twins h1) fun _ s2 _ _ _ _ hname h2 => ?_
    refine awaiting h2 fun _ s3 _ _ _ _ h3 => ?_
    refine bind (formals_twins h3) fun _ s4 _ _ _ _ hparameters h4 => ?_
    refine awaiting h4 fun _ s5 _ _ _ _ h5 => awaiting h5 fun _ s6 _ _ _ _ h6 => ?_
    refine bind (typeDenoter_twins h6) fun _ s7 _ _ _ _ hresult h7 => ?_
    refine awaiting h7 fun _ s8 _ _ _ _ h8 => ?_
    refine bind (expression_twins h8) fun _ _ _ _ _ _ hbody h9 => pure ?_ h9
    simp [Declaration.recast, hname, hparameters, hresult, hbody]
  · -- a type
    refine awaiting h fun _ s1 _ _ _ _ h1 => ?_
    refine bind (identifier_twins h1) fun _ s2 _ _ _ _ hname h2 => ?_
    refine awaiting h2 fun _ s3 _ _ _ _ h3 => ?_
    refine bind (typeDenoter_twins h3) fun _ _ _ _ _ _ htype h4 => pure ?_ h4
    simp [Declaration.recast, hname, htype]
  · -- no declaration
    exact throw (h.unexpected _)
termination_by 8 * s.size
decreasing_by all_goals omega

theorem actuals_twins {s s' : Stream} (h : s.Twin ρ s') :
    Parse.Twins ρ (ρ.Relates Actuals.recast) (actuals s) (actuals s') := by
  rw [actuals, actuals, h.kind_eq]
  split
  · refine pure ?_ h
    simp [Actuals.recast]
  · exact bind (someActuals_twins h) fun _ _ _ _ _ _ hall h1 => pure hall h1
termination_by 8 * s.size + 4
decreasing_by all_goals omega

theorem someActuals_twins {s s' : Stream} (h : s.Twin ρ s') :
    Parse.Twins ρ (ρ.Relates Actuals.recast) (someActuals s) (someActuals s') := by
  rw [someActuals, someActuals]
  refine bind (actual_twins h) fun _ s1 _ _ _ _ hfirst h1 => ?_
  dsimp only
  rw [h1.kind_eq]
  split
  · refine awaiting h1 fun _ s2 _ _ _ _ h2 => ?_
    refine bind (someActuals_twins h2) fun _ _ _ _ _ _ hrest h3 => pure ?_ h3
    simp [Actuals.recast, hfirst, hrest]
  · refine pure ?_ h1
    simp [Actuals.recast, hfirst]
termination_by 8 * s.size + 3
decreasing_by all_goals omega

theorem actual_twins {s s' : Stream} (h : s.Twin ρ s') :
    Parse.Twins ρ (ρ.Relates Actual.recast) (actual s) (actual s') := by
  have hexpression := expression_twins h
  rw [actual, actual, h.kind_eq]
  split
  case h_10 =>
    refine awaiting h fun _ s1 _ _ _ _ h1 => ?_
    refine bind (identifier_twins h1) fun _ s2 _ _ _ _ hname h2 => ?_
    refine bind (vnameAfter_twins _ _ ?_ h2) fun _ _ _ _ _ _ hfound h3 => pure ?_ h3
    · simp [Vname.recast, hname]
    · simp [Actual.recast, hfound]
  case h_11 | h_12 =>
    refine awaiting h fun _ s1 _ _ _ _ h1 => ?_
    refine bind (identifier_twins h1) fun _ s2 _ _ _ _ hname h2 => pure ?_ h2
    simp [Actual.recast, hname]
  case h_13 => exact throw (h.unexpected _)
  all_goals
    refine bind hexpression fun _ _ _ _ _ _ hvalue h1 => pure ?_ h1
    simp [Actual.recast, hvalue]
termination_by 8 * s.size + 2
decreasing_by all_goals omega

end

end Grammar

/-! ## Programs -/

/-- The relation of two lists may be shown of the members of the first alone. -/
private theorem forall₂_of_mem {α β : Type} {R S : α → β → Prop} {l : List α} {l' : List β}
    (h : List.Forall₂ R l l') (hS : ∀ a ∈ l, ∀ b, R a b → S a b) : List.Forall₂ S l l' := by
  induction h with
  | nil => exact .nil
  | cons hfirst hrest ih =>
    exact .cons (hS _ (.head _) _ hfirst) (ih fun a hmem => hS a (.tail _ hmem))

/-- The last of two lists are related if the rest is and the defaults are. -/
private theorem forall₂_getLastD {α β : Type} {R : α → β → Prop} {l : List α} {l' : List β}
    (h : List.Forall₂ R l l') {a : α} {b : β} (hdefault : R a b) :
    R (l.getLastD a) (l'.getLastD b) := by
  induction h generalizing a b with
  | nil => exact hdefault
  | cons hfirst hrest ih =>
    rw [List.getLastD_cons, List.getLastD_cons]
    exact ih hfirst

/-- Streams of renamed tokens are twins. -/
theorem Stream.twin_ofText {ρ : Renaming} {text text' : String}
    (h : List.Forall₂ (Token.Renamed ρ) (tokenize text) (tokenize text')) :
    (Stream.ofText text).Twin ρ (Stream.ofText text') := by
  have htokens : List.Forall₂ (Token.Twin ρ) (tokenize text) (tokenize text') :=
    forall₂_of_mem h fun token hmem token' hrenamed => hrenamed.twin hmem
  refine ⟨?_, forall₂_getLastD htokens ⟨rfl, ρ.apply_empty.symm, fun _ => rfl⟩, rfl⟩
  show List.Forall₂ _ (tokenize text).dropLast (tokenize text').dropLast
  rw [List.dropLast_eq_take, List.dropLast_eq_take, htokens.length_eq]
  exact List.forall₂_take _ htokens

/-- Texts with renamed tokens parse to programs one of which is the other renamed, or fail with
    diagnostics about the same token. -/
theorem Program.parse_renamed {ρ : Renaming} {text text' : String}
    (h : List.Forall₂ (Token.Renamed ρ) (tokenize text) (tokenize text')) :
    (∃ d d', Program.parse text = .error d ∧ Program.parse text' = .error d' ∧ d.Renamed ρ d') ∨
    ∃ program program', Program.parse text = .ok program ∧ Program.parse text' = .ok program' ∧
      ρ.Relates Program.recast program program' := by
  have hcommand := Grammar.command_twins (Stream.twin_ofText h)
  unfold Program.parse
  dsimp only
  cases hok : Grammar.command (Stream.ofText text) with
  | error d =>
    cases hok' : Grammar.command (Stream.ofText text') with
    | error d' =>
      rw [hok, hok'] at hcommand
      exact .inl ⟨d, d', rfl, rfl, hcommand⟩
    | ok parsed' =>
      rw [hok, hok'] at hcommand
      -- parsers of renamed streams fail together
      exact hcommand.elim
  | ok parsed =>
    cases hok' : Grammar.command (Stream.ofText text') with
    | error d' =>
      rw [hok, hok'] at hcommand
      exact hcommand.elim
    | ok parsed' =>
      rw [hok, hok'] at hcommand
      obtain ⟨command, s1, hs1⟩ := parsed
      obtain ⟨command', s1', hs1'⟩ := parsed'
      -- the rests of the streams are renamed too, so both are at the end, or neither is
      obtain ⟨hsame, hrest⟩ := hcommand
      dsimp only at hsame hrest
      by_cases hend : s1.kind = .endOfText
      · refine .inr ⟨⟨command, s1.since (Stream.ofText text).start, s1.serials⟩,
          ⟨command', s1'.since (Stream.ofText text').start, s1'.serials⟩, ?_, ?_, ?_⟩
        · simp [bind, Except.bind, hend]
          rfl
        · simp [bind, Except.bind, hrest.kind_eq, hend]
          rfl
        · simp [Program.recast, hsame, hrest.serials]
      · refine .inl ⟨s1.unexpected .trailingToken, s1'.unexpected .trailingToken, ?_, ?_,
          hrest.unexpected _⟩
        · simp [bind, Except.bind, hend]
          rfl
        · simp [bind, Except.bind, hrest.kind_eq, hend]
          rfl

end TriangleTam
