import TriangleTam.Proofs.Scoping.Steps

/-! # Resolution is lexical

  Whatever checking reports, it leaves the open scopes as they were after every
  command, expression and list of arguments, and the names in what it returns
  are resolved by the scoping rules. The induction is on the tree before
  checking, with the bindings at the end of the whole run as a parameter: those
  that a phrase makes are known as soon as it is checked, up to the parameters
  of the routines around it.
-/

namespace TriangleTam

variable {s s' s₁ s₂ : Checker}

/-- All open bindings have been made. -/
def Checker.Bounded (s : Checker) : Prop := s.scopes.Below s.bindings.size

/-- From `s` to `s'` the scopes come to be as they were, and what is said of the bindings at the
    end is so. -/
structure Checker.Restores (s s' : Checker) (J : Bindings → Prop) : Prop where
  scopes : s'.scopes = s.scopes
  holds  : s.Bounded → ∀ bindings, s'.bindings.Grow bindings → J bindings

/-- The same for what may bind names in the innermost scope. -/
structure Checker.Enters (s s' : Checker) (J : Bindings → Prop) : Prop where
  outer   : s'.scopes.outer = s.scopes.outer
  bounded : s.Bounded → s'.Bounded
  holds   : s.Bounded → ∀ bindings, s'.bindings.Grow bindings → J bindings

theorem Checker.Bounded.later (h : s.Bounded) (hgrow : s.bindings.Grow s'.bindings)
    (hscopes : s'.scopes = s.scopes) : s'.Bounded := by
  unfold Checker.Bounded
  rw [hscopes]
  exact h.mono hgrow.size

/-- Closing gives back what was enclosed. -/
theorem Scopes.close_eq_of_outer {Γ Γ' : Scopes} (h : Γ'.outer = Γ.enclose.outer) :
    Γ'.close = Γ := by
  unfold close
  rw [h]
  rfl

/-- The binding that was pushed is there at the end. -/
theorem Bindings.Grow.pushed {bindings bindings' : Bindings} {name : String} {kind : BindingKind}
    (h : Bindings.Grow (bindings.push ⟨name, kind⟩) bindings') :
    ∃ kind', bindings'[bindings.size]? = some ⟨name, kind'⟩ ∧ kind.Becomes kind' :=
  h.keeps (Array.getElem?_push_size : _ = some (⟨name, kind⟩ : Binding))

namespace Checker

variable {J : Bindings → Prop}

/-- Inside a routine, its own name is bound. -/
theorem Bounded.inside (h : s.Bounded) (name : String) (kind : BindingKind) (journal : Journal) :
    Bounded { s with
      bindings := s.bindings.push ⟨name, kind⟩
      scopes := (s.scopes.enter name s.bindings.size).enclose
      journal } := by
  unfold Bounded
  rw [Array.size_push]
  exact (h.enter name).enclose

/-- What restores the scopes leaves everything bounded. -/
theorem Restores.bounded (h : s.Restores s' J) (hgrow : s.bindings.Grow s'.bindings)
    (hbounded : s.Bounded) : s'.Bounded :=
  hbounded.later hgrow h.scopes

/-- Binding a name keeps to the innermost scope. -/
theorem Enters.declare {name : String} {kind : BindingKind} {journal : Journal}
    (hscopes : s₁.scopes = s.scopes) (hgrow : s.bindings.Grow s₁.bindings)
    (hJ : s.Bounded → ∀ bindings, Bindings.Grow (s₁.bindings.push ⟨name, kind⟩) bindings →
      J bindings) :
    s.Enters { s₁ with
      bindings := s₁.bindings.push ⟨name, kind⟩
      scopes := s₁.scopes.enter name s₁.bindings.size
      journal } J := by
  refine ⟨?_, fun hbounded => ?_, hJ⟩
  · show s₁.scopes.outer = s.scopes.outer
    rw [hscopes]
  · unfold Bounded
    rw [Array.size_push]
    exact (hbounded.later hgrow hscopes).enter name

/-- Nothing is left of the scope of a routine. -/
theorem Enters.routine {name : String} {kind : BindingKind} {journal : Journal}
    (hgrow₁ : Bindings.Grow (s.bindings.push ⟨name, kind⟩) s₁.bindings)
    (houter : s₁.scopes.outer = (s.scopes.enter name s.bindings.size).enclose.outer)
    (hgrow₂ : s₁.bindings.Grow s₂.bindings) (hscopes : s₂.scopes = s₁.scopes)
    (hJ : s.Bounded → s₂.scopes.close = s.scopes.enter name s.bindings.size →
      ∀ bindings, s₂.bindings.Grow bindings → J bindings) :
    s.Enters { s₂ with scopes := s₂.scopes.close, journal } J := by
  have hclose : s₂.scopes.close = s.scopes.enter name s.bindings.size :=
    Scopes.close_eq_of_outer (by rw [hscopes, houter])
  refine ⟨?_, fun hbounded => ?_, fun hbounded => hJ hbounded hclose⟩
  · show s₂.scopes.close.outer = s.scopes.outer
    rw [hclose]
    rfl
  · show s₂.scopes.close.Below s₂.bindings.size
    have hsize := (hgrow₁.trans hgrow₂).size
    rw [Array.size_push] at hsize
    rw [hclose]
    exact (hbounded.enter name).mono hsize

end Checker

namespace Check

variable {base : Bindings}

/-! ## Type denoters -/

mutual

theorem typeDenoter_scopes : ∀ (type : TypeDenoter) (s : Checker),
    (typeDenoter type).Grows base s fun type' s' => ∃ journal serials,
      s' = { s with journal, serials } ∧ (s.Bounded → ∀ bindings, s.bindings.Grow bindings →
        type.Scoped bindings s.scopes type')
  | .named span name, s => by
    unfold typeDenoter
    refine .lookup? fun found hfound => ?_
    match found with
    | none =>
      exact .reject fun journal => .pure ⟨journal, s.serials, rfl, fun hbounded bindings hgrow =>
        .unseen ((hfound bindings hbounded hgrow).role (· ≠ .type) nofun)⟩
    | some (id, .type type) =>
      refine .pure ⟨s.journal, s.serials, rfl, fun hbounded bindings hgrow => ?_⟩
      obtain ⟨hsees, ⟨spelling, kind⟩, hat, hbecomes⟩ := hfound bindings hbounded hgrow
      obtain rfl := hbecomes.eq_type
      exact .named hsees hat
    | some (id, .const _) | some (id, .var _) | some (id, .proc _) | some (id, .func _ _)
    | some (id, .unary _ _) | some (id, .binary _ _ _) =>
      refine .reject fun journal => .pure ⟨journal, s.serials, rfl, fun hbounded bindings hgrow =>
        .unseen ((hfound bindings hbounded hgrow).role (· ≠ .type) ?_)⟩
      rintro _ _ ⟨⟩
      exact Role.noConfusion
  | .array serial span length element, s => by
    unfold typeDenoter
    refine .perhaps fun journal => ?_
    refine (typeDenoter_scopes element _).bind ?_
    rintro element' _ - ⟨journal', serials, rfl, helement⟩
    refine .newSerial fun serial' serials' => .pure ⟨journal', serials', rfl, ?_⟩
    exact fun hbounded bindings hgrow => .array (helement hbounded bindings hgrow)
  | .record serial span fields, s => by
    unfold typeDenoter
    refine (fieldTypes_scopes fields s).bind ?_
    rintro fields' _ - ⟨journal, serials, rfl, hfields⟩
    refine .newSerial fun serial' serials' => .pure ⟨journal, serials', rfl, ?_⟩
    exact fun hbounded bindings hgrow => .record (hfields hbounded bindings hgrow)
  | .boolean, s => .pure ⟨s.journal, s.serials, rfl, fun _ _ _ => .boolean⟩
  | .character, s => .pure ⟨s.journal, s.serials, rfl, fun _ _ _ => .character⟩
  | .integer, s => .pure ⟨s.journal, s.serials, rfl, fun _ _ _ => .integer⟩
  | .any, s => .pure ⟨s.journal, s.serials, rfl, fun _ _ _ => .any⟩
  | .error, s => .pure ⟨s.journal, s.serials, rfl, fun _ _ _ => .error⟩

theorem fieldTypes_scopes : ∀ (fields : Fields) (s : Checker),
    (fieldTypes fields).Grows base s fun fields' s' => ∃ journal serials,
      s' = { s with journal, serials } ∧ (s.Bounded → ∀ bindings, s.bindings.Grow bindings →
        fields.Scoped bindings s.scopes fields')
  | .one span name type, s => by
    unfold fieldTypes
    refine (typeDenoter_scopes type s).bind ?_
    rintro type' _ - ⟨journal, serials, rfl, htype⟩
    exact .pure ⟨journal, serials, rfl, fun hbounded bindings hgrow =>
      .one (htype hbounded bindings hgrow)⟩
  | .more span name type rest, s => by
    unfold fieldTypes
    refine (typeDenoter_scopes type s).bind ?_
    rintro type' _ - ⟨journal, serials, rfl, htype⟩
    refine (fieldTypes_scopes rest _).bind ?_
    rintro rest' _ - ⟨journal', serials', rfl, hrest⟩
    exact .pure ⟨journal', serials', rfl, fun hbounded bindings hgrow =>
      .more (htype hbounded bindings hgrow) (hrest hbounded bindings hgrow)⟩

end

/-! ## Formal parameters -/

mutual

theorem formal_scopes : ∀ (parameter : Formal) (s : Checker),
    (formal parameter).Grows base s fun result s' => s.Enters s' fun bindings =>
      parameter.Scoped bindings s.scopes s.bindings.size result.1 s'.scopes s'.bindings.size
  | .const span duplicated name type, s => by
    unfold formal
    refine (typeDenoter_scopes type s).bind ?_
    rintro type' _ - ⟨journal, serials, rfl, htype⟩
    refine .declare fun duplicated' journal' => .pure (.declare rfl (.refl _) ?_)
    intro hbounded bindings hgrow
    obtain ⟨kind, hat, hbecomes⟩ := hgrow.pushed
    obtain rfl := hbecomes.eq_const
    rw [Array.size_push]
    exact .const (htype hbounded bindings ((Bindings.Grow.push _ _).trans hgrow)) hat
  | .var span duplicated name type, s => by
    unfold formal
    refine (typeDenoter_scopes type s).bind ?_
    rintro type' _ - ⟨journal, serials, rfl, htype⟩
    refine .declare fun duplicated' journal' => .pure (.declare rfl (.refl _) ?_)
    intro hbounded bindings hgrow
    obtain ⟨kind, hat, hbecomes⟩ := hgrow.pushed
    obtain rfl := hbecomes.eq_var
    rw [Array.size_push]
    exact .var (htype hbounded bindings ((Bindings.Grow.push _ _).trans hgrow)) hat
  | .proc span duplicated name inner, s => by
    unfold formal
    refine .openScope ((formals_scopes inner _).bind ?_)
    rintro ⟨inner', shapes⟩ s₁ hgrow₁ hinner
    have hclose : s₁.scopes.close = s.scopes := Scopes.close_eq_of_outer hinner.outer
    refine .closeScope (.declare fun duplicated' journal => .pure (.declare hclose hgrow₁ ?_))
    intro hbounded bindings hgrow
    obtain ⟨kind, hat, hbecomes⟩ := hgrow.pushed
    obtain ⟨shapes', rfl⟩ := hbecomes.eq_proc
    rw [Array.size_push, hclose]
    exact .proc (hinner.holds hbounded.enclose bindings ((Bindings.Grow.push _ _).trans hgrow)) hat
  | .func span duplicated name inner result, s => by
    unfold formal
    refine (typeDenoter_scopes result s).bind ?_
    rintro result' _ - ⟨journal, serials, rfl, hresult⟩
    refine .openScope ((formals_scopes inner _).bind ?_)
    rintro ⟨inner', shapes⟩ s₁ hgrow₁ hinner
    have hclose : s₁.scopes.close = s.scopes := Scopes.close_eq_of_outer hinner.outer
    refine .closeScope (.declare fun duplicated' journal => .pure (.declare hclose hgrow₁ ?_))
    intro hbounded bindings hgrow
    obtain ⟨kind, hat, hbecomes⟩ := hgrow.pushed
    obtain ⟨shapes', rfl⟩ := hbecomes.eq_func
    have hgrow' := (Bindings.Grow.push _ _).trans hgrow
    rw [Array.size_push, hclose]
    exact .func (hresult hbounded bindings (hgrow₁.trans hgrow'))
      (hinner.holds hbounded.enclose bindings hgrow') hat

theorem formals_scopes : ∀ (parameters : Formals) (s : Checker),
    (formals parameters).Grows base s fun result s' => s.Enters s' fun bindings =>
      parameters.Scoped bindings s.scopes s.bindings.size result.1 s'.scopes s'.bindings.size
  | .empty span, s => .pure ⟨rfl, id, fun _ _ _ => .empty⟩
  | .one span first, s => by
    unfold formals
    refine (formal_scopes first s).bind ?_
    rintro ⟨first', shape⟩ s₁ - hfirst
    exact .pure ⟨hfirst.outer, hfirst.bounded, fun hbounded bindings hgrow =>
      .one (hfirst.holds hbounded bindings hgrow)⟩
  | .more span first rest, s => by
    unfold formals
    refine (formal_scopes first s).bind ?_
    rintro ⟨first', shape⟩ s₁ - hfirst
    refine (formals_scopes rest s₁).bind ?_
    rintro ⟨rest', shapes⟩ s₂ hgrow₂ hrest
    refine .pure ⟨hrest.outer.trans hfirst.outer, fun hbounded =>
      hrest.bounded (hfirst.bounded hbounded), fun hbounded bindings hgrow => ?_⟩
    exact .more (hfirst.holds hbounded bindings (hgrow₂.trans hgrow))
      (hrest.holds (hfirst.bounded hbounded) bindings hgrow)

end

/-! ## Commands, expressions and declarations -/

/-- The scopes are restored, and the names in the phrase are resolved if none was linked. -/
abbrev Resolves (s s' : Checker) (unlinked : Prop) (J : Bindings → Prop) : Prop :=
  s.Restores s' fun bindings => unlinked → J bindings

mutual

theorem command_scopes : ∀ (command : Command) (s : Checker),
    (Check.command command).Grows base s fun command' s' =>
      Resolves s s' command.Unlinked fun bindings =>
        command.Scoped bindings s.scopes s.bindings.size command' s'.bindings.size
  | .empty span, s => .pure ⟨rfl, fun _ _ _ _ => .empty⟩
  | .assign span target value, s => by
    unfold Check.command
    refine (vname_scopes target s).bind ?_
    rintro ⟨target', targetType⟩ s₁ hgrow₁ htarget
    refine (expression_scopes value s₁).bind ?_
    rintro ⟨value', valueType⟩ s₂ hgrow₂ hvalue
    refine .perhaps fun _ => .perhaps fun _ => .pure ⟨hvalue.scopes.trans htarget.scopes, ?_⟩
    rintro hbounded bindings hgrow ⟨hunlinked, hunlinked'⟩
    have h := hvalue.holds (htarget.bounded hgrow₁ hbounded) bindings hgrow hunlinked'
    -- the target left the scopes as they were, so the value is resolved in the same
    rw [htarget.scopes] at h
    exact .assign (htarget.holds hbounded bindings (hgrow₂.trans hgrow) hunlinked) h
  | .call span callee args, s => by
    unfold Check.command
    refine .lookup? fun found hfound => ?_
    match found with
    -- neither the name nor the arguments were linked, and they are left so
    | none =>
      exact .reject fun _ => .pure ⟨rfl, fun hbounded bindings hgrow hunlinked =>
        .call ((hfound bindings hbounded hgrow).unlinked hunlinked.1 nofun) (.left hunlinked.2)⟩
    | some (id, .proc shapes) =>
      refine (actuals_scopes args shapes s).bind ?_
      rintro args' s₁ hgrow₁ hargs
      refine .pure ⟨hargs.scopes, fun hbounded bindings hgrow hunlinked => ?_⟩
      exact .call ((hfound bindings hbounded (hgrow₁.trans hgrow)).linked List.mem_cons_self)
        (hargs.holds hbounded bindings hgrow hunlinked.2)
    | some (id, .const _) | some (id, .var _) | some (id, .func _ _) | some (id, .type _)
    | some (id, .unary _ _) | some (id, .binary _ _ _) =>
      exact .reject fun _ => .pure ⟨rfl, fun hbounded bindings hgrow hunlinked =>
        .call ((hfound bindings hbounded hgrow).unlinked hunlinked.1 (by simp [BindingKind.role]))
          (.left hunlinked.2)⟩
  | .sequence span first second, s => by
    unfold Check.command
    refine (command_scopes first s).bind ?_
    rintro first' s₁ hgrow₁ hfirst
    refine (command_scopes second s₁).bind ?_
    rintro second' s₂ hgrow₂ hsecond
    refine .pure ⟨hsecond.scopes.trans hfirst.scopes, ?_⟩
    rintro hbounded bindings hgrow ⟨hunlinked, hunlinked'⟩
    have h := hsecond.holds (hfirst.bounded hgrow₁ hbounded) bindings hgrow hunlinked'
    rw [hfirst.scopes] at h
    exact .sequence (hfirst.holds hbounded bindings (hgrow₂.trans hgrow) hunlinked) h
  | .letIn span declared body, s => by
    unfold Check.command
    refine .openScope ((declaration_scopes declared _).bind ?_)
    rintro declared' s₁ hgrow₁ hdeclared
    refine (command_scopes body s₁).bind ?_
    rintro body' s₂ hgrow₂ hbody
    refine .closeScope (.pure ⟨Scopes.close_eq_of_outer ?_, ?_⟩)
    · rw [hbody.scopes]
      -- the body leaves the scope of the declarations innermost, on top of the others
      exact hdeclared.outer
    · rintro hbounded bindings hgrow ⟨hunlinked, hunlinked'⟩
      exact .letIn (hdeclared.holds hbounded.enclose bindings (hgrow₂.trans hgrow) hunlinked)
        (hbody.holds (hdeclared.bounded hbounded.enclose) bindings hgrow hunlinked')
  | .ifElse span condition thenBranch elseBranch, s => by
    unfold Check.command
    refine (expression_scopes condition s).bind ?_
    rintro ⟨condition', type⟩ s₁ hgrow₁ hcondition
    refine .expectBoolean fun journal => ?_
    refine (command_scopes thenBranch _).bind ?_
    rintro thenBranch' s₂ hgrow₂ hthen
    refine (command_scopes elseBranch s₂).bind ?_
    rintro elseBranch' s₃ hgrow₃ helse
    -- all three parts are resolved in the scopes that the command starts with
    have hscopes := hthen.scopes.trans hcondition.scopes
    refine .pure ⟨helse.scopes.trans hscopes, ?_⟩
    rintro hbounded bindings hgrow ⟨hunlinked, hunlinked', hunlinked''⟩
    have hbounded₁ := hcondition.bounded hgrow₁ hbounded
    have hbounded₂ := hthen.bounded hgrow₂ hbounded₁
    have h := hthen.holds hbounded₁ bindings (hgrow₃.trans hgrow) hunlinked'
    have h' := helse.holds hbounded₂ bindings hgrow hunlinked''
    rw [hcondition.scopes] at h
    rw [hscopes] at h'
    exact .ifElse
      (hcondition.holds hbounded bindings (hgrow₂.trans (hgrow₃.trans hgrow)) hunlinked) h h'
  | .whileDo span condition body, s => by
    unfold Check.command
    refine (expression_scopes condition s).bind ?_
    rintro ⟨condition', type⟩ s₁ hgrow₁ hcondition
    refine .expectBoolean fun journal => ?_
    refine (command_scopes body _).bind ?_
    rintro body' s₂ hgrow₂ hbody
    refine .pure ⟨hbody.scopes.trans hcondition.scopes, ?_⟩
    rintro hbounded bindings hgrow ⟨hunlinked, hunlinked'⟩
    have h := hbody.holds (hcondition.bounded hgrow₁ hbounded) bindings hgrow hunlinked'
    rw [hcondition.scopes] at h
    exact .whileDo (hcondition.holds hbounded bindings (hgrow₂.trans hgrow) hunlinked) h
  | .repeatUntil span body condition, s => by
    unfold Check.command
    refine (command_scopes body s).bind ?_
    rintro body' s₁ hgrow₁ hbody
    refine (expression_scopes condition s₁).bind ?_
    rintro ⟨condition', type⟩ s₂ hgrow₂ hcondition
    refine .expectBoolean fun journal => .pure ⟨hcondition.scopes.trans hbody.scopes, ?_⟩
    rintro hbounded bindings hgrow ⟨hunlinked, hunlinked'⟩
    have h := hcondition.holds (hbody.bounded hgrow₁ hbounded) bindings hgrow hunlinked'
    rw [hbody.scopes] at h
    exact .repeatUntil (hbody.holds hbounded bindings (hgrow₂.trans hgrow) hunlinked) h
  | .loopWhile span body condition tail, s => by
    unfold Check.command
    refine (command_scopes body s).bind ?_
    rintro body' s₁ hgrow₁ hbody
    refine (expression_scopes condition s₁).bind ?_
    rintro ⟨condition', type⟩ s₂ hgrow₂ hcondition
    refine .expectBoolean fun journal => ?_
    refine (command_scopes tail _).bind ?_
    rintro tail' s₃ hgrow₃ htail
    -- as with a conditional, the scopes stay the same from part to part
    have hscopes := hcondition.scopes.trans hbody.scopes
    refine .pure ⟨htail.scopes.trans hscopes, ?_⟩
    rintro hbounded bindings hgrow ⟨hunlinked, hunlinked', hunlinked''⟩
    have hbounded₁ := hbody.bounded hgrow₁ hbounded
    have hbounded₂ := hcondition.bounded hgrow₂ hbounded₁
    have h := hcondition.holds hbounded₁ bindings (hgrow₃.trans hgrow) hunlinked'
    have h' := htail.holds hbounded₂ bindings hgrow hunlinked''
    rw [hbody.scopes] at h
    rw [hscopes] at h'
    exact .loopWhile (hbody.holds hbounded bindings (hgrow₂.trans (hgrow₃.trans hgrow)) hunlinked)
      h h'

theorem expression_scopes : ∀ (expression : Expression) (s : Checker),
    (Check.expression expression).Grows base s fun result s' =>
      Resolves s s' expression.Unlinked fun bindings =>
        expression.Scoped bindings s.scopes s.bindings.size result.1 s'.bindings.size
  | .integer .., s => .pure ⟨rfl, fun _ _ _ _ => .integer⟩
  | .character .., s => .pure ⟨rfl, fun _ _ _ _ => .character⟩
  | .vname span type found, s => by
    unfold Check.expression
    refine (vname_scopes found s).bind ?_
    rintro ⟨found', foundType⟩ s₁ hgrow₁ hfound
    exact .pure ⟨hfound.scopes, fun hbounded bindings hgrow hunlinked =>
      .vname (hfound.holds hbounded bindings hgrow hunlinked)⟩
  | .call span type callee args, s => by
    unfold Check.expression
    refine .lookup? fun found hfound => ?_
    match found with
    | none =>
      exact .reject fun _ => .pure ⟨rfl, fun hbounded bindings hgrow hunlinked =>
        .call ((hfound bindings hbounded hgrow).unlinked hunlinked.1 nofun) (.left hunlinked.2)⟩
    | some (id, .func shapes result) =>
      refine (actuals_scopes args shapes s).bind ?_
      rintro args' s₁ hgrow₁ hargs
      refine .pure ⟨hargs.scopes, fun hbounded bindings hgrow hunlinked => ?_⟩
      exact .call ((hfound bindings hbounded (hgrow₁.trans hgrow)).linked List.mem_cons_self)
        (hargs.holds hbounded bindings hgrow hunlinked.2)
    | some (id, .const _) | some (id, .var _) | some (id, .proc _) | some (id, .type _)
    | some (id, .unary _ _) | some (id, .binary _ _ _) =>
      exact .reject fun _ => .pure ⟨rfl, fun hbounded bindings hgrow hunlinked =>
        .call ((hfound bindings hbounded hgrow).unlinked hunlinked.1 (by simp [BindingKind.role]))
          (.left hunlinked.2)⟩
  | .ifElse span type condition thenBranch elseBranch, s => by
    unfold Check.expression
    refine (expression_scopes condition s).bind ?_
    rintro ⟨condition', conditionType⟩ s₁ hgrow₁ hcondition
    refine .expectBoolean fun journal => ?_
    refine (expression_scopes thenBranch _).bind ?_
    rintro ⟨thenBranch', thenType⟩ s₂ hgrow₂ hthen
    refine (expression_scopes elseBranch s₂).bind ?_
    rintro ⟨elseBranch', elseType⟩ s₃ hgrow₃ helse
    have hscopes := hthen.scopes.trans hcondition.scopes
    refine .perhaps fun _ => .pure ⟨helse.scopes.trans hscopes, ?_⟩
    rintro hbounded bindings hgrow ⟨hunlinked, hunlinked', hunlinked''⟩
    have hbounded₁ := hcondition.bounded hgrow₁ hbounded
    have hbounded₂ := hthen.bounded hgrow₂ hbounded₁
    have h := hthen.holds hbounded₁ bindings (hgrow₃.trans hgrow) hunlinked'
    have h' := helse.holds hbounded₂ bindings hgrow hunlinked''
    rw [hcondition.scopes] at h
    rw [hscopes] at h'
    exact .ifElse
      (hcondition.holds hbounded bindings (hgrow₂.trans (hgrow₃.trans hgrow)) hunlinked) h h'
  | .letIn span type declared body, s => by
    unfold Check.expression
    refine .openScope ((declaration_scopes declared _).bind ?_)
    rintro declared' s₁ hgrow₁ hdeclared
    refine (expression_scopes body s₁).bind ?_
    rintro ⟨body', bodyType⟩ s₂ hgrow₂ hbody
    refine .closeScope (.pure ⟨Scopes.close_eq_of_outer ?_, ?_⟩)
    · rw [hbody.scopes]
      exact hdeclared.outer
    · rintro hbounded bindings hgrow ⟨hunlinked, hunlinked'⟩
      exact .letIn (hdeclared.holds hbounded.enclose bindings (hgrow₂.trans hgrow) hunlinked)
        (hbody.holds (hdeclared.bounded hbounded.enclose) bindings hgrow hunlinked')
  | .unary span type operator operand, s => by
    unfold Check.expression
    refine (expression_scopes operand s).bind ?_
    rintro ⟨operand', operandType⟩ s₁ hgrow₁ hoperand
    refine .lookup? fun found hfound => ?_
    rw [hoperand.scopes] at hfound
    match found with
    | none =>
      exact .reject fun _ => .pure ⟨hoperand.scopes, fun hbounded bindings hgrow hunlinked =>
        .unary (hoperand.holds hbounded bindings hgrow hunlinked.2)
          ((hfound bindings (hbounded.mono hgrow₁.size) hgrow).unlinked hunlinked.1 nofun)⟩
    | some (id, .unary expected result) =>
      exact .perhaps fun _ => .pure ⟨hoperand.scopes, fun hbounded bindings hgrow hunlinked =>
        .unary (hoperand.holds hbounded bindings hgrow hunlinked.2)
          ((hfound bindings (hbounded.mono hgrow₁.size) hgrow).linked List.mem_cons_self)⟩
    | some (id, .const _) | some (id, .var _) | some (id, .proc _) | some (id, .func _ _)
    | some (id, .type _) | some (id, .binary _ _ _) =>
      exact .reject fun _ => .pure ⟨hoperand.scopes, fun hbounded bindings hgrow hunlinked =>
        .unary (hoperand.holds hbounded bindings hgrow hunlinked.2)
          ((hfound bindings (hbounded.mono hgrow₁.size) hgrow).unlinked hunlinked.1
            (by simp [BindingKind.role]))⟩
  | .binary span type left operator right, s => by
    unfold Check.expression
    refine (expression_scopes left s).bind ?_
    rintro ⟨left', leftType⟩ s₁ hgrow₁ hleft
    refine (expression_scopes right s₁).bind ?_
    rintro ⟨right', rightType⟩ s₂ hgrow₂ hright
    have hscopes := hright.scopes.trans hleft.scopes
    rw [hleft.scopes] at hright
    refine .lookup? fun found hfound => ?_
    rw [hscopes] at hfound
    -- the operands are resolved whatever the operator is
    have hoperands (hbounded : s.Bounded) (bindings : Bindings) (hgrow : s₂.bindings.Grow bindings)
        (operator' : Name) (type' : Option TypeDenoter)
        (hoperator : Name.Linked bindings s.scopes [.binary] operator operator')
        (hunlinked : (Expression.binary span type left operator right).Unlinked) :
        (Expression.binary span type left operator right).Scoped bindings s.scopes s.bindings.size
          (.binary span type' left' operator' right') s₂.bindings.size :=
      .binary (hleft.holds hbounded bindings (hgrow₂.trans hgrow) hunlinked.1)
        (hright.holds (hleft.bounded hgrow₁ hbounded) bindings hgrow hunlinked.2.2) hoperator
    have hlater (hbounded : s.Bounded) := hbounded.mono (Nat.le_trans hgrow₁.size hgrow₂.size)
    match found with
    | none =>
      exact .reject fun _ => .pure ⟨hscopes, fun hbounded bindings hgrow hunlinked =>
        hoperands hbounded bindings hgrow _ _
          ((hfound bindings (hlater hbounded) hgrow).unlinked hunlinked.2.1 nofun) hunlinked⟩
    | some (id, .binary expectedLeft expectedRight result) =>
      have hresult (journal : Journal) (type' : TypeDenoter) :
          (pure (Expression.binary span (some type') left' (operator.link id) right', type') :
            Check _).Grows base { s₂ with journal } fun result s' =>
              Resolves s s' (Expression.binary span type left operator right).Unlinked
                fun bindings => (Expression.binary span type left operator right).Scoped bindings
                  s.scopes s.bindings.size result.1 s'.bindings.size :=
        .pure ⟨hscopes, fun hbounded bindings hgrow => hoperands hbounded bindings hgrow _ _
          ((hfound bindings (hlater hbounded) hgrow).linked List.mem_cons_self)⟩
      dsimp only
      split
      · split
        · exact .perhaps fun _ => hresult _ _
        · exact .perhaps fun _ => hresult _ _
      · exact hresult _ _
    | some (id, .const _) | some (id, .var _) | some (id, .proc _) | some (id, .func _ _)
    | some (id, .type _) | some (id, .unary _ _) =>
      exact .reject fun _ => .pure ⟨hscopes, fun hbounded bindings hgrow hunlinked =>
        hoperands hbounded bindings hgrow _ _
          ((hfound bindings (hlater hbounded) hgrow).unlinked hunlinked.2.1
            (by simp [BindingKind.role])) hunlinked⟩
  | .array span type elements, s => by
    unfold Check.expression
    refine (arrayAggregate_scopes elements s).bind ?_
    rintro ⟨elements', element⟩ s₁ hgrow₁ helements
    exact .newSerial fun _ _ => .pure ⟨helements.scopes, fun hbounded bindings hgrow hunlinked =>
      .array (helements.holds hbounded bindings hgrow hunlinked)⟩
  | .record span type fields, s => by
    unfold Check.expression
    refine (recordAggregate_scopes fields s).bind ?_
    rintro ⟨fields', types⟩ s₁ hgrow₁ hfields
    exact .newSerial fun _ _ => .pure ⟨hfields.scopes, fun hbounded bindings hgrow hunlinked =>
      .record (hfields.holds hbounded bindings hgrow hunlinked)⟩

theorem arrayAggregate_scopes : ∀ (elements : ArrayAggregate) (s : Checker),
    (Check.arrayAggregate elements).Grows base s fun result s' =>
      Resolves s s' elements.Unlinked fun bindings =>
        elements.Scoped bindings s.scopes s.bindings.size result.1 s'.bindings.size
  | .one span element, s => by
    unfold Check.arrayAggregate
    refine (expression_scopes element s).bind ?_
    rintro ⟨element', type⟩ s₁ hgrow₁ helement
    exact .pure ⟨helement.scopes, fun hbounded bindings hgrow hunlinked =>
      .one (helement.holds hbounded bindings hgrow hunlinked)⟩
  | .more span element rest, s => by
    unfold Check.arrayAggregate
    refine (expression_scopes element s).bind ?_
    rintro ⟨element', type⟩ s₁ hgrow₁ helement
    refine (arrayAggregate_scopes rest s₁).bind ?_
    rintro ⟨rest', restType⟩ s₂ hgrow₂ hrest
    rw [helement.scopes] at hrest
    refine .perhaps fun _ => .pure ⟨hrest.scopes.trans helement.scopes, ?_⟩
    rintro hbounded bindings hgrow ⟨hunlinked, hunlinked'⟩
    exact .more (helement.holds hbounded bindings (hgrow₂.trans hgrow) hunlinked)
      (hrest.holds (helement.bounded hgrow₁ hbounded) bindings hgrow hunlinked')

theorem recordAggregate_scopes : ∀ (fields : RecordAggregate) (s : Checker),
    (Check.recordAggregate fields).Grows base s fun result s' =>
      Resolves s s' fields.Unlinked fun bindings =>
        fields.Scoped bindings s.scopes s.bindings.size result.1 s'.bindings.size
  | .one span field value, s => by
    unfold Check.recordAggregate
    refine (expression_scopes value s).bind ?_
    rintro ⟨value', type⟩ s₁ hgrow₁ hvalue
    exact .pure ⟨hvalue.scopes, fun hbounded bindings hgrow hunlinked =>
      .one (hvalue.holds hbounded bindings hgrow hunlinked)⟩
  | .more span field value rest, s => by
    unfold Check.recordAggregate
    refine (expression_scopes value s).bind ?_
    rintro ⟨value', type⟩ s₁ hgrow₁ hvalue
    refine (recordAggregate_scopes rest s₁).bind ?_
    rintro ⟨rest', types⟩ s₂ hgrow₂ hrest
    rw [hvalue.scopes] at hrest
    refine .perhaps fun _ => .pure ⟨hrest.scopes.trans hvalue.scopes, ?_⟩
    rintro hbounded bindings hgrow ⟨hunlinked, hunlinked'⟩
    exact .more (hvalue.holds hbounded bindings (hgrow₂.trans hgrow) hunlinked)
      (hrest.holds (hvalue.bounded hgrow₁ hbounded) bindings hgrow hunlinked')

theorem vname_scopes : ∀ (vname : Vname) (s : Checker),
    (Check.vname vname).Grows base s fun result s' =>
      Resolves s s' vname.Unlinked fun bindings =>
        vname.Scoped bindings s.scopes s.bindings.size result.1 s'.bindings.size
  | .simple span type isVariable name, s => by
    unfold Check.vname
    refine .lookup? fun found hfound => ?_
    match found with
    | none =>
      exact .reject fun _ => .pure ⟨rfl, fun hbounded bindings hgrow hunlinked =>
        .simple ((hfound bindings hbounded hgrow).unlinked hunlinked nofun)⟩
    | some (id, .const constType) =>
      exact .pure ⟨rfl, fun hbounded bindings hgrow _ =>
        .simple ((hfound bindings hbounded hgrow).linked (by simp [BindingKind.role]))⟩
    | some (id, .var varType) =>
      exact .pure ⟨rfl, fun hbounded bindings hgrow _ =>
        .simple ((hfound bindings hbounded hgrow).linked (by simp [BindingKind.role]))⟩
    | some (id, .proc _) | some (id, .func _ _) | some (id, .type _) | some (id, .unary _ _)
    | some (id, .binary _ _ _) =>
      exact .reject fun _ => .pure ⟨rfl, fun hbounded bindings hgrow hunlinked =>
        .simple ((hfound bindings hbounded hgrow).unlinked hunlinked (by simp [BindingKind.role]))⟩
  | .dot span type isVariable record field, s => by
    unfold Check.vname
    refine (vname_scopes record s).bind ?_
    rintro ⟨record', recordType⟩ s₁ hgrow₁ hrecord
    -- whichever type is found and whatever is reported, the record is resolved
    have hresult (journal : Journal) (type' : TypeDenoter) :
        (pure (Vname.dot span (some type') record'.isVariable record' field, type') :
          Check _).Grows base { s₁ with journal } fun result s' =>
            Resolves s s' (Vname.dot span type isVariable record field).Unlinked fun bindings =>
              (Vname.dot span type isVariable record field).Scoped bindings s.scopes
                s.bindings.size result.1 s'.bindings.size :=
      .pure ⟨hrecord.scopes, fun hbounded bindings hgrow hunlinked =>
        .dot (hrecord.holds hbounded bindings hgrow hunlinked)⟩
    dsimp only
    split
    · exact hresult _ _
    · split
      · exact hresult _ _
      · exact .reject fun _ => hresult _ _
    · exact .report fun _ => hresult _ _
  | .subscript span type isVariable array index, s => by
    unfold Check.vname
    refine (vname_scopes array s).bind ?_
    rintro ⟨array', arrayType⟩ s₁ hgrow₁ harray
    refine (expression_scopes index s₁).bind ?_
    rintro ⟨index', indexType⟩ s₂ hgrow₂ hindex
    rw [harray.scopes] at hindex
    -- whichever type is found and whatever is reported, both parts are resolved
    have hresult (journal : Journal) (type' : TypeDenoter) :
        (pure (Vname.subscript span (some type') array'.isVariable array' index', type') :
          Check _).Grows base { s₂ with journal } fun result s' =>
            Resolves s s' (Vname.subscript span type isVariable array index).Unlinked
              fun bindings => (Vname.subscript span type isVariable array index).Scoped bindings
                s.scopes s.bindings.size result.1 s'.bindings.size :=
      .pure ⟨hindex.scopes.trans harray.scopes, fun hbounded bindings hgrow hunlinked =>
        .subscript (harray.holds hbounded bindings (hgrow₂.trans hgrow) hunlinked.1)
          (hindex.holds (harray.bounded hgrow₁ hbounded) bindings hgrow hunlinked.2)⟩
    dsimp only
    split
    · exact hresult _ _
    · exact .perhaps fun _ => hresult _ _
    · exact .report fun _ => hresult _ _

theorem declaration_scopes : ∀ (declaration : Declaration) (s : Checker),
    (Check.declaration declaration).Grows base s fun result s' => s.Enters s' fun bindings =>
      declaration.Unlinked →
        declaration.Scoped bindings s.scopes s.bindings.size result s'.scopes s'.bindings.size
  | .const span duplicated name value, s => by
    unfold Check.declaration
    refine (expression_scopes value s).bind ?_
    rintro ⟨value', type⟩ s₁ hgrow₁ hvalue
    refine .declare fun _ _ => .pure (.declare hvalue.scopes hgrow₁ ?_)
    intro hbounded bindings hgrow hunlinked
    -- the binding that is made here is never changed, as constants are not bound again
    obtain ⟨kind, hat, hbecomes⟩ := hgrow.pushed
    obtain rfl := hbecomes.eq_const
    rw [Array.size_push, hvalue.scopes]
    exact .const (hvalue.holds hbounded bindings ((Bindings.Grow.push _ _).trans hgrow)
      hunlinked.2) hat
  | .var span duplicated name type, s => by
    unfold Check.declaration
    refine (typeDenoter_scopes type s).bind ?_
    rintro type' _ - ⟨journal, serials, rfl, htype⟩
    refine .declare fun _ _ => .pure (.declare rfl (.refl _) ?_)
    intro hbounded bindings hgrow _
    obtain ⟨kind, hat, hbecomes⟩ := hgrow.pushed
    obtain rfl := hbecomes.eq_var
    rw [Array.size_push]
    exact .var (htype hbounded bindings ((Bindings.Grow.push _ _).trans hgrow)) hat
  | .proc span duplicated name parameters body, s => by
    unfold Check.declaration
    refine .start fun hbase => .declare fun duplicated' journal => .openScope ?_
    refine (formals_scopes parameters _).bind ?_
    rintro ⟨parameters', shapes⟩ s₁ hgrow₁ hparameters
    -- after the parameters the procedure is bound again, with its signature
    obtain ⟨kind, hat, hbecomes⟩ := hgrow₁.pushed
    obtain ⟨shapes', rfl⟩ := hbecomes.eq_proc
    have hbecomes' : (BindingKind.proc shapes').Becomes (.proc shapes) := .proc
    refine .rebind hat hbecomes' hbase.next ?_
    refine (command_scopes body _).bind ?_
    rintro body' s₂ hgrow₂ hbody
    have hrest := (Bindings.Grow.update hat hbecomes').trans hgrow₂
    refine .closeScope (.pure (.routine hgrow₁ hparameters.outer hrest hbody.scopes ?_))
    rintro hbounded hclose bindings hgrow ⟨-, -, hunlinked⟩
    obtain ⟨kind, hat', hbecomes''⟩ := (hgrow₁.trans (hrest.trans hgrow)).pushed
    obtain ⟨shapes'', rfl⟩ := hbecomes''.eq_proc
    -- the parameters are resolved in the new scope, where the procedure is visible
    have hinside := hbounded.inside name.spelling (.proc []) journal
    have hformals := hparameters.holds hinside bindings (hrest.trans hgrow)
    have hbounded₁ := (hparameters.bounded hinside).mono (Bindings.Grow.update hat hbecomes').size
    have h := hbody.holds hbounded₁ bindings hgrow hunlinked
    rw [Array.size_push] at hformals
    rw [Bindings.size_update] at h
    rw [hclose]
    exact .proc hat' hformals h
  | .func span duplicated name parameters result body, s => by
    unfold Check.declaration
    refine (typeDenoter_scopes result s).bind ?_
    rintro result' _ - ⟨journal, serials, rfl, hresult⟩
    refine .start fun hbase => .declare fun duplicated' journal' => .openScope ?_
    refine (formals_scopes parameters _).bind ?_
    rintro ⟨parameters', shapes⟩ s₁ hgrow₁ hparameters
    -- after the parameters the function is bound again, with its signature
    obtain ⟨kind, hat, hbecomes⟩ := hgrow₁.pushed
    obtain ⟨shapes', rfl⟩ := hbecomes.eq_func
    have hbecomes' : (BindingKind.func shapes' result').Becomes (.func shapes result') := .func
    refine .rebind hat hbecomes' hbase.next ?_
    refine (expression_scopes body _).bind ?_
    rintro ⟨body', bodyType⟩ s₂ hgrow₂ hbody
    have hrest := (Bindings.Grow.update hat hbecomes').trans hgrow₂
    refine .closeScope (.perhaps fun journal'' =>
      .pure (.routine (s := s) hgrow₁ hparameters.outer hrest hbody.scopes ?_))
    rintro hbounded hclose bindings hgrow ⟨-, -, hunlinked⟩
    have hall := hgrow₁.trans (hrest.trans hgrow)
    obtain ⟨kind, hat', hbecomes''⟩ := hall.pushed
    obtain ⟨shapes'', rfl⟩ := hbecomes''.eq_func
    -- the parameters are resolved in the new scope, where the function is visible
    have hinside := hbounded.inside name.spelling (.func [] result') journal'
    have hformals := hparameters.holds hinside bindings (hrest.trans hgrow)
    have hbounded₁ := (hparameters.bounded hinside).mono (Bindings.Grow.update hat hbecomes').size
    have h := hbody.holds hbounded₁ bindings hgrow hunlinked
    rw [Array.size_push] at hformals
    rw [Bindings.size_update] at h
    rw [hclose]
    exact .func (hresult hbounded bindings ((Bindings.Grow.push _ _).trans hall)) hat' hformals h
  | .type span duplicated name type, s => by
    unfold Check.declaration
    refine (typeDenoter_scopes type s).bind ?_
    rintro type' _ - ⟨journal, serials, rfl, htype⟩
    refine .declare fun _ _ => .pure (.declare rfl (.refl _) ?_)
    intro hbounded bindings hgrow _
    obtain ⟨kind, hat, hbecomes⟩ := hgrow.pushed
    obtain rfl := hbecomes.eq_type
    rw [Array.size_push]
    exact .type (htype hbounded bindings ((Bindings.Grow.push _ _).trans hgrow)) hat
  | .sequence span first second, s => by
    unfold Check.declaration
    refine (declaration_scopes first s).bind ?_
    rintro first' s₁ - hfirst
    refine (declaration_scopes second s₁).bind ?_
    rintro second' s₂ hgrow₂ hsecond
    refine .pure ⟨hsecond.outer.trans hfirst.outer, fun hbounded =>
      hsecond.bounded (hfirst.bounded hbounded), ?_⟩
    rintro hbounded bindings hgrow ⟨hunlinked, hunlinked'⟩
    exact .sequence (hfirst.holds hbounded bindings (hgrow₂.trans hgrow) hunlinked)
      (hsecond.holds (hfirst.bounded hbounded) bindings hgrow hunlinked')

theorem actuals_scopes : ∀ (args : Actuals) (shapes : Signature) (s : Checker),
    (Check.actuals args shapes).Grows base s fun args' s' =>
      Resolves s s' args.Unlinked fun bindings =>
        args.Scoped bindings s.scopes s.bindings.size args' s'.bindings.size
  | .empty span, shapes, s => by
    unfold Check.actuals
    exact .perhaps fun _ => .pure ⟨rfl, fun _ _ _ => .left⟩
  | .one span first, [shape], s => by
    unfold Check.actuals
    refine (actual_scopes first shape s).bind ?_
    rintro first' s₁ - hfirst
    exact .pure ⟨hfirst.scopes, fun hbounded bindings hgrow hunlinked =>
      .one (hfirst.holds hbounded bindings hgrow hunlinked)⟩
  | .one span first, [], s | .one span first, _ :: _ :: _, s => by
    unfold Check.actuals
    exact .report fun _ => .pure ⟨rfl, fun _ _ _ => .left⟩
  | .more span first rest, shape :: next :: others, s => by
    unfold Check.actuals
    refine (actual_scopes first shape s).bind ?_
    rintro first' s₁ hgrow₁ hfirst
    refine (actuals_scopes rest (next :: others) s₁).bind ?_
    rintro rest' s₂ hgrow₂ hrest
    rw [hfirst.scopes] at hrest
    refine .pure ⟨hrest.scopes.trans hfirst.scopes, ?_⟩
    rintro hbounded bindings hgrow ⟨hunlinked, hunlinked'⟩
    exact .more (hfirst.holds hbounded bindings (hgrow₂.trans hgrow) hunlinked)
      (hrest.holds (hfirst.bounded hgrow₁ hbounded) bindings hgrow hunlinked')
  | .more span first rest, [], s | .more span first rest, [_], s => by
    unfold Check.actuals
    exact .report fun _ => .pure ⟨rfl, fun _ _ _ => .left⟩

theorem actual_scopes : ∀ (arg : Actual) (shape : FormalShape) (s : Checker),
    (Check.actual arg shape).Grows base s fun arg' s' =>
      Resolves s s' arg.Unlinked fun bindings =>
        arg.Scoped bindings s.scopes s.bindings.size arg' s'.bindings.size
  | .const span value, shape, s => by
    unfold Check.actual
    refine (expression_scopes value s).bind ?_
    rintro ⟨value', type⟩ s₁ - hvalue
    -- the value is resolved, whether it fits the parameter or not
    have hresult (journal : Journal) : (pure (.const span value') : Check Actual).Grows base
        { s₁ with journal } fun arg' s' => Resolves s s' (Actual.const span value).Unlinked
          fun bindings => (Actual.const span value).Scoped bindings s.scopes s.bindings.size arg'
            s'.bindings.size :=
      .pure ⟨hvalue.scopes, fun hbounded bindings hgrow hunlinked =>
        .const (hvalue.holds hbounded bindings hgrow hunlinked)⟩
    cases shape with
    | const expected => exact .perhaps hresult
    | var | proc | func => exact .report hresult
  | .var span found, shape, s => by
    unfold Check.actual
    refine (vname_scopes found s).bind ?_
    rintro ⟨found', type⟩ s₁ - hfound
    -- the vname is resolved, whether it fits the parameter or not
    have hresult (journal : Journal) : (pure (.var span found') : Check Actual).Grows base
        { s₁ with journal } fun arg' s' => Resolves s s' (Actual.var span found).Unlinked
          fun bindings => (Actual.var span found).Scoped bindings s.scopes s.bindings.size arg'
            s'.bindings.size :=
      .pure ⟨hfound.scopes, fun hbounded bindings hgrow hunlinked =>
        .var (hfound.holds hbounded bindings hgrow hunlinked)⟩
    refine .perhaps fun _ => ?_
    cases shape with
    | var expected => exact .perhaps hresult
    | const | proc | func => exact .report hresult
  | .proc span name, shape, s => by
    unfold Check.actual
    refine .lookup? fun found hfound => ?_
    match found with
    -- a name that stands for nothing is left unlinked
    | none =>
      exact .reject fun _ => .pure ⟨rfl, fun hbounded bindings hgrow hunlinked =>
        .proc ((hfound bindings hbounded hgrow).unlinked hunlinked nofun)⟩
    | some (id, .proc shapes) =>
      have hresult (journal : Journal) : (pure (.proc span (name.link id)) : Check Actual).Grows base
          { s with journal } fun arg' s' => Resolves s s' (Actual.proc span name).Unlinked
            fun bindings => (Actual.proc span name).Scoped bindings s.scopes s.bindings.size arg'
              s'.bindings.size :=
        .pure ⟨rfl, fun hbounded bindings hgrow _ =>
          .proc ((hfound bindings hbounded hgrow).linked List.mem_cons_self)⟩
      cases shape with
      | proc expected => exact .perhaps hresult
      | const | var | func => exact .report hresult
    | some (id, .const _) | some (id, .var _) | some (id, .func _ _) | some (id, .type _)
    | some (id, .unary _ _) | some (id, .binary _ _ _) =>
      exact .reject fun _ => .pure ⟨rfl, fun hbounded bindings hgrow hunlinked =>
        .proc ((hfound bindings hbounded hgrow).unlinked hunlinked (by simp [BindingKind.role]))⟩
  | .func span name, shape, s => by
    unfold Check.actual
    refine .lookup? fun found hfound => ?_
    match found with
    | none =>
      exact .reject fun _ => .pure ⟨rfl, fun hbounded bindings hgrow hunlinked =>
        .func ((hfound bindings hbounded hgrow).unlinked hunlinked nofun)⟩
    | some (id, .func shapes result) =>
      have hresult (journal : Journal) : (pure (.func span (name.link id)) : Check Actual).Grows base
          { s with journal } fun arg' s' => Resolves s s' (Actual.func span name).Unlinked
            fun bindings => (Actual.func span name).Scoped bindings s.scopes s.bindings.size arg'
              s'.bindings.size :=
        .pure ⟨rfl, fun hbounded bindings hgrow _ =>
          .func ((hfound bindings hbounded hgrow).linked List.mem_cons_self)⟩
      cases shape with
      | func expected expectedResult =>
        dsimp only
        split
        · exact .report hresult
        · exact .perhaps hresult
      | const | var | proc => exact .report hresult
    | some (id, .const _) | some (id, .var _) | some (id, .proc _) | some (id, .type _)
    | some (id, .unary _ _) | some (id, .binary _ _ _) =>
      exact .reject fun _ => .pure ⟨rfl, fun hbounded bindings hgrow hunlinked =>
        .func ((hfound bindings hbounded hgrow).unlinked hunlinked (by simp [BindingKind.role]))⟩

end

end Check

end TriangleTam
