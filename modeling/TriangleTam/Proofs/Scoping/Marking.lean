import TriangleTam.Proofs.Scoping.Marks
import TriangleTam.Proofs.Scoping.Resolution

/-! # Marking of duplicates

  Checking a phrase enters its names in the innermost scope, marks them exactly
  and reports each mark that is set. So at the end there are as many reports of
  duplicates as marks that are set, in the phrase's own scope or in those
  inside of it. Nothing else that is reported is a duplicate.

  Which arguments of a call were visited is told by the bindings at the end: a
  routine's parameters are known before its body, and stay.
-/

namespace TriangleTam

variable {s s₀ s₁ s₂ : Checker}

/-! ## Reports of duplicates -/

/-- The complaints that a name was there before. -/
def SemanticCause.duplicates : List SemanticCause := [.alreadyDeclared, .duplicatedFormal]

/-- The diagnostic complains that a declaration or a parameter repeats a name. -/
def Diagnostic.isDuplicate (d : Diagnostic) : Bool :=
  d.kind == .semantic && SemanticCause.duplicates.any fun cause => d.template == cause.template

/-- How many duplicates were reported. -/
def Journal.duplicates (journal : Journal) : Nat :=
  journal.diagnostics.toList.countP Diagnostic.isDuplicate

theorem Diagnostic.isDuplicate_ofSemantic (cause : SemanticCause) (token : String)
    (span : Span) :
    (Diagnostic.ofSemantic cause token span).isDuplicate =
      decide (cause ∈ SemanticCause.duplicates) := by
  -- no other cause has one of the two templates
  have htemplates : SemanticCause.duplicates.any (fun c => cause.template == c.template) =
      decide (cause ∈ SemanticCause.duplicates) := by
    cases cause <;> decide
  exact htemplates

theorem Journal.duplicates_report (journal : Journal) (cause : SemanticCause) (token : String)
    (span : Span) :
    (journal.report (.ofSemantic cause token span)).duplicates =
      journal.duplicates + if cause ∈ SemanticCause.duplicates then 1 else 0 := by
  unfold duplicates report
  rw [Array.toList_push, List.countP_append, List.countP_singleton,
    Diagnostic.isDuplicate_ofSemantic]
  simp only [decide_eq_true_eq]

/-! ## Marked runs -/

namespace Checker

/-- Names are entered nowhere, and no duplicate is reported. -/
structure Steady (s s' : Checker) : Prop where
  scopes     : s'.scopes = s.scopes
  bindings   : s'.bindings = s.bindings
  duplicates : s'.journal.duplicates = s.journal.duplicates

/-- From `s` to `s'` the names of the marks are entered in the innermost scope, marked exactly. So
    are those of the scopes inside, which are told by the bindings at the end. Each mark that is
    set is reported. -/
structure Marks (s s' : Checker) (marks : List Mark) (inside : Bindings → List (List Mark)) :
    Prop where
  entered : Mark.Entered s.scopes marks s'.scopes
  own     : Mark.ExactIn s.scopes marks
  keeps   : s'.bindings.Extends s.bindings
  inner   : ∀ bindings : Bindings, bindings.Extends s'.bindings →
    ∀ scope ∈ inside bindings, Mark.Exact scope
  /-- Each name that is bound has a mark. -/
  size    : ∀ bindings : Bindings, bindings.Extends s'.bindings →
    s'.bindings.size = s.bindings.size + marks.length + (inside bindings).flatten.length
  count   : ∀ bindings : Bindings, bindings.Extends s'.bindings →
    s'.journal.duplicates = s.journal.duplicates + marks.countP Mark.duplicated +
      (inside bindings).flatten.countP Mark.duplicated

theorem Steady.refl (s : Checker) : s.Steady s := ⟨rfl, rfl, rfl⟩

theorem Steady.trans (h : s.Steady s₁) (h' : s₁.Steady s₂) : s.Steady s₂ :=
  ⟨h'.scopes.trans h.scopes, h'.bindings.trans h.bindings, h'.duplicates.trans h.duplicates⟩

/-- Another complaint changes nothing. -/
theorem Steady.report {cause : SemanticCause} (hcause : cause ∉ SemanticCause.duplicates)
    (token : String) (span : Span) :
    s.Steady { s with journal := s.journal.report (.ofSemantic cause token span) } := by
  refine ⟨rfl, rfl, ?_⟩
  show (s.journal.report _).duplicates = _
  rw [Journal.duplicates_report, if_neg hcause]
  rfl

end Checker

theorem Bindings.Extends.trans {bindings bindings' base : Bindings}
    (h : bindings'.Extends bindings) (h' : bindings.Extends base) : bindings'.Extends base :=
  fun id binding hat => h id binding (h' id binding hat)

namespace Checker.Marks

variable {marks marks' : List Mark} {inside inside' : Bindings → List (List Mark)}

theorem refl (s : Checker) : s.Marks s [] fun _ => [] :=
  ⟨.nil, .nil, .refl _, fun _ _ => nofun, fun _ _ => rfl, fun _ _ => rfl⟩

/-- What is found inside may be told otherwise, once the bindings are known. -/
theorem congr (h : s.Marks s₁ marks inside)
    (heq : ∀ bindings : Bindings, bindings.Extends s₁.bindings →
      inside' bindings = inside bindings) :
    s.Marks s₁ marks inside' := by
  refine ⟨h.entered, h.own, h.keeps, ?_, ?_, ?_⟩ <;> intro bindings hlater <;>
    rw [heq bindings hlater]
  · exact h.inner bindings hlater
  · exact h.size bindings hlater
  · exact h.count bindings hlater

theorem steady (h : s.Marks s₁ marks inside) (hsteady : s₁.Steady s₂) :
    s.Marks s₂ marks inside := by
  obtain ⟨hentered, hown, hkeeps, hinner, hsize, hcount⟩ := h
  rw [← hsteady.scopes] at hentered
  rw [← hsteady.bindings] at hkeeps hinner hsize hcount
  rw [← hsteady.duplicates] at hcount
  exact ⟨hentered, hown, hkeeps, hinner, hsize, hcount⟩

theorem of_steady (h : s.Steady s₁) : s.Marks s₁ [] fun _ => [] :=
  (refl s).steady h

theorem trans (h : s.Marks s₁ marks inside) (h' : s₁.Marks s₂ marks' inside') :
    s.Marks s₂ (marks ++ marks') fun bindings => inside bindings ++ inside' bindings := by
  refine ⟨h.entered.append h'.entered, h.own.append h.entered h'.own, h'.keeps.trans h.keeps,
    ?_, ?_, ?_⟩ <;> intro bindings hlater
  · exact List.forall_mem_append.2
      ⟨h.inner bindings (hlater.trans h'.keeps), h'.inner bindings hlater⟩
  · rw [h'.size bindings hlater, h.size bindings (hlater.trans h'.keeps), List.flatten_append,
      List.length_append, List.length_append]
    omega
  · rw [h'.count bindings hlater, h.count bindings (hlater.trans h'.keeps), List.flatten_append,
      List.countP_append, List.countP_append]
    omega

/-- Only scopes inside are added. -/
theorem within (h : s.Marks s₁ marks inside) (h' : s₁.Marks s₂ [] inside') :
    s.Marks s₂ marks fun bindings => inside bindings ++ inside' bindings := by
  have hboth := h.trans h'
  rwa [List.append_nil] at hboth

/-- Names are entered when what stands inside was visited. -/
theorem names (h : s.Marks s₁ [] inside) (h' : s₁.Marks s₂ marks fun _ => []) :
    s.Marks s₂ marks inside :=
  (h.trans h').congr fun _ _ => (List.append_nil _).symm

/-- A name is entered, marked if the scope has it. -/
theorem declare {cause : SemanticCause} (hcause : cause ∈ SemanticCause.duplicates) (name : Name)
    (kind : BindingKind) {journal : Journal}
    (hjournal : journal = if s.scopes.declares name.spelling then
      s.journal.report (.ofSemantic cause name.spelling name.span) else s.journal) :
    s.Marks { s with
      bindings := s.bindings.push ⟨name.spelling, kind⟩
      scopes := s.scopes.enter name.spelling s.bindings.size
      journal } [⟨name.link s.bindings.size, s.scopes.declares name.spelling⟩] fun _ => [] := by
  refine ⟨.one name _, .one (name.link s.bindings.size), (Bindings.Extends.refl _).push _,
    fun _ _ => nofun, fun _ _ => Array.size_push _, fun _ _ => ?_⟩
  show journal.duplicates = _
  rw [hjournal, List.countP_singleton]
  split
  · rw [Journal.duplicates_report, if_pos hcause]
    rfl
  · rfl

/-- The names of a scope that is closed are marked exactly. -/
theorem scope (h : Marks { s with scopes := s.scopes.enclose } s₁ marks inside) :
    s.Marks { s₁ with scopes := s₁.scopes.close } [] fun bindings => marks :: inside bindings := by
  have hclose : s₁.scopes.close = s.scopes := Scopes.close_eq_of_outer h.entered.outer
  refine ⟨?_, .nil, h.keeps, fun bindings hlater => ?_, fun bindings hlater => ?_,
    fun bindings hlater => ?_⟩
  · show Mark.Entered s.scopes [] s₁.scopes.close
    rw [hclose]
    exact .nil
  · exact List.forall_mem_cons.2 ⟨h.own.enclosed, h.inner bindings hlater⟩
  · show s₁.bindings.size = _
    rw [h.size bindings hlater, List.flatten_cons, List.length_append]
    show s.bindings.size + _ + _ = s.bindings.size + 0 + _
    omega
  · show s₁.journal.duplicates = _
    rw [h.count bindings hlater, List.flatten_cons, List.countP_append]
    show s.journal.duplicates + _ + _ = s.journal.duplicates + 0 + _
    omega

/-- The parameters of a routine and what stands in its body make a scope. The binding of the
    routine changes between them, when its parameters are known. -/
theorem routine {id : BindingId} {kind : BindingKind} {scopes : List (List Mark)}
    (hid : s.bindings[id]? = none) (hname : s.Marks s₀ marks fun _ => [])
    (hparameters : Marks { s₀ with scopes := s₀.scopes.enclose } s₁ marks' fun _ => scopes)
    (hbody : Marks { s₁ with bindings := s₁.bindings.update id kind } s₂ [] inside) :
    s.Marks { s₂ with scopes := s₂.scopes.close } marks fun bindings =>
      marks' :: (scopes ++ inside bindings) := by
  have hclose : s₂.scopes.close = s₀.scopes := by
    refine Scopes.close_eq_of_outer ?_
    rw [hbody.entered.outer]
    exact hparameters.entered.outer
  have hbefore : s₁.bindings.Extends s.bindings := hparameters.keeps.trans hname.keeps
  refine ⟨?_, hname.own, hbody.keeps.trans (hbefore.update hid kind), ?_, ?_, ?_⟩
  · show Mark.Entered s.scopes marks s₂.scopes.close
    rw [hclose]
    exact hname.entered
  -- what is found in the parameters does not depend on the bindings
  · intro bindings hlater
    exact List.forall_mem_cons.2 ⟨hparameters.own.enclosed, List.forall_mem_append.2
      ⟨hparameters.inner _ (.refl _), hbody.inner bindings hlater⟩⟩
  · intro bindings hlater
    have hname : s₀.bindings.size = _ := hname.size _ (.refl _)
    have hparameters : s₁.bindings.size = s₀.bindings.size + _ + _ :=
      hparameters.size _ (.refl _)
    have hbody : s₂.bindings.size = _ := hbody.size bindings hlater
    show s₂.bindings.size = _
    rw [hbody, Bindings.size_update, hparameters, hname, List.flatten_cons, List.flatten_append,
      List.length_append, List.length_append, List.flatten_nil, List.length_nil]
    omega
  · intro bindings hlater
    have hname : s₀.journal.duplicates = _ := hname.count _ (.refl _)
    have hparameters : s₁.journal.duplicates = s₀.journal.duplicates + _ + _ :=
      hparameters.count _ (.refl _)
    have hbody : s₂.journal.duplicates = s₁.journal.duplicates + _ + _ :=
      hbody.count bindings hlater
    show s₂.journal.duplicates = _
    rw [hbody, hparameters, hname, List.flatten_cons, List.flatten_append, List.countP_append,
      List.countP_append, List.flatten_nil, List.countP_nil]
    omega

/-- The arguments of a call were visited for the parameters of what it is linked to. -/
theorem call {id : BindingId} {binding : Binding} (hat : s.bindings[id]? = some binding)
    {args : Actuals} (h : s.Marks s₁ [] fun bindings => args.scopes bindings binding.kind.arity)
    (callee : Name) :
    s.Marks s₁ [] fun bindings => args.scopes bindings (bindings.arity (callee.link id)) := by
  refine h.congr fun bindings hlater => ?_
  rw [Bindings.arity_link (hlater _ _ (h.keeps _ _ hat))]

theorem skipped {callee : Name} (hcallee : callee.binding = none) (args : Actuals)
    (hsteady : s.Steady s₁) :
    s.Marks s₁ [] fun bindings => args.scopes bindings (bindings.arity callee) :=
  (of_steady hsteady).congr fun bindings _ => args.scopes_unlinked bindings hcallee

end Checker.Marks

namespace Check

/-- From `s` the step leads to a result and a checker that satisfy `Q`. -/
def Leads {α : Type} (m : Check α) (s : Checker) (Q : α → Checker → Prop) : Prop :=
  Q (m.exec s).1 (m.exec s).2

namespace Leads

variable {α β : Type} {R : β → Checker → Prop}

theorem pure {a : α} {Q : α → Checker → Prop} (h : Q a s) : (pure a : Check α).Leads s Q := h

theorem bind {m : Check α} {f : α → Check β} {Q : α → Checker → Prop} (hm : m.Leads s Q)
    (hf : ∀ a s', Q a s' → (f a).Leads s' R) : (m >>= f).Leads s R :=
  hf _ _ hm

/-! ## Single steps -/

theorem report {cause : SemanticCause} (hcause : cause ∉ SemanticCause.duplicates)
    {token : String} {span : Span} {f : Unit → Check β}
    (hf : ∀ s', s.Steady s' → (f ()).Leads s' R) :
    (Check.report cause token span >>= f).Leads s R :=
  hf _ (.report hcause token span)

theorem reject {cause : SemanticCause} (hcause : cause ∉ SemanticCause.duplicates)
    {name : Name} {f : Unit → Check β} (hf : ∀ s', s.Steady s' → (f ()).Leads s' R) :
    (Check.reject cause name >>= f).Leads s R :=
  report hcause hf

theorem perhaps {c : Prop} [Decidable c] {cause : SemanticCause}
    (hcause : cause ∉ SemanticCause.duplicates) {token : String} {span : Span}
    {k : PUnit → Check β} (hk : ∀ s', s.Steady s' → (k ⟨⟩).Leads s' R) :
    (if c then Check.report cause token span >>= k else k ⟨⟩).Leads s R := by
  split
  · exact report hcause hk
  · exact hk s (.refl s)

theorem expectBoolean {type : TypeDenoter} {span : Span} {f : Unit → Check β}
    (hf : ∀ s', s.Steady s' → (f ()).Leads s' R) :
    (Check.expectBoolean type span >>= f).Leads s R := by
  unfold Check.expectBoolean
  split
  · exact report (by decide) hf
  · exact hf s (.refl s)

theorem newSerial {f : Nat → Check β} (hf : ∀ serial s', s.Steady s' → (f serial).Leads s' R) :
    (Check.newSerial >>= f).Leads s R :=
  hf _ _ ⟨rfl, rfl, rfl⟩

theorem openScope {f : Unit → Check β}
    (hf : (f ()).Leads { s with scopes := s.scopes.enclose } R) :
    (Check.openScope >>= f).Leads s R :=
  hf

theorem closeScope {f : Unit → Check β}
    (hf : (f ()).Leads { s with scopes := s.scopes.close } R) :
    (Check.closeScope >>= f).Leads s R :=
  hf

theorem rebind {id : BindingId} {kind : BindingKind} {f : Unit → Check β}
    (hf : (f ()).Leads { s with bindings := s.bindings.update id kind } R) :
    (Check.rebind id kind >>= f).Leads s R :=
  hf

/-- What is found is bound. -/
theorem lookup? {name : String} {f : Option (BindingId × BindingKind) → Check β}
    (hf : ∀ found, (∀ id kind, found = some (id, kind) →
      ∃ spelling, s.bindings[id]? = some ⟨spelling, kind⟩) → (f found).Leads s R) :
    (Check.lookup? name >>= f).Leads s R := by
  refine hf _ fun id kind hfound => ?_
  obtain ⟨id', -, hfound⟩ := Option.bind_eq_some_iff.1 hfound
  obtain ⟨⟨spelling, kind'⟩, hat, hfound⟩ := Option.bind_eq_some_iff.1 hfound
  obtain ⟨rfl, rfl⟩ := Prod.mk.inj (Option.some.inj hfound)
  exact ⟨spelling, hat⟩

theorem declare {cause : SemanticCause} (hcause : cause ∈ SemanticCause.duplicates)
    {name : Name} {kind : BindingKind} {f : Name × BindingId × Bool → Check β}
    (hf : ∀ duplicated s', s.Marks s' [⟨name.link s.bindings.size, duplicated⟩] (fun _ => []) →
      (f (name.link s.bindings.size, s.bindings.size, duplicated)).Leads s' R) :
    (Check.declare cause name kind >>= f).Leads s R := by
  have hbind : (Check.bind name kind).exec s = ((s.bindings.size, s.scopes.declares name.spelling),
      { s with
        bindings := s.bindings.push ⟨name.spelling, kind⟩
        scopes := s.scopes.enter name.spelling s.bindings.size }) := rfl
  refine bind (Q := fun result s' =>
    result = (name.link s.bindings.size, s.bindings.size, s.scopes.declares name.spelling) ∧
      s.Marks s' [⟨name.link s.bindings.size, s.scopes.declares name.spelling⟩] fun _ => []) ?_ ?_
  · unfold Leads Check.declare
    rw [exec_bind, hbind]
    have hmarks := Checker.Marks.declare (s := s) hcause name kind rfl
    -- the complaint is made if the scope had the name
    cases hdeclares : s.scopes.declares name.spelling with
    | true =>
      rw [hdeclares] at hmarks
      exact ⟨rfl, hmarks⟩
    | false =>
      rw [hdeclares] at hmarks
      exact ⟨rfl, hmarks⟩
  · rintro _ s' ⟨rfl, hmarks⟩
    exact hf _ s' hmarks

end Leads

/-! ## Type denoters -/

mutual

theorem typeDenoter_steady : ∀ (type : TypeDenoter) (s : Checker),
    (typeDenoter type).Leads s fun _ s' => s.Steady s'
  | .named span name, s => by
    unfold typeDenoter
    refine .lookup? fun found _ => ?_
    match found with
    | none => exact .reject (by decide) fun s₁ hs₁ => .pure hs₁
    | some (id, .type type) => exact .pure (.refl s)
    | some (id, .const _) | some (id, .var _) | some (id, .proc _) | some (id, .func _ _)
    | some (id, .unary _ _) | some (id, .binary _ _ _) =>
      exact .reject (by decide) fun s₁ hs₁ => .pure hs₁
  | .array serial span length element, s => by
    unfold typeDenoter
    refine .perhaps (by decide) fun s₁ hs₁ => ?_
    refine (typeDenoter_steady element s₁).bind fun element' s₂ hs₂ => ?_
    exact .newSerial fun serial' s₃ hs₃ => .pure ((hs₁.trans hs₂).trans hs₃)
  | .record serial span fields, s => by
    unfold typeDenoter
    refine (fieldTypes_steady fields s).bind fun fields' s₁ hs₁ => ?_
    exact .newSerial fun serial' s₂ hs₂ => .pure (hs₁.trans hs₂)
  | .boolean, s | .character, s | .integer, s | .any, s | .error, s => .pure (.refl s)

theorem fieldTypes_steady : ∀ (fields : Fields) (s : Checker),
    (fieldTypes fields).Leads s fun _ s' => s.Steady s'
  | .one span name type, s => by
    unfold fieldTypes
    exact (typeDenoter_steady type s).bind fun type' s₁ hs₁ => .pure hs₁
  | .more span name type rest, s => by
    unfold fieldTypes
    refine (typeDenoter_steady type s).bind fun type' s₁ hs₁ => ?_
    exact (fieldTypes_steady rest s₁).bind fun rest' s₂ hs₂ => .pure (hs₁.trans hs₂)

end

/-! ## Formal parameters -/

mutual

theorem formal_marks : ∀ (parameter : Formal) (s : Checker),
    (formal parameter).Leads s fun result s' =>
      s.Marks s' [result.1.mark] fun _ => result.1.scopes
  | .const span duplicated name type, s | .var span duplicated name type, s => by
    unfold formal
    refine (typeDenoter_steady type s).bind fun type' s₁ hs₁ => ?_
    exact .declare (by decide) fun duplicated' s₂ hname =>
      .pure ((Checker.Marks.of_steady hs₁).trans hname)
  | .proc span duplicated name inner, s => by
    unfold formal
    refine .openScope ((formals_marks inner _).bind ?_)
    intro (inner', shapes) s₁ hinner
    exact .closeScope (.declare (by decide) fun duplicated' s₂ hname =>
      .pure (hinner.scope.names hname))
  | .func span duplicated name inner result, s => by
    unfold formal
    refine (typeDenoter_steady result s).bind fun result' s₁ hs₁ => ?_
    refine .openScope ((formals_marks inner _).bind ?_)
    intro (inner', shapes) s₂ hinner
    have hbefore := (Checker.Marks.of_steady hs₁).trans hinner.scope
    exact .closeScope (.declare (by decide) fun duplicated' s₃ hname => .pure (hbefore.names hname))

theorem formals_marks : ∀ (parameters : Formals) (s : Checker),
    (formals parameters).Leads s fun result s' =>
      s.Marks s' result.1.marks fun _ => result.1.scopes
  | .empty span, s => .pure (.refl s)
  | .one span first, s => by
    unfold formals
    refine (formal_marks first s).bind ?_
    intro (first', shape) s₁ hfirst
    exact .pure hfirst
  | .more span first rest, s => by
    unfold formals
    refine (formal_marks first s).bind ?_
    intro (first', shape) s₁ hfirst
    refine (formals_marks rest s₁).bind ?_
    intro (rest', shapes) s₂ hrest
    exact .pure (hfirst.trans hrest)

end

/-! ## Commands, expressions and declarations -/

mutual

theorem command_marks : ∀ (command : Command) (s : Checker), command.Unlinked →
    (Check.command command).Leads s fun command' s' =>
      s.Marks s' [] fun bindings => command'.scopes bindings
  | .empty span, s, _ => .pure (.refl s)
  | .assign span target value, s, ⟨htarget, hvalue⟩ => by
    unfold Check.command
    refine (vname_marks target s htarget).bind ?_
    intro (target', targetType) s₁ hmarks
    refine (expression_marks value s₁ hvalue).bind ?_
    intro (value', valueType) s₂ hmarks'
    exact .perhaps (by decide) fun s₃ hs₃ => .perhaps (by decide) fun s₄ hs₄ =>
      .pure ((hmarks.trans hmarks').steady (hs₃.trans hs₄))
  | .call span callee args, s, ⟨hcallee, hargs⟩ => by
    unfold Check.command
    refine .lookup? fun found hfound => ?_
    match found with
    -- the arguments of a call of no procedure are not checked
    | none => exact .reject (by decide) fun s₁ hs₁ => .pure (.skipped hcallee args hs₁)
    | some (id, .proc shapes) =>
      obtain ⟨spelling, hat⟩ := hfound id (.proc shapes) rfl
      refine (actuals_marks args shapes s hargs).bind fun args' s₁ hmarks => ?_
      exact .pure (.call hat hmarks callee)
    | some (id, .const _) | some (id, .var _) | some (id, .func _ _) | some (id, .type _)
    | some (id, .unary _ _) | some (id, .binary _ _ _) =>
      exact .reject (by decide) fun s₁ hs₁ => .pure (.skipped hcallee args hs₁)
  | .sequence span first second, s, ⟨hfirst, hsecond⟩ => by
    unfold Check.command
    refine (command_marks first s hfirst).bind fun first' s₁ hmarks => ?_
    refine (command_marks second s₁ hsecond).bind fun second' s₂ hmarks' => ?_
    exact .pure (hmarks.trans hmarks')
  | .letIn span declared body, s, ⟨hdeclared, hbody⟩ => by
    unfold Check.command
    refine .openScope ((declaration_marks declared _ hdeclared).bind fun declared' s₁ hmarks => ?_)
    refine (command_marks body s₁ hbody).bind fun body' s₂ hmarks' => ?_
    -- what was marked in the scope stays marked when it is closed
    exact .closeScope (.pure (hmarks.within hmarks').scope)
  | .ifElse span condition thenBranch elseBranch, s, ⟨hcondition, hthen, helse⟩ => by
    unfold Check.command
    refine (expression_marks condition s hcondition).bind ?_
    intro (condition', type) s₁ hmarks
    refine .expectBoolean fun s₂ hs₂ => ?_
    refine (command_marks thenBranch s₂ hthen).bind fun thenBranch' s₃ hmarks' => ?_
    refine (command_marks elseBranch s₃ helse).bind fun elseBranch' s₄ hmarks'' => ?_
    exact .pure (((hmarks.steady hs₂).trans hmarks').trans hmarks'')
  | .whileDo span condition body, s, ⟨hcondition, hbody⟩ => by
    unfold Check.command
    refine (expression_marks condition s hcondition).bind ?_
    intro (condition', type) s₁ hmarks
    refine .expectBoolean fun s₂ hs₂ => ?_
    refine (command_marks body s₂ hbody).bind fun body' s₃ hmarks' => ?_
    exact .pure ((hmarks.steady hs₂).trans hmarks')
  | .repeatUntil span body condition, s, ⟨hbody, hcondition⟩ => by
    unfold Check.command
    refine (command_marks body s hbody).bind fun body' s₁ hmarks => ?_
    refine (expression_marks condition s₁ hcondition).bind ?_
    intro (condition', type) s₂ hmarks'
    exact .expectBoolean fun s₃ hs₃ => .pure ((hmarks.trans hmarks').steady hs₃)
  | .loopWhile span body condition tail, s, ⟨hbody, hcondition, htail⟩ => by
    unfold Check.command
    refine (command_marks body s hbody).bind fun body' s₁ hmarks => ?_
    refine (expression_marks condition s₁ hcondition).bind ?_
    intro (condition', type) s₂ hmarks'
    refine .expectBoolean fun s₃ hs₃ => ?_
    refine (command_marks tail s₃ htail).bind fun tail' s₄ hmarks'' => ?_
    exact .pure (((hmarks.trans hmarks').steady hs₃).trans hmarks'')

theorem expression_marks : ∀ (expression : Expression) (s : Checker), expression.Unlinked →
    (Check.expression expression).Leads s fun result s' =>
      s.Marks s' [] fun bindings => result.1.scopes bindings
  | .integer .., s, _ | .character .., s, _ => .pure (.refl s)
  | .vname span type found, s, hfound => by
    unfold Check.expression
    refine (vname_marks found s hfound).bind ?_
    intro (found', foundType) s₁ hmarks
    exact .pure hmarks
  | .call span type callee args, s, ⟨hcallee, hargs⟩ => by
    unfold Check.expression
    refine .lookup? fun found hfound => ?_
    match found with
    -- the arguments of a call of no function are not checked
    | none => exact .reject (by decide) fun s₁ hs₁ => .pure (.skipped hcallee args hs₁)
    | some (id, .func shapes result) =>
      obtain ⟨spelling, hat⟩ := hfound id (.func shapes result) rfl
      refine (actuals_marks args shapes s hargs).bind fun args' s₁ hmarks => ?_
      exact .pure (.call hat hmarks callee)
    | some (id, .const _) | some (id, .var _) | some (id, .proc _) | some (id, .type _)
    | some (id, .unary _ _) | some (id, .binary _ _ _) =>
      exact .reject (by decide) fun s₁ hs₁ => .pure (.skipped hcallee args hs₁)
  | .ifElse span type condition thenBranch elseBranch, s, ⟨hcondition, hthen, helse⟩ => by
    unfold Check.expression
    refine (expression_marks condition s hcondition).bind ?_
    intro (condition', conditionType) s₁ hmarks
    refine .expectBoolean fun s₂ hs₂ => ?_
    refine (expression_marks thenBranch s₂ hthen).bind ?_
    intro (thenBranch', thenType) s₃ hmarks'
    refine (expression_marks elseBranch s₃ helse).bind ?_
    intro (elseBranch', elseType) s₄ hmarks''
    exact .perhaps (by decide) fun s₅ hs₅ =>
      .pure ((((hmarks.steady hs₂).trans hmarks').trans hmarks'').steady hs₅)
  | .letIn span type declared body, s, ⟨hdeclared, hbody⟩ => by
    unfold Check.expression
    refine .openScope ((declaration_marks declared _ hdeclared).bind fun declared' s₁ hmarks => ?_)
    refine (expression_marks body s₁ hbody).bind ?_
    intro (body', bodyType) s₂ hmarks'
    exact .closeScope (.pure (hmarks.within hmarks').scope)
  | .unary span type operator operand, s, ⟨_, hoperand⟩ => by
    unfold Check.expression
    refine (expression_marks operand s hoperand).bind ?_
    intro (operand', operandType) s₁ hmarks
    refine .lookup? fun found _ => ?_
    match found with
    | some (id, .unary expected result) =>
      exact .perhaps (by decide) fun s₂ hs₂ => .pure (hmarks.steady hs₂)
    | none | some (id, .const _) | some (id, .var _) | some (id, .proc _) | some (id, .func _ _)
    | some (id, .type _) | some (id, .binary _ _ _) =>
      exact .reject (by decide) fun s₂ hs₂ => .pure (hmarks.steady hs₂)
  | .binary span type left operator right, s, ⟨hleft, _, hright⟩ => by
    unfold Check.expression
    refine (expression_marks left s hleft).bind ?_
    intro (left', leftType) s₁ hmarks
    refine (expression_marks right s₁ hright).bind ?_
    intro (right', rightType) s₂ hmarks'
    -- operators are declared nowhere, so only the operands have marks
    have hboth := hmarks.trans hmarks'
    refine .lookup? fun found _ => ?_
    match found with
    | some (id, .binary expectedLeft expectedRight result) =>
      dsimp only
      split
      · split
        · exact .perhaps (by decide) fun s₃ hs₃ => .pure (hboth.steady hs₃)
        · exact .perhaps (by decide) fun s₃ hs₃ => .pure (hboth.steady hs₃)
      · exact .pure hboth
    | none | some (id, .const _) | some (id, .var _) | some (id, .proc _) | some (id, .func _ _)
    | some (id, .type _) | some (id, .unary _ _) =>
      exact .reject (by decide) fun s₃ hs₃ => .pure (hboth.steady hs₃)
  | .array span type elements, s, helements => by
    unfold Check.expression
    refine (arrayAggregate_marks elements s helements).bind ?_
    intro (elements', element) s₁ hmarks
    exact .newSerial fun serial s₂ hs₂ => .pure (hmarks.steady hs₂)
  | .record span type fields, s, hfields => by
    unfold Check.expression
    refine (recordAggregate_marks fields s hfields).bind ?_
    intro (fields', types) s₁ hmarks
    exact .newSerial fun serial s₂ hs₂ => .pure (hmarks.steady hs₂)

theorem arrayAggregate_marks : ∀ (elements : ArrayAggregate) (s : Checker), elements.Unlinked →
    (Check.arrayAggregate elements).Leads s fun result s' =>
      s.Marks s' [] fun bindings => result.1.scopes bindings
  | .one span element, s, helement => by
    unfold Check.arrayAggregate
    refine (expression_marks element s helement).bind ?_
    intro (element', type) s₁ hmarks
    exact .pure hmarks
  | .more span element rest, s, ⟨helement, hrest⟩ => by
    unfold Check.arrayAggregate
    refine (expression_marks element s helement).bind ?_
    intro (element', type) s₁ hmarks
    refine (arrayAggregate_marks rest s₁ hrest).bind ?_
    intro (rest', restType) s₂ hmarks'
    exact .perhaps (by decide) fun s₃ hs₃ => .pure ((hmarks.trans hmarks').steady hs₃)

theorem recordAggregate_marks : ∀ (fields : RecordAggregate) (s : Checker), fields.Unlinked →
    (Check.recordAggregate fields).Leads s fun result s' =>
      s.Marks s' [] fun bindings => result.1.scopes bindings
  | .one span field value, s, hvalue => by
    unfold Check.recordAggregate
    refine (expression_marks value s hvalue).bind ?_
    intro (value', type) s₁ hmarks
    exact .pure hmarks
  | .more span field value rest, s, ⟨hvalue, hrest⟩ => by
    unfold Check.recordAggregate
    refine (expression_marks value s hvalue).bind ?_
    intro (value', type) s₁ hmarks
    refine (recordAggregate_marks rest s₁ hrest).bind ?_
    intro (rest', types) s₂ hmarks'
    -- a field may repeat a name, but fields are not in scope
    exact .perhaps (by decide) fun s₃ hs₃ => .pure ((hmarks.trans hmarks').steady hs₃)

theorem vname_marks : ∀ (vname : Vname) (s : Checker), vname.Unlinked →
    (Check.vname vname).Leads s fun result s' =>
      s.Marks s' [] fun bindings => result.1.scopes bindings
  | .simple span type isVariable name, s, _ => by
    unfold Check.vname
    refine .lookup? fun found _ => ?_
    match found with
    | some (id, .const constType) => exact .pure (.refl s)
    | some (id, .var varType) => exact .pure (.refl s)
    | none | some (id, .proc _) | some (id, .func _ _) | some (id, .type _)
    | some (id, .unary _ _) | some (id, .binary _ _ _) =>
      exact .reject (by decide) fun s₁ hs₁ => .pure (.of_steady hs₁)
  | .dot span type isVariable record field, s, hrecord => by
    unfold Check.vname
    refine (vname_marks record s hrecord).bind ?_
    intro (record', recordType) s₁ hmarks
    -- whatever the type of the record is, the report is about no name of a scope
    dsimp only
    split
    · exact .pure hmarks
    · split
      · exact .pure hmarks
      · exact .reject (by decide) fun s₂ hs₂ => .pure (hmarks.steady hs₂)
    · exact .report (by decide) fun s₂ hs₂ => .pure (hmarks.steady hs₂)
  | .subscript span type isVariable array index, s, ⟨harray, hindex⟩ => by
    unfold Check.vname
    refine (vname_marks array s harray).bind ?_
    intro (array', arrayType) s₁ hmarks
    refine (expression_marks index s₁ hindex).bind ?_
    intro (index', indexType) s₂ hmarks'
    have hboth := hmarks.trans hmarks'
    -- and so it is with the type of the array
    dsimp only
    split
    · exact .pure hboth
    · exact .perhaps (by decide) fun s₃ hs₃ => .pure (hboth.steady hs₃)
    · exact .report (by decide) fun s₃ hs₃ => .pure (hboth.steady hs₃)

theorem declaration_marks : ∀ (declaration : Declaration) (s : Checker), declaration.Unlinked →
    (Check.declaration declaration).Leads s fun declaration' s' =>
      s.Marks s' declaration'.marks fun bindings => declaration'.scopes bindings
  | .const span duplicated name value, s, ⟨_, hvalue⟩ => by
    unfold Check.declaration
    refine (expression_marks value s hvalue).bind ?_
    intro (value', type) s₁ hmarks
    exact .declare (by decide) fun duplicated' s₂ hname => .pure (hmarks.names hname)
  | .var span duplicated name type, s, _ | .type span duplicated name type, s, _ => by
    unfold Check.declaration
    refine (typeDenoter_steady type s).bind fun type' s₁ hs₁ => ?_
    exact .declare (by decide) fun duplicated' s₂ hname =>
      .pure ((Checker.Marks.of_steady hs₁).trans hname)
  | .proc span duplicated name parameters body, s, ⟨_, _, hbody⟩ => by
    unfold Check.declaration
    refine .declare (by decide) fun duplicated' s₀ hname => .openScope ?_
    refine (formals_marks parameters _).bind ?_
    intro (parameters', shapes) s₁ hparameters
    -- binding the routine again changes its kind, and no name
    refine .rebind ((command_marks body _ hbody).bind fun body' s₂ hmarks => ?_)
    exact .closeScope (.pure (.routine (Bindings.Extends.refl _).next hname hparameters hmarks))
  | .func span duplicated name parameters result body, s, ⟨_, _, hbody⟩ => by
    unfold Check.declaration
    -- a type denoter has no declarations in it
    refine (typeDenoter_steady result s).bind fun result' s' hs' => ?_
    refine .declare (by decide) fun duplicated' s₀ hname => .openScope ?_
    refine (formals_marks parameters _).bind ?_
    intro (parameters', shapes) s₁ hparameters
    refine .rebind ((expression_marks body _ hbody).bind ?_)
    intro (body', bodyType) s₂ hmarks
    have hroutine := Checker.Marks.routine (Bindings.Extends.refl _).next hname hparameters hmarks
    exact .closeScope (.perhaps (by decide) fun s₃ hs₃ =>
      .pure (((Checker.Marks.of_steady hs').trans hroutine).steady hs₃))
  | .sequence span first second, s, ⟨hfirst, hsecond⟩ => by
    unfold Check.declaration
    refine (declaration_marks first s hfirst).bind fun first' s₁ hmarks => ?_
    refine (declaration_marks second s₁ hsecond).bind fun second' s₂ hmarks' => ?_
    exact .pure (hmarks.trans hmarks')

theorem actuals_marks : ∀ (args : Actuals) (shapes : Signature) (s : Checker), args.Unlinked →
    (Check.actuals args shapes).Leads s fun args' s' =>
      s.Marks s' [] fun bindings => args'.scopes bindings shapes.length
  | .empty span, shapes, s, _ => by
    unfold Check.actuals
    exact .perhaps (by decide) fun s₁ hs₁ => .pure (.of_steady hs₁)
  | .one span first, [shape], s, hfirst => by
    unfold Check.actuals
    refine (actual_marks first shape s hfirst).bind fun first' s₁ hmarks => ?_
    exact .pure hmarks
  | .one span first, [], s, _ | .one span first, _ :: _ :: _, s, _ => by
    unfold Check.actuals
    exact .report (by decide) fun s₁ hs₁ => .pure (.of_steady hs₁)
  | .more span first rest, shape :: next :: others, s, ⟨hfirst, hrest⟩ => by
    unfold Check.actuals
    refine (actual_marks first shape s hfirst).bind fun first' s₁ hmarks => ?_
    refine (actuals_marks rest (next :: others) s₁ hrest).bind fun rest' s₂ hmarks' => ?_
    exact .pure (hmarks.trans hmarks')
  | .more span first rest, [], s, _ | .more span first rest, [_], s, _ => by
    unfold Check.actuals
    exact .report (by decide) fun s₁ hs₁ => .pure (.of_steady hs₁)

theorem actual_marks : ∀ (arg : Actual) (shape : FormalShape) (s : Checker), arg.Unlinked →
    (Check.actual arg shape).Leads s fun arg' s' =>
      s.Marks s' [] fun bindings => arg'.scopes bindings
  | .const span value, shape, s, hvalue => by
    unfold Check.actual
    refine (expression_marks value s hvalue).bind ?_
    intro (value', type) s₁ hmarks
    cases shape with
    | const expected => exact .perhaps (by decide) fun s₂ hs₂ => .pure (hmarks.steady hs₂)
    | var | proc | func => exact .report (by decide) fun s₂ hs₂ => .pure (hmarks.steady hs₂)
  | .var span found, shape, s, hfound => by
    unfold Check.actual
    refine (vname_marks found s hfound).bind ?_
    intro (found', type) s₁ hmarks
    refine .perhaps (by decide) fun s₂ hs₂ => ?_
    cases shape with
    | var expected => exact .perhaps (by decide) fun s₃ hs₃ => .pure (hmarks.steady (hs₂.trans hs₃))
    | const | proc | func =>
      exact .report (by decide) fun s₃ hs₃ => .pure (hmarks.steady (hs₂.trans hs₃))
  | .proc span name, shape, s, _ => by
    unfold Check.actual
    refine .lookup? fun found _ => ?_
    match found with
    | some (id, .proc shapes) =>
      cases shape with
      | proc expected => exact .perhaps (by decide) fun s₁ hs₁ => .pure (.of_steady hs₁)
      | const | var | func =>
        exact .report (by decide) fun s₁ hs₁ => .pure (.of_steady hs₁)
    | none | some (id, .const _) | some (id, .var _) | some (id, .func _ _) | some (id, .type _)
    | some (id, .unary _ _) | some (id, .binary _ _ _) =>
      exact .reject (by decide) fun s₁ hs₁ => .pure (.of_steady hs₁)
  | .func span name, shape, s, _ => by
    unfold Check.actual
    refine .lookup? fun found _ => ?_
    match found with
    | some (id, .func shapes result) =>
      cases shape with
      | func expected expectedResult =>
        dsimp only
        split
        · exact .report (by decide) fun s₁ hs₁ => .pure (.of_steady hs₁)
        · exact .perhaps (by decide) fun s₁ hs₁ => .pure (.of_steady hs₁)
      | const | var | proc =>
        exact .report (by decide) fun s₁ hs₁ => .pure (.of_steady hs₁)
    | none | some (id, .const _) | some (id, .var _) | some (id, .proc _) | some (id, .type _)
    | some (id, .unary _ _) | some (id, .binary _ _ _) =>
      exact .reject (by decide) fun s₁ hs₁ => .pure (.of_steady hs₁)

end

end Check

end TriangleTam
