import TriangleTam.Proofs.Misspelling.Erosion
import TriangleTam.Proofs.Typing.Steps

/-! # Checking with misspelt names

  A checker that met misspelt names **strays** from the environment of the
  tree without them: it has the same names, of the same bindings, but their
  types have eroded. A step **slips** when it reports each misspelt name of
  its tree once and in order, and for the rest only that two types do not
  match.

  Whether there are reports of the second kind depends on what was found
  before. So a step is looked at with a condition on what came before it and a
  condition on its result, such as that errors stand apart there. Under these
  it reports the misspelt names and nothing else.
-/

namespace TriangleTam

/-! ## Reports -/

/-- The report that `w` is not declared, at a place. -/
def Diagnostic.undeclared (w : String) (span : Span) : Diagnostic :=
  .ofSemantic .undeclared w span

/-- The complaints that a type is not the one it should be. Other complaints about types look at
    its outermost constructor alone. -/
def SemanticCause.mismatches : List SemanticCause :=
  [.assignmentIncompatible, .incompatibleLimbs, .incompatibleOperands, .incompatibleElement,
    .wrongBody, .constWrongType, .varWrongType, .procWrongSignature, .funcWrongSignature,
    .funcWrongType]

/-- The diagnostic complains that two types do not match. -/
def Diagnostic.isMismatch (d : Diagnostic) : Bool :=
  d.kind == .semantic && SemanticCause.mismatches.any fun cause => d.template == cause.template

theorem Diagnostic.isMismatch_ofSemantic {cause : SemanticCause}
    (h : cause ∈ SemanticCause.mismatches) (token : String) (span : Span) :
    (Diagnostic.ofSemantic cause token span).isMismatch = true := by
  have hany : SemanticCause.mismatches.any (fun c => cause.template == c.template) = true :=
    List.any_eq_true.2 ⟨cause, h, beq_self_eq_true _⟩
  exact hany

theorem Diagnostic.isMismatch_undeclared (w : String) (span : Span) :
    (Diagnostic.undeclared w span).isMismatch = false := by
  have hnone : SemanticCause.mismatches.any
      (fun cause => SemanticCause.undeclared.template == cause.template) = false := by decide
  exact hnone

/-! ## Straying -/

section Slips

variable (w : String) (formal : TypeDenoter → Prop)

/-- The checker agrees with an environment to which `Γ` has eroded, in which, under the condition
    `W`, the types of parameters satisfy `formal`. -/
def Checker.Strays (W : Prop) (s : Checker) (Γ : Env) (p : Supply) : Prop :=
  ∃ Γ', s.Agrees Γ' p ∧ Γ.Erodes w Γ' ∧ (W → Γ'.RoutinesIn formal)

/-- From a checker that strays from `Γ` and `p`, the step leads to one that strays from `Γ'` and
    `p'`, and its result satisfies `Q`. It reports `w` at the places, and mismatches. If the
    result satisfies `C`, then `W` holds and no mismatch is reported. -/
def Check.Slips {α : Type} (m : Check α) (W : Prop) (Γ : Env) (p : Supply) (spans : List Span)
    (Γ' : Env) (p' : Supply) (Q C : α → Prop) : Prop :=
  ∀ s : Checker, s.Strays w formal W Γ p →
    (m.exec s).2.Strays w formal (C (m.exec s).1) Γ' p' ∧ Q (m.exec s).1 ∧
    (C (m.exec s).1 → W) ∧
    ∃ reports,
      (m.exec s).2.journal.diagnostics.toList = s.journal.diagnostics.toList ++ reports ∧
      reports.filter (fun d => !d.isMismatch) = spans.map (Diagnostic.undeclared w) ∧
      (C (m.exec s).1 → reports = spans.map (Diagnostic.undeclared w))

end Slips

variable {w : String} {formal : TypeDenoter → Prop}

theorem Checker.Strays.mono {W W' : Prop} {s : Checker} {Γ : Env} {p : Supply}
    (h : s.Strays w formal W Γ p) (hW : W' → W) : s.Strays w formal W' Γ p := by
  obtain ⟨Γ', hagrees, herodes, hroutines⟩ := h
  exact ⟨Γ', hagrees, herodes, fun h' => hroutines (hW h')⟩

namespace Check.Slips

variable {α β : Type} {W W' : Prop} {Γ Γ' Γ₁ : Env} {p p' p₁ : Supply} {spans spans' : List Span}

/-! ## Composition -/

theorem pure {a : α} {Q C : α → Prop} (hQ : Q a) (hC : C a → W) :
    (pure a : Check α).Slips w formal W Γ p [] Γ p Q C :=
  fun _ hs => ⟨hs.mono hC, hQ, hC, [], by simp, rfl, fun _ => rfl⟩

/-- One step after the other. The second may use what the first one has found. -/
theorem bind {m : Check α} {f : α → Check β} {Q₁ C₁ : α → Prop} {Q C : β → Prop}
    (hm : m.Slips w formal W Γ p spans Γ₁ p₁ Q₁ C₁)
    (hf : ∀ a, Q₁ a → (f a).Slips w formal (C₁ a) Γ₁ p₁ spans' Γ' p' Q C) :
    (m >>= f).Slips w formal W Γ p (spans ++ spans') Γ' p' Q C := by
  intro s hs
  obtain ⟨hs₁, hQ₁, hW, reports, hreports, hnames, hquiet⟩ := hm s hs
  obtain ⟨hs₂, hQ, hC₁, reports', hreports', hnames', hquiet'⟩ := hf _ hQ₁ _ hs₁
  rw [exec_bind]
  refine ⟨hs₂, hQ, fun hC => hW (hC₁ hC), reports ++ reports', ?_, ?_, fun hC => ?_⟩
  · rw [hreports', hreports, List.append_assoc]
  · rw [List.filter_append, hnames, hnames', List.map_append]
  · rw [hquiet (hC₁ hC), hquiet' hC, List.map_append]

/-- A step without misspelt names goes first. -/
theorem step {m : Check α} {f : α → Check β} {Q₁ C₁ : α → Prop} {Q C : β → Prop}
    (hm : m.Slips w formal W Γ p [] Γ₁ p₁ Q₁ C₁)
    (hf : ∀ a, Q₁ a → (f a).Slips w formal (C₁ a) Γ₁ p₁ spans Γ' p' Q C) :
    (m >>= f).Slips w formal W Γ p spans Γ' p' Q C :=
  bind hm hf

/-- Only steps without misspelt names are left. -/
theorem last {m : Check α} {f : α → Check β} {Q₁ C₁ : α → Prop} {Q C : β → Prop}
    (hm : m.Slips w formal W Γ p spans Γ₁ p₁ Q₁ C₁)
    (hf : ∀ a, Q₁ a → (f a).Slips w formal (C₁ a) Γ₁ p₁ [] Γ' p' Q C) :
    (m >>= f).Slips w formal W Γ p spans Γ' p' Q C := by
  have hboth := bind hm hf
  rwa [List.append_nil] at hboth

/-- More may be asked of the result before it is said to be quiet. -/
theorem narrow {m : Check α} {Q C C' : α → Prop}
    (hm : m.Slips w formal W Γ p spans Γ' p' Q C) (hC : ∀ a, C' a → C a) :
    m.Slips w formal W Γ p spans Γ' p' Q C' := by
  intro s hs
  obtain ⟨hs', hQ, hW, reports, hreports, hnames, hquiet⟩ := hm s hs
  exact ⟨hs'.mono (hC _), hQ, fun h => hW (hC _ h), reports, hreports, hnames,
    fun h => hquiet (hC _ h)⟩

/-- Types that do not match are reported, unless they have to match. -/
theorem mismatch_else {c : Prop} [Decidable c] {cause : SemanticCause}
    (hcause : cause ∈ SemanticCause.mismatches) {token : String} {span : Span}
    {k : PUnit → Check α} {m : Check α} {Q C : α → Prop}
    (hk : (k ⟨⟩).Slips w formal (W ∧ ¬ c) Γ p spans Γ' p' Q C)
    (hm : m.Slips w formal (W ∧ ¬ c) Γ p spans Γ' p' Q C) :
    (if c then report cause token span >>= k else m).Slips w formal W Γ p spans Γ' p' Q C := by
  intro s hs
  by_cases hc : c
  · -- whatever needs that the types match is void here
    rw [if_pos hc]
    have hstrays : Checker.Strays w formal (W ∧ ¬ c)
        { s with journal := s.journal.report (.ofSemantic cause token span) } Γ p := by
      obtain ⟨Γ'', hagrees, herodes, -⟩ := hs
      exact ⟨Γ'', hagrees.withJournal _, herodes, fun h => absurd hc h.2⟩
    obtain ⟨hs', hQ, hW, reports, hreports, hnames, -⟩ := hk _ hstrays
    rw [exec_bind, exec_report]
    refine ⟨hs', hQ, fun hC => (hW hC).1, .ofSemantic cause token span :: reports, ?_, ?_,
      fun hC => absurd hc (hW hC).2⟩
    · rw [hreports]
      simp [Journal.report]
    · rw [List.filter_cons, Diagnostic.isMismatch_ofSemantic hcause]
      exact hnames
  · rw [if_neg hc]
    obtain ⟨hs', hQ, hW, hreports⟩ := hm s (hs.mono And.left)
    exact ⟨hs', hQ, fun hC => (hW hC).1, hreports⟩

theorem mismatch {c : Prop} [Decidable c] {cause : SemanticCause}
    (hcause : cause ∈ SemanticCause.mismatches) {token : String} {span : Span}
    {k : PUnit → Check α} {Q C : α → Prop}
    (hk : (k ⟨⟩).Slips w formal (W ∧ ¬ c) Γ p spans Γ' p' Q C) :
    (if c then report cause token span >>= k else k ⟨⟩).Slips w formal W Γ p spans Γ' p' Q C :=
  mismatch_else hcause hk hk

/-- A misspelt name is reported. -/
theorem misspelt (name : Name) {k : Unit → Check α} {Q C : α → Prop}
    (hk : (k ()).Slips w formal W Γ p [] Γ' p' Q C) :
    (reject .undeclared { name with spelling := w } >>= k).Slips w formal W Γ p [name.span] Γ' p'
      Q C := by
  have hreport : (reject .undeclared { name with spelling := w }).Slips w formal W Γ p
      [name.span] Γ p (fun _ => True) fun _ => W := by
    intro s hs
    obtain ⟨Γ'', hagrees, herodes, hroutines⟩ := hs
    refine ⟨⟨Γ'', hagrees.withJournal _, herodes, hroutines⟩, trivial, id,
      [Diagnostic.undeclared w name.span], ?_, ?_, fun _ => rfl⟩
    · simp [Journal.report, Diagnostic.undeclared]
    · simp [Diagnostic.isMismatch_undeclared]
  exact last hreport fun _ _ => hk

/-- All bindings of the environment were made before. -/
theorem of_below {m : Check α} {Q C : α → Prop}
    (h : Γ.Below p.bindings → m.Slips w formal W Γ p spans Γ' p' Q C) :
    m.Slips w formal W Γ p spans Γ' p' Q C := by
  intro s hs
  have hstrays := hs
  obtain ⟨Γ'', hagrees, herodes, -⟩ := hstrays
  exact h (herodes.below hagrees.below) s hs

/-! ## Single steps -/

/-- A step that reports nothing, whatever happened before. -/
theorem of_exec {m : Check α} {Q : α → Prop}
    (h : ∀ s : Checker, s.Strays w formal W Γ p → ∃ a s', m.exec s = (a, s') ∧ Q a ∧
      s'.Strays w formal W Γ' p' ∧ s'.journal = s.journal) :
    m.Slips w formal W Γ p [] Γ' p' Q fun _ => W := by
  intro s hs
  obtain ⟨a, s', hexec, hQ, hs', hjournal⟩ := h s hs
  rw [hexec]
  exact ⟨hs', hQ, id, [], by simp [hjournal], rfl, fun _ => rfl⟩

theorem openScope : Check.openScope.Slips w formal W Γ p [] Γ.enclose p (fun _ => True)
    fun _ => W := by
  refine of_exec fun s ⟨Γ'', hagrees, herodes, hroutines⟩ => ?_
  obtain ⟨s', hexec, hagrees', hjournal⟩ := hagrees.openScope
  exact ⟨_, s', hexec, trivial, ⟨_, hagrees', herodes.enclose, fun h => (hroutines h).enclose⟩,
    hjournal⟩

theorem closeScope : Check.closeScope.Slips w formal W Γ p [] Γ.close p (fun _ => True)
    fun _ => W := by
  refine of_exec fun s ⟨Γ'', hagrees, herodes, hroutines⟩ => ?_
  obtain ⟨s', hexec, hagrees', hjournal⟩ := hagrees.closeScope
  exact ⟨_, s', hexec, trivial, ⟨_, hagrees', herodes.close, fun h => (hroutines h).close⟩,
    hjournal⟩

theorem newSerial (type : TypeDenoter) :
    Check.newSerial.Slips w formal W Γ p [] Γ (p.add type) (fun _ => True) fun _ => W := by
  refine of_exec fun s ⟨Γ'', hagrees, herodes, hroutines⟩ => ?_
  obtain ⟨s', hexec, hagrees', hjournal⟩ := hagrees.newSerial type
  exact ⟨_, s', hexec, trivial, ⟨_, hagrees', herodes, hroutines⟩, hjournal⟩

theorem rebind (id : BindingId) {kind kind' : BindingKind} (hkind : kind.Erodes kind')
    (hroutine : W → kind'.RoutineIn formal) :
    (Check.rebind id kind').Slips w formal W Γ p [] (Γ.rebind id kind) p (fun _ => True)
      fun _ => W := by
  refine of_exec fun s ⟨Γ'', hagrees, herodes, hroutines⟩ => ?_
  obtain ⟨s', hexec, hagrees', hjournal⟩ := hagrees.rebind id kind'
  exact ⟨_, s', hexec, trivial, ⟨_, hagrees', herodes.rebind id hkind,
    fun h => (hroutines h).rebind id (hroutine h)⟩, hjournal⟩

/-- The name that is declared gets the binding that it gets where nothing is misspelt. -/
theorem declare {cause : SemanticCause} {name : Name} (hnew : ¬ Γ.Declares name.spelling)
    (hfresh : name.spelling ≠ w) {kind kind' : BindingKind} (hkind : kind.Erodes kind')
    (hroutine : W → kind'.RoutineIn formal) :
    (Check.declare cause name kind').Slips w formal W Γ p []
      (Γ.enter name.spelling p.bindings kind) p.bind
      (· = (name.link p.bindings, p.bindings, false)) fun _ => W := by
  refine of_exec fun s ⟨Γ'', hagrees, herodes, hroutines⟩ => ?_
  obtain ⟨s', duplicated, hexec, hdup, hagrees', hjournal⟩ := hagrees.bind name kind'
  have hfalse : duplicated = false := by
    refine Bool.eq_false_iff.2 fun htrue => hnew ?_
    exact (herodes.declares_iff name.spelling).1 (hdup.1 htrue)
  subst hfalse
  refine ⟨_, s', ?_, rfl, ⟨_, hagrees', herodes.enter hfresh _ hkind,
    fun h => (hroutines h).enter _ _ (hroutine h)⟩, hjournal⟩
  rw [Check.declare, exec_bind, hexec]
  rfl

/-- A name that is not misspelt stands for the same binding. -/
theorem lookup {name : String} {id : BindingId} {kind : BindingKind}
    (hfind : Γ.find? name = some (id, kind)) {f : Option (BindingId × BindingKind) → Check α}
    {Q C : α → Prop}
    (hf : ∀ kind', kind.Erodes kind' → (W → kind'.RoutineIn formal) →
      (f (some (id, kind'))).Slips w formal W Γ p spans Γ' p' Q C) :
    (lookup? name >>= f).Slips w formal W Γ p spans Γ' p' Q C := by
  intro s hs
  have hstrays := hs
  obtain ⟨Γ'', hagrees, herodes, hroutines⟩ := hstrays
  have hrel := herodes.find? name
  rw [hfind] at hrel
  rw [exec_bind, hagrees.lookup? name]
  cases hfind' : Γ''.find? name with
  | none =>
    rw [hfind'] at hrel
    cases hrel
  | some found =>
    obtain ⟨id', kind'⟩ := found
    rw [hfind'] at hrel
    obtain ⟨rfl, hkind⟩ : id' = id ∧ kind.Erodes kind' := by
      cases hrel with
      | some hboth => exact hboth
    exact hf kind' hkind (fun h => (hroutines h).find? hfind') s hs

/-- A misspelt name stands for nothing. -/
theorem lookup_misspelt {name : String} (hname : name = w)
    {f : Option (BindingId × BindingKind) → Check α} {Q C : α → Prop}
    (hf : (f none).Slips w formal W Γ p spans Γ' p' Q C) :
    (lookup? name >>= f).Slips w formal W Γ p spans Γ' p' Q C := by
  intro s hs
  have hstrays := hs
  obtain ⟨Γ'', hagrees, herodes, -⟩ := hstrays
  rw [exec_bind, hagrees.lookup? name, hname, herodes.find?_eq_none]
  exact hf s hs

end Check.Slips

end TriangleTam
