import TriangleTam.Check
import TriangleTam.Proofs.Reports
import TriangleTam.Proofs.Typing.Environment

/-! # Steps of checking

  What the single steps of checking do to an environment. A checker **agrees**
  with an environment and a supply when its scopes and bindings say the same.
  A step **passes** when it returns without a report; it never takes a report
  back, so that a run without reports is made of steps without reports.
-/

namespace TriangleTam

/-! ## Runs -/

namespace Check

/-- The result of a step and the checker after it. -/
def exec {α : Type} (m : Check α) (s : Checker) : α × Checker := m s

@[simp] theorem exec_bind {α β : Type} (m : Check α) (f : α → Check β) (s : Checker) :
    (m >>= f).exec s = (f (m.exec s).1).exec (m.exec s).2 := rfl

@[simp] theorem exec_pure {α : Type} (a : α) (s : Checker) :
    (pure a : Check α).exec s = (a, s) := rfl

@[simp] theorem exec_report (cause : SemanticCause) (token : String) (span : Span)
    (s : Checker) :
    (report cause token span).exec s =
      ((), { s with journal := s.journal.report (.ofSemantic cause token span) }) := rfl

@[simp] theorem exec_reject (cause : SemanticCause) (name : Name) (s : Checker) :
    (reject cause name).exec s =
      ((), { s with
        journal := s.journal.report (.ofSemantic cause name.spelling name.span) }) := rfl

end Check

/-- How many diagnostics were reported so far. -/
def Checker.reports (s : Checker) : Nat := s.journal.diagnostics.size

@[simp] theorem Journal.size_diagnostics_report (journal : Journal) (d : Diagnostic) :
    (journal.report d).diagnostics.size = journal.diagnostics.size + 1 := by
  simp [Journal.report]

/-! ## Agreement -/

namespace Env

/-- The scopes of the environment, without what the bindings are. -/
def scopes (Γ : Env) : Scopes :=
  ⟨Γ.innermost.map fun entry => (entry.1, entry.2.1),
    Γ.outer.map (List.map fun entry => (entry.1, entry.2.1))⟩

@[simp] theorem scopes_enter (Γ : Env) (name : String) (id : BindingId) (kind : BindingKind) :
    (Γ.enter name id kind).scopes = Γ.scopes.enter name id := rfl

@[simp] theorem scopes_enclose (Γ : Env) : Γ.enclose.scopes = Γ.scopes.enclose := rfl

@[simp] theorem scopes_close (Γ : Env) : Γ.close.scopes = Γ.scopes.close := by
  obtain ⟨innermost, outer⟩ := Γ
  cases outer <;> rfl

/-- The environment with another kind for a binding. -/
def rebind (Γ : Env) (id : BindingId) (kind : BindingKind) : Env :=
  let entry (e : Entry) : Entry := (e.1, e.2.1, if e.2.1 = id then kind else e.2.2)
  ⟨Γ.innermost.map entry, Γ.outer.map (List.map entry)⟩

@[simp] theorem scopes_rebind (Γ : Env) (id : BindingId) (kind : BindingKind) :
    (Γ.rebind id kind).scopes = Γ.scopes := by
  simp [rebind, scopes, Function.comp_def]

theorem lookup_scope (scope : List Entry) (name : String) :
    (scope.map fun entry => (entry.1, entry.2.1)).lookup name =
      (scope.lookup name).map Prod.fst := by
  induction scope with
  | nil => rfl
  | cons entry others ih =>
    obtain ⟨name', id, kind⟩ := entry
    simp only [List.map_cons, List.lookup_cons]
    split
    · rfl
    · exact ih

theorem find?_scopes (Γ : Env) (name : String) :
    Γ.scopes.find? name = (Γ.find? name).map Prod.fst := by
  have h (scopes : List (List Entry)) :
      (scopes.map (List.map fun entry => (entry.1, entry.2.1))).findSome?
        (fun scope => scope.lookup name) =
      (scopes.findSome? fun scope => scope.lookup name).map Prod.fst := by
    induction scopes with
    | nil => rfl
    | cons scope others ih =>
      simp only [List.map_cons, List.findSome?_cons, lookup_scope]
      cases scope.lookup name with
      | none => exact ih
      | some found => rfl
  exact h (Γ.innermost :: Γ.outer)

theorem declares_scopes (Γ : Env) (name : String) :
    Γ.scopes.declares name = true ↔ Γ.Declares name := by
  simp only [Scopes.declares, scopes, lookup_scope, Declares]
  induction Γ.innermost with
  | nil => simp
  | cons entry others ih =>
    obtain ⟨name', id, kind⟩ := entry
    rw [List.lookup_cons]
    by_cases heq : name = name'
    · simp [heq]
    · rw [beq_false_of_ne heq]
      simp [Ne.symm heq]

end Env

/-- The scopes and bindings of the checker are those of the environment, and
    its counters are those of the supply. -/
structure Checker.Agrees (s : Checker) (Γ : Env) (p : Supply) : Prop where
  scopes   : s.scopes = Γ.scopes
  bound    : ∀ entry ∈ Γ.entries, s.bindings[entry.2.1]? = some ⟨entry.1, entry.2.2⟩
  bindings : s.bindings.size = p.bindings
  serials  : s.serials = p.denoters.length

namespace Checker.Agrees

variable {s : Checker} {Γ : Env} {p : Supply}

theorem below (h : s.Agrees Γ p) : Γ.Below p.bindings := by
  intro entry hmem
  have hat := h.bound entry hmem
  rw [← h.bindings]
  exact (Array.getElem?_eq_some_iff.1 hat).1

theorem withJournal (h : s.Agrees Γ p) (journal : Journal) :
    ({ s with journal } : Checker).Agrees Γ p :=
  ⟨h.scopes, h.bound, h.bindings, h.serials⟩

theorem lookup? (h : s.Agrees Γ p) (name : String) :
    (Check.lookup? name).exec s = (Γ.find? name, s) := by
  have hfind : s.scopes.find? name = (Γ.find? name).map Prod.fst := by
    rw [h.scopes, Env.find?_scopes]
  change ((do
    let id ← s.scopes.find? name
    let binding ← s.bindings[id]?
    return (id, binding.kind)), s) = _
  rw [hfind]
  cases hΓ : Γ.find? name with
  | none => rfl
  | some found =>
    obtain ⟨id, kind⟩ := found
    have hat := h.bound _ (Env.mem_entries_of_find? hΓ)
    simp [hat]

/-- Binding a name enters it, and finds out whether the scope had it. -/
theorem bind (h : s.Agrees Γ p) (name : Name) (kind : BindingKind) :
    ∃ s' duplicated, (Check.bind name kind).exec s = ((p.bindings, duplicated), s') ∧
      (duplicated = true ↔ Γ.Declares name.spelling) ∧
      s'.Agrees (Γ.enter name.spelling p.bindings kind) p.bind ∧ s'.journal = s.journal := by
  have hexec : (Check.bind name kind).exec s =
      ((s.bindings.size, s.scopes.declares name.spelling),
        { s with
          bindings := s.bindings.push ⟨name.spelling, kind⟩
          scopes := s.scopes.enter name.spelling s.bindings.size }) := rfl
  rw [hexec, h.bindings]
  refine ⟨_, _, rfl, ?_, ⟨?_, ?_, ?_, h.serials⟩, rfl⟩
  · rw [h.scopes]
    exact Γ.declares_scopes name.spelling
  · simp only [h.scopes, Env.scopes_enter]
  · intro entry hmem
    rcases List.mem_cons.1 hmem with rfl | hmem
    · simp [← h.bindings]
    · have hat := h.bound entry hmem
      have hlt := (Array.getElem?_eq_some_iff.1 hat).1
      rw [Array.getElem?_push_lt hlt, ← hat, Array.getElem?_eq_getElem hlt]
  · simp [Supply.bind, h.bindings]

theorem openScope (h : s.Agrees Γ p) :
    ∃ s', Check.openScope.exec s = ((), s') ∧ s'.Agrees Γ.enclose p ∧ s'.journal = s.journal := by
  refine ⟨_, rfl, ⟨?_, ?_, h.bindings, h.serials⟩, rfl⟩
  · simp only [h.scopes, Env.scopes_enclose]
  · simpa only [Env.entries_enclose] using h.bound

theorem closeScope (h : s.Agrees Γ p) :
    ∃ s', Check.closeScope.exec s = ((), s') ∧ s'.Agrees Γ.close p ∧ s'.journal = s.journal := by
  refine ⟨_, rfl, ⟨?_, ?_, h.bindings, h.serials⟩, rfl⟩
  · simp only [h.scopes, Env.scopes_close]
  · exact fun entry hmem => h.bound entry (Env.mem_entries_of_close hmem)

theorem newSerial (h : s.Agrees Γ p) (type : TypeDenoter) :
    ∃ s', Check.newSerial.exec s = (p.denoters.length, s') ∧ s'.Agrees Γ (p.add type) ∧
      s'.journal = s.journal := by
  rw [← h.serials]
  refine ⟨_, rfl, ⟨h.scopes, h.bound, h.bindings, ?_⟩, rfl⟩
  simp [Supply.add, h.serials]

theorem rebind (h : s.Agrees Γ p) (id : BindingId) (kind : BindingKind) :
    ∃ s', (Check.rebind id kind).exec s = ((), s') ∧ s'.Agrees (Γ.rebind id kind) p ∧
      s'.journal = s.journal := by
  refine ⟨_, rfl, ⟨?_, ?_, ?_, h.serials⟩, rfl⟩
  · simp only [h.scopes, Env.scopes_rebind]
  · intro entry hmem
    have hentry : ∃ e ∈ Γ.entries, (e.1, e.2.1, if e.2.1 = id then kind else e.2.2) = entry := by
      simp only [Env.entries, Env.rebind, List.mem_append, List.mem_map, List.mem_flatten] at hmem ⊢
      rcases hmem with ⟨e, he, rfl⟩ | ⟨scope, ⟨scope', hscope, rfl⟩, hmem⟩
      · exact ⟨e, .inl he, rfl⟩
      · obtain ⟨e, he, rfl⟩ := List.mem_map.1 hmem
        exact ⟨e, .inr ⟨scope', hscope, he⟩, rfl⟩
    obtain ⟨e, he, rfl⟩ := hentry
    have hat := h.bound e he
    simp only [Bindings.update, Array.getElem?_modify, hat]
    by_cases heq : e.2.1 = id
    · simp [heq]
    · simp [heq, Ne.symm heq]
  · simp [Bindings.update, h.bindings]

end Checker.Agrees

/-- The checker agrees with the environment and the supply, and has made the bindings of the
    table. -/
structure Checker.Holds (s : Checker) (Γ : Env) (p : Supply) (table : List Binding) : Prop where
  agrees : s.Agrees Γ p
  table  : s.bindings.toList = table

namespace Checker.Holds

variable {s : Checker} {Γ : Env} {p : Supply} {table : List Binding}

theorem below (h : s.Holds Γ p table) : Γ.Below p.bindings := h.agrees.below

theorem length_eq (h : s.Holds Γ p table) : table.length = p.bindings := by
  rw [← h.table, Array.length_toList, h.agrees.bindings]

end Checker.Holds

/-! ## Passing -/

namespace Check

/-- From `s` the step returns `a` without a report, and the checker after it agrees with `Γ` and
    `p` and has the table. -/
def Passes {α : Type} (m : Check α) (s : Checker) (a : α) (Γ : Env) (p : Supply)
    (table : List Binding) : Prop :=
  ∃ s', m.exec s = (a, s') ∧ s'.Holds Γ p table ∧ s'.journal = s.journal

namespace Passes

variable {α β : Type} {s : Checker} {Γ Γ' : Env} {p p' : Supply} {table table' : List Binding}

theorem pure {a : α} (h : s.Holds Γ p table) : (pure a : Check α).Passes s a Γ p table :=
  ⟨s, rfl, h, rfl⟩

theorem bind {m : Check α} {f : α → Check β} {a : α} {b : β} (hm : m.Passes s a Γ p table)
    (hf : ∀ s', s'.Holds Γ p table → (f a).Passes s' b Γ' p' table') :
    (m >>= f).Passes s b Γ' p' table' := by
  obtain ⟨s₁, hexec, hholds, hjournal⟩ := hm
  obtain ⟨s₂, hexec', hholds', hjournal'⟩ := hf s₁ hholds
  refine ⟨s₂, ?_, hholds', hjournal'.trans hjournal⟩
  rw [exec_bind, hexec]
  exact hexec'

/-- A step that leaves the bindings alone leaves the table alone. -/
theorem of_agrees {m : Check α} {a : α} (hbindings : (m.exec s).2.bindings = s.bindings)
    (h : s.Holds Γ p table)
    (hm : ∃ s', m.exec s = (a, s') ∧ s'.Agrees Γ' p' ∧ s'.journal = s.journal) :
    m.Passes s a Γ' p' table := by
  obtain ⟨s', hexec, hagrees, hjournal⟩ := hm
  refine ⟨s', hexec, ⟨hagrees, ?_⟩, hjournal⟩
  rw [hexec] at hbindings
  rw [← h.table, ← hbindings]

theorem lookup? (h : s.Holds Γ p table) (name : String) :
    (Check.lookup? name).Passes s (Γ.find? name) Γ p table :=
  ⟨s, h.agrees.lookup? name, h, rfl⟩

theorem openScope (h : s.Holds Γ p table) : Check.openScope.Passes s () Γ.enclose p table :=
  of_agrees rfl h h.agrees.openScope

theorem closeScope (h : s.Holds Γ p table) : Check.closeScope.Passes s () Γ.close p table :=
  of_agrees rfl h h.agrees.closeScope

theorem newSerial (h : s.Holds Γ p table) (type : TypeDenoter) :
    Check.newSerial.Passes s p.denoters.length Γ (p.add type) table :=
  of_agrees rfl h (h.agrees.newSerial type)

/-- Of a list, what stands behind the first part is modified in place. -/
theorem modify_length (earlier later : List Binding) (binding : Binding) (f : Binding → Binding) :
    (earlier ++ binding :: later).modify earlier.length f = earlier ++ f binding :: later := by
  induction earlier with
  | nil => rfl
  | cons first others ih => simp [ih]

/-- A binding gets its kind in place. -/
theorem rebind {id : BindingId} {spelling : String} {before kind : BindingKind}
    {earlier later : List Binding} (h : s.Holds Γ p (earlier ++ ⟨spelling, before⟩ :: later))
    (hid : earlier.length = id) :
    (Check.rebind id kind).Passes s () (Γ.rebind id kind) p
      (earlier ++ ⟨spelling, kind⟩ :: later) := by
  obtain ⟨s', hexec, hagrees, hjournal⟩ := h.agrees.rebind id kind
  refine ⟨s', hexec, ⟨hagrees, ?_⟩, hjournal⟩
  have hbindings : s'.bindings = s.bindings.update id kind :=
    (congrArg (fun result => result.2.bindings) hexec).symm
  rw [hbindings, Bindings.update, Array.toList_modify, h.table, ← hid, modify_length]

/-- The name that is declared is bound last. -/
theorem declare (h : s.Holds Γ p table) {name : Name} (hnew : ¬ Γ.Declares name.spelling)
    (cause : SemanticCause) (kind : BindingKind) :
    (Check.declare cause name kind).Passes s (name.link p.bindings, p.bindings, false)
      (Γ.enter name.spelling p.bindings kind) p.bind (table ++ [⟨name.spelling, kind⟩]) := by
  obtain ⟨s₁, duplicated, hexec, hdup, hagrees, hjournal⟩ := h.agrees.bind name kind
  have hfalse : duplicated = false := Bool.eq_false_iff.2 fun htrue => hnew (hdup.1 htrue)
  subst hfalse
  have hbindings : s₁.bindings = s.bindings.push ⟨name.spelling, kind⟩ :=
    (congrArg (fun result => result.2.bindings) hexec).symm
  refine ⟨s₁, ?_, ⟨hagrees, ?_⟩, hjournal⟩
  · rw [Check.declare, exec_bind, hexec]
    rfl
  · rw [hbindings, Array.toList_push, h.table]

/-- A report is left out where its condition fails. -/
theorem skip {c : Prop} [Decidable c] (hc : ¬ c) {m : Check PUnit} {k : PUnit → Check α} {a : α}
    (hk : (k ⟨⟩).Passes s a Γ p table) :
    (if c then m >>= k else k ⟨⟩).Passes s a Γ p table := by
  rw [if_neg hc]
  exact hk

end Passes

/-! ## Ensuring -/

/-- The step makes semantic reports alone and takes none back, and if it makes
    none from `s`, its result and the checker after it satisfy `Q`. -/
def Ensures {α : Type} (m : Check α) (s : Checker) (Q : α → Checker → Prop) : Prop :=
  s.journal.Gains .semantic (m.exec s).2.journal ∧
    ((m.exec s).2.reports = s.reports → Q (m.exec s).1 (m.exec s).2)

namespace Ensures

variable {α β : Type} {s : Checker}

theorem pure {a : α} {Q : α → Checker → Prop} (h : Q a s) : (pure a : Check α).Ensures s Q :=
  ⟨.refl _, fun _ => h⟩

/-- What the first step ensures may be used to show what the second does. The
    second step takes no report back in any case, so it is looked at from any
    checker. -/
theorem bind {m : Check α} {f : α → Check β} {Q : α → Checker → Prop}
    {R : β → Checker → Prop} (hm : m.Ensures s Q)
    (hf : ∀ a s', (f a).Ensures s' fun b s'' => Q a s' → R b s'') : (m >>= f).Ensures s R := by
  obtain ⟨hgains, hQ⟩ := hm
  obtain ⟨hgains', hR⟩ := hf (m.exec s).1 (m.exec s).2
  rw [Ensures, exec_bind]
  refine ⟨hgains.trans hgains', fun hquiet => ?_⟩
  have hle : s.reports ≤ (m.exec s).2.reports := hgains.size_le
  have hle' := hgains'.size_le
  exact hR (Nat.le_antisymm (hquiet ▸ hle) hle') (hQ (Nat.le_antisymm (hquiet ▸ hle') hle))

theorem mono {m : Check α} {Q R : α → Checker → Prop} (hm : m.Ensures s Q)
    (h : ∀ a s', Q a s' → R a s') : m.Ensures s R :=
  ⟨hm.1, fun hquiet => h _ _ (hm.2 hquiet)⟩

/-- A step that keeps the journal ensures what it does. -/
theorem of_journal {m : Check α} (h : (m.exec s).2.journal = s.journal) :
    m.Ensures s fun a s' => m.exec s = (a, s') := by
  exact ⟨.of_diagnostics (congrArg (·.diagnostics) h), fun _ => rfl⟩

theorem report (cause : SemanticCause) (token : String) (span : Span) {Q : Unit → Checker → Prop} :
    (Check.report cause token span).Ensures s Q := by
  refine ⟨.report _ rfl, fun hquiet => ?_⟩
  simp [Checker.reports] at hquiet

theorem reject (cause : SemanticCause) (name : Name) {Q : Unit → Checker → Prop} :
    (Check.reject cause name).Ensures s Q :=
  report cause name.spelling name.span

/-- Nothing follows from a run that reports. -/
theorem report_bind {cause : SemanticCause} {token : String} {span : Span} {f : Unit → Check β}
    {R : β → Checker → Prop} (hf : ∀ s', (f ()).Ensures s' fun _ _ => True) :
    (Check.report cause token span >>= f).Ensures s R :=
  (report (Q := fun _ _ => False) cause token span).bind fun _ s' =>
    (hf s').mono fun _ _ _ hfalse => hfalse.elim

theorem reject_pure {cause : SemanticCause} {name : Name} {b : β} {R : β → Checker → Prop} :
    (Check.reject cause name >>= fun _ => Pure.pure b).Ensures s R :=
  report_bind fun _ => Ensures.pure trivial

/-- Where nothing is reported, the condition of a report fails. -/
theorem skip {c : Prop} [Decidable c] {cause : SemanticCause} {token : String} {span : Span}
    {k : PUnit → Check β} {R : β → Checker → Prop}
    (hk : ∀ s', (k ⟨⟩).Ensures s' fun b s'' => ¬ c → s' = s → R b s'') :
    (if c then Check.report cause token span >>= k else k ⟨⟩).Ensures s R := by
  by_cases hc : c
  · rw [if_pos hc]
    exact report_bind fun s' => (hk s').mono fun _ _ _ => trivial
  · rw [if_neg hc]
    exact (hk s).mono fun _ _ h => h hc rfl

theorem lookup? {name : String} :
    (Check.lookup? name).Ensures s fun found s' =>
      s' = s ∧ ∀ {Γ p}, s.Agrees Γ p → found = Γ.find? name := by
  refine (of_journal rfl).mono fun found s' hexec => ?_
  have hstate : s' = s := (congrArg Prod.snd hexec).symm
  refine ⟨hstate, fun h => ?_⟩
  rw [h.lookup? name] at hexec
  exact (congrArg Prod.fst hexec).symm

theorem openScope :
    Check.openScope.Ensures s fun _ s' => ∀ {Γ p}, s.Agrees Γ p → s'.Agrees Γ.enclose p := by
  refine (of_journal rfl).mono fun _ s' hexec Γ p h => ?_
  obtain ⟨s₁, hexec', hagrees, -⟩ := h.openScope
  obtain ⟨-, rfl⟩ := Prod.mk.inj (hexec.symm.trans hexec')
  exact hagrees

theorem closeScope :
    Check.closeScope.Ensures s fun _ s' => ∀ {Γ p}, s.Agrees Γ p → s'.Agrees Γ.close p := by
  refine (of_journal rfl).mono fun _ s' hexec Γ p h => ?_
  obtain ⟨s₁, hexec', hagrees, -⟩ := h.closeScope
  obtain ⟨-, rfl⟩ := Prod.mk.inj (hexec.symm.trans hexec')
  exact hagrees

theorem newSerial :
    Check.newSerial.Ensures s fun serial s' => ∀ {Γ p} (type : TypeDenoter), s.Agrees Γ p →
      serial = p.denoters.length ∧ s'.Agrees Γ (p.add type) := by
  refine (of_journal rfl).mono fun serial s' hexec Γ p type h => ?_
  obtain ⟨s₁, hexec', hagrees, -⟩ := h.newSerial type
  obtain ⟨rfl, rfl⟩ := Prod.mk.inj (hexec.symm.trans hexec')
  exact ⟨rfl, hagrees⟩

theorem rebind {id : BindingId} {kind : BindingKind} :
    (Check.rebind id kind).Ensures s fun _ s' =>
      ∀ {Γ p}, s.Agrees Γ p → s'.Agrees (Γ.rebind id kind) p := by
  refine (of_journal rfl).mono fun _ s' hexec Γ p h => ?_
  obtain ⟨s₁, hexec', hagrees, -⟩ := h.rebind id kind
  obtain ⟨-, rfl⟩ := Prod.mk.inj (hexec.symm.trans hexec')
  exact hagrees

theorem bind_name {name : Name} {kind : BindingKind} :
    (Check.bind name kind).Ensures s fun result s' => ∀ {Γ p}, s.Agrees Γ p →
      result.1 = p.bindings ∧ (result.2 = true ↔ Γ.Declares name.spelling) ∧
        s'.Agrees (Γ.enter name.spelling p.bindings kind) p.bind := by
  refine (of_journal rfl).mono fun result s' hexec Γ p h => ?_
  obtain ⟨s₁, duplicated, hexec', hdup, hagrees, -⟩ := h.bind name kind
  obtain ⟨rfl, rfl⟩ := Prod.mk.inj (hexec.symm.trans hexec')
  exact ⟨rfl, hdup, hagrees⟩

theorem declare {cause : SemanticCause} {name : Name} {kind : BindingKind} :
    (Check.declare cause name kind).Ensures s fun result s' => ∀ {Γ p}, s.Agrees Γ p →
      ¬ Γ.Declares name.spelling ∧ result = (name.link p.bindings, p.bindings, false) ∧
        s'.Agrees (Γ.enter name.spelling p.bindings kind) p.bind := by
  rw [Check.declare]
  refine bind_name.bind fun (id, duplicated) s₁ => ?_
  refine skip fun s₂ => Ensures.pure ?_
  rintro hdup rfl hbind Γ p h
  obtain ⟨rfl, hiff, hagrees⟩ := hbind h
  have hfalse : duplicated = false := Bool.eq_false_iff.2 hdup
  subst hfalse
  exact ⟨fun hdecl => Bool.false_ne_true (hiff.2 hdecl), rfl, hagrees⟩

end Ensures

end Check

end TriangleTam
