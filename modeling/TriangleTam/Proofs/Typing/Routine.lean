import TriangleTam.Proofs.Typing.Steps
import TriangleTam.Proofs.Typing.Known

/-! # Environments of derivations

  What a derivation does to the environment it starts from: it binds names in
  the innermost scope, and only to new bindings.

  A routine is in the environment of its own parameters, before its signature
  is known. Parameters refer to type identifiers alone, so that a derivation
  for them stays one when a routine gets another signature.
-/

namespace TriangleTam

/-! ## Scopes -/

theorem Formal.Typed.outer_eq {Γ Γ' : Env} {s s' : Supply} {formal formal' : Formal}
    {shape : FormalShape} (h : Formal.Typed Γ s formal formal' shape Γ' s') :
    Γ'.outer = Γ.outer := by
  cases h <;> rfl

mutual

theorem Formals.Typed.outer_eq {Γ Γ' : Env} {s s' : Supply} {formals formals' : Formals}
    {shapes : Signature} : Formals.Typed Γ s formals formals' shapes Γ' s' → Γ'.outer = Γ.outer
  | .empty => rfl
  | .one hfirst => hfirst.outer_eq
  | .more hfirst hrest => hrest.outer_eq.trans hfirst.outer_eq

theorem Declaration.Typed.outer_eq {Γ Γ' : Env} {s s' : Supply}
    {declaration declaration' : Declaration} :
    Declaration.Typed Γ s declaration declaration' Γ' s' → Γ'.outer = Γ.outer
  | .const .. | .var .. | .proc .. | .func .. | .type .. => rfl
  | .sequence hfirst hsecond => hsecond.outer_eq.trans hfirst.outer_eq

end

/-- Closing the scope of the parameters leads back to the environment of the routine. -/
theorem Formals.Typed.close_eq {Γ Γ' : Env} {s s' : Supply} {formals formals' : Formals}
    {shapes : Signature} (h : Formals.Typed Γ.enclose s formals formals' shapes Γ' s') :
    Γ'.close = Γ :=
  Env.close_eq_of_outer h.outer_eq

/-- Closing the scope of a declaration leads back to the environment around it. -/
theorem Declaration.Typed.close_eq {Γ Γ' : Env} {s s' : Supply}
    {declaration declaration' : Declaration}
    (h : Declaration.Typed Γ.enclose s declaration declaration' Γ' s') : Γ'.close = Γ :=
  Env.close_eq_of_outer h.outer_eq

/-! ## Rebinding -/

namespace Env

/-- Wherever the binding is in the environment, it is of the kind. -/
def Binds (id : BindingId) (kind : BindingKind) (Γ : Env) : Prop :=
  ∀ entry ∈ Γ.entries, entry.2.1 = id → entry.2.2 = kind

@[simp] theorem rebind_enclose (Γ : Env) (id : BindingId) (kind : BindingKind) :
    Γ.enclose.rebind id kind = (Γ.rebind id kind).enclose := rfl

theorem rebind_enter_of_ne {Γ : Env} {id id' : BindingId} (hne : id' ≠ id) (name : String)
    (kind kind' : BindingKind) :
    (Γ.enter name id' kind').rebind id kind = (Γ.rebind id kind).enter name id' kind' := by
  simp [rebind, enter, hne]

/-- A binding keeps the kind it has. -/
theorem Binds.rebind_eq {Γ : Env} {id : BindingId} {kind : BindingKind} (h : Γ.Binds id kind) :
    Γ.rebind id kind = Γ := by
  have hsame (scope : List Entry) (hscope : ∀ entry ∈ scope, entry ∈ Γ.entries) :
      scope.map (fun e => (e.1, e.2.1, if e.2.1 = id then kind else e.2.2)) = scope := by
    refine (List.map_congr_left fun entry hmem => ?_).trans (List.map_id' scope)
    by_cases heq : entry.2.1 = id
    · rw [if_pos heq, ← h entry (hscope entry hmem) heq]
    · rw [if_neg heq]
  have hinner := hsame Γ.innermost fun entry hmem => List.mem_append_left _ hmem
  have houter : Γ.outer.map (List.map fun e =>
      (e.1, e.2.1, if e.2.1 = id then kind else e.2.2)) = Γ.outer := by
    refine (List.map_congr_left fun scope hmem => ?_).trans (List.map_id' Γ.outer)
    refine hsame scope fun entry hentry => List.mem_append_right _ ?_
    exact List.mem_flatten.2 ⟨scope, hmem, hentry⟩
  simp only [rebind, hinner, houter]

theorem Below.binds {Γ : Env} {id : BindingId} (h : Γ.Below id) (kind : BindingKind) :
    Γ.Binds id kind :=
  fun entry hmem heq => absurd heq (Nat.ne_of_lt (h entry hmem))

/-- Where the binding was the newest, only its own entry changes. -/
theorem rebind_enter {Γ : Env} {id : BindingId} (h : Γ.Below id) (name : String)
    (kind kind' : BindingKind) :
    (Γ.enter name id kind').rebind id kind = Γ.enter name id kind := by
  have hΓ := (h.binds kind).rebind_eq
  have henter : (Γ.enter name id kind').rebind id kind =
      (Γ.rebind id kind).enter name id kind := by
    simp [rebind, enter]
  rw [henter, hΓ]

/-- The last kind given to a binding counts. -/
theorem rebind_rebind (Γ : Env) (id : BindingId) (kind kind' : BindingKind) :
    (Γ.rebind id kind).rebind id kind' = Γ.rebind id kind' := by
  have hentry : (fun e : Entry => (e.1, e.2.1, if e.2.1 = id then kind' else e.2.2)) ∘
      (fun e : Entry => (e.1, e.2.1, if e.2.1 = id then kind else e.2.2)) =
      fun e : Entry => (e.1, e.2.1, if e.2.1 = id then kind' else e.2.2) := by
    funext e
    by_cases heq : e.2.1 = id
    · simp [heq]
    · simp [heq]
  have hscope (scope : List Entry) := congrArg (fun f => scope.map f) hentry
  simp only [← List.map_map] at hscope
  simp only [rebind, hscope, List.map_map, Function.comp_def]

theorem find?_rebind (Γ : Env) (id : BindingId) (kind : BindingKind) (name : String) :
    (Γ.rebind id kind).find? name =
      (Γ.find? name).map fun found => (found.1, if found.1 = id then kind else found.2) := by
  have hlookup (scope : List Entry) :
      (scope.map fun e => (e.1, e.2.1, if e.2.1 = id then kind else e.2.2)).lookup name =
        (scope.lookup name).map
          fun found => (found.1, if found.1 = id then kind else found.2) := by
    induction scope with
    | nil => rfl
    | cons entry others ih =>
      obtain ⟨name', id', kind'⟩ := entry
      simp only [List.map_cons, List.lookup_cons]
      split
      · rfl
      · exact ih
  have hscopes (scopes : List (List Entry)) :
      (scopes.map (List.map fun e => (e.1, e.2.1, if e.2.1 = id then kind else e.2.2))).findSome?
        (fun scope => scope.lookup name) =
      (scopes.findSome? fun scope => scope.lookup name).map
        fun found => (found.1, if found.1 = id then kind else found.2) := by
    induction scopes with
    | nil => rfl
    | cons scope others ih =>
      simp only [List.map_cons, List.findSome?_cons, hlookup]
      cases scope.lookup name with
      | none => exact ih
      | some found => rfl
  exact hscopes (Γ.innermost :: Γ.outer)

theorem declares_rebind (Γ : Env) (id : BindingId) (kind : BindingKind) (name : String) :
    (Γ.rebind id kind).Declares name ↔ Γ.Declares name := by
  rw [← declares_scopes, ← declares_scopes, scopes_rebind]

theorem Binds.enclose {id : BindingId} {kind : BindingKind} {Γ : Env} (h : Γ.Binds id kind) :
    Γ.enclose.Binds id kind := by
  simpa only [Binds, entries_enclose] using h

theorem Binds.enter {id id' : BindingId} {kind : BindingKind} {Γ : Env} (h : Γ.Binds id kind)
    (hne : id' ≠ id) (name : String) (kind' : BindingKind) :
    (Γ.enter name id' kind').Binds id kind := by
  intro entry hmem heq
  rcases List.mem_cons.1 hmem with rfl | hmem
  · exact absurd heq hne
  · exact h entry hmem heq

end Env

section rebind

variable {id : BindingId} {before after : BindingKind} (hbefore : ∀ type, before ≠ .type type)

include hbefore

-- each theorem of a block needs it for its calls of the others
set_option linter.unusedSectionVars false

mutual

theorem TypeDenoter.Typed.rebind {Γ : Env} {s s' : Supply} {type type' : TypeDenoter}
    (hΓ : Γ.Binds id before) :
    TypeDenoter.Typed Γ s type type' s' → TypeDenoter.Typed (Γ.rebind id after) s type type' s'
  | .boolean => .boolean
  | .character => .character
  | .integer => .integer
  | .named hfind => by
    apply TypeDenoter.Typed.named
    rw [Env.find?_rebind, hfind]
    have hne := fun heq => hbefore _ (hΓ _ (Env.mem_entries_of_find? hfind) heq).symm
    rw [Option.map_some, if_neg hne]
  | .array hlength helement => .array hlength (helement.rebind hΓ)
  | .record hfields => .record (hfields.rebind hΓ)

theorem Fields.Typed.rebind {Γ : Env} {s s' : Supply} {fields fields' : Fields}
    (hΓ : Γ.Binds id before) :
    Fields.Typed Γ s fields fields' s' → Fields.Typed (Γ.rebind id after) s fields fields' s'
  | .one htype => .one (htype.rebind hΓ)
  | .more htype hrest => .more (htype.rebind hΓ) (hrest.rebind hΓ)

end

mutual

theorem Formal.Typed.rebind {Γ Γ' : Env} {s s' : Supply} {formal formal' : Formal}
    {shape : FormalShape} (hΓ : Γ.Binds id before) (hid : id < s.bindings) :
    Formal.Typed Γ s formal formal' shape Γ' s' →
      Formal.Typed (Γ.rebind id after) s formal formal' shape (Γ'.rebind id after) s' ∧
        Γ'.Binds id before
  | .const htype hnew => by
    have hne := Nat.ne_of_gt (Nat.lt_of_lt_of_le hid htype.before.bindings)
    rw [Env.rebind_enter_of_ne hne]
    have hnew' := mt (Γ.declares_rebind id after _).1 hnew
    exact ⟨.const (htype.rebind hbefore hΓ) hnew', hΓ.enter hne _ _⟩
  | .var htype hnew => by
    have hne := Nat.ne_of_gt (Nat.lt_of_lt_of_le hid htype.before.bindings)
    rw [Env.rebind_enter_of_ne hne]
    have hnew' := mt (Γ.declares_rebind id after _).1 hnew
    exact ⟨.var (htype.rebind hbefore hΓ) hnew', hΓ.enter hne _ _⟩
  | .proc hinner hnew => by
    have hne := Nat.ne_of_gt (Nat.lt_of_lt_of_le hid hinner.before.bindings)
    rw [Env.rebind_enter_of_ne hne]
    have hinner' := (hinner.rebind hΓ.enclose hid).1
    exact ⟨.proc hinner' (mt (Γ.declares_rebind id after _).1 hnew), hΓ.enter hne _ _⟩
  | .func hresult hinner hnew => by
    have hid' := Nat.lt_of_lt_of_le hid hresult.before.bindings
    have hne := Nat.ne_of_gt (Nat.lt_of_lt_of_le hid' hinner.before.bindings)
    rw [Env.rebind_enter_of_ne hne]
    have hinner' := (hinner.rebind hΓ.enclose hid').1
    exact ⟨.func (hresult.rebind hbefore hΓ) hinner' (mt (Γ.declares_rebind id after _).1 hnew),
      hΓ.enter hne _ _⟩

theorem Formals.Typed.rebind {Γ Γ' : Env} {s s' : Supply} {formals formals' : Formals}
    {shapes : Signature} (hΓ : Γ.Binds id before) (hid : id < s.bindings) :
    Formals.Typed Γ s formals formals' shapes Γ' s' →
      Formals.Typed (Γ.rebind id after) s formals formals' shapes (Γ'.rebind id after) s' ∧
        Γ'.Binds id before
  | .empty => ⟨.empty, hΓ⟩
  | .one hfirst => by
    obtain ⟨hfirst', hΓ'⟩ := hfirst.rebind hΓ hid
    exact ⟨.one hfirst', hΓ'⟩
  | .more hfirst hrest => by
    obtain ⟨hfirst', hΓ'⟩ := hfirst.rebind hΓ hid
    obtain ⟨hrest', hΓ''⟩ := hrest.rebind hΓ' (Nat.lt_of_lt_of_le hid hfirst.before.bindings)
    exact ⟨.more hfirst' hrest', hΓ''⟩

end

end rebind

/-- Parameters that fit the rules where the routine has one signature fit them where it has
    another, and nothing else changes with it. -/
theorem Formals.Typed.rebind_routine {Γ Γ' : Env} {s s' : Supply} {name : String}
    {before : BindingKind} {formals formals' : Formals} {shapes : Signature}
    (h : Formals.Typed (Γ.enter name s.bindings before).enclose s.bind formals formals' shapes
      Γ' s') (hΓ : Γ.Below s.bindings) (after : BindingKind)
    (hbefore : ∀ type, before ≠ .type type) :
    Formals.Typed (Γ.enter name s.bindings after).enclose s.bind formals formals' shapes
        (Γ'.rebind s.bindings after) s' ∧
      (Γ'.rebind s.bindings after).rebind s.bindings before = Γ' := by
  have hbinds : (Γ.enter name s.bindings before).Binds s.bindings before := by
    intro entry hmem heq
    rcases List.mem_cons.1 hmem with rfl | hmem
    · rfl
    · exact hΓ.binds before entry hmem heq
  obtain ⟨hformals, hΓ'⟩ := h.rebind hbefore hbinds.enclose (Nat.lt_succ_self _)
  rw [← Env.rebind_enter hΓ name after before, ← Env.rebind_enclose, Env.rebind_rebind]
  exact ⟨hformals, hΓ'.rebind_eq⟩

end TriangleTam
