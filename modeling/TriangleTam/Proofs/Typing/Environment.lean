import TriangleTam.Proofs.Typing.Denoter
import TriangleTam.Standard
import TriangleTam.Tree

/-! # Lexical environments

  An **environment** says what the names at a point of a program stand for: a
  stack of scopes, each with the names bound in it, their bindings and what
  these are. A name stands for the binding that the innermost scope with the
  name gives it.

  Bindings and denoters are numbered in the order in which they are made. The
  **supply** is what was made so far.
-/

namespace TriangleTam

/-- A name with its binding. -/
abbrev Env.Entry := String × BindingId × BindingKind

/-- The names at a point of a program, by scope. -/
structure Env where
  innermost : List Env.Entry
  /-- The scopes around it, from the inside out. -/
  outer     : List (List Env.Entry)

namespace Env

/-- The binding that lexical scoping gives a name. -/
def find? (Γ : Env) (name : String) : Option (BindingId × BindingKind) :=
  (Γ.innermost :: Γ.outer).findSome? fun scope => scope.lookup name

/-- The innermost scope binds the name. -/
def Declares (Γ : Env) (name : String) : Prop := ∃ entry ∈ Γ.innermost, entry.1 = name

/-- The environment after a name was bound in the innermost scope. -/
def enter (Γ : Env) (name : String) (id : BindingId) (kind : BindingKind) : Env :=
  { Γ with innermost := (name, id, kind) :: Γ.innermost }

/-- The environment inside a new scope. -/
def enclose (Γ : Env) : Env := ⟨[], Γ.innermost :: Γ.outer⟩

/-- The environment outside of the innermost scope. -/
def close (Γ : Env) : Env :=
  match Γ.outer with
  | [] => Γ
  | scope :: others => ⟨scope, others⟩

/-- All entries, those of the innermost scope first. -/
def entries (Γ : Env) : List Entry := Γ.innermost ++ Γ.outer.flatten

/-- Every type that an entry is about satisfies `P`. -/
def TypesIn (P : TypeDenoter → Prop) (Γ : Env) : Prop :=
  ∀ entry ∈ Γ.entries, entry.2.2.TypesIn P

/-- Every type that a type identifier stands for satisfies `P`. -/
def NamesIn (P : TypeDenoter → Prop) (Γ : Env) : Prop :=
  ∀ entry ∈ Γ.entries, ∀ type, entry.2.2 = .type type → P type

/-- All bindings in the environment have numbers below `n`. -/
def Below (n : Nat) (Γ : Env) : Prop := ∀ entry ∈ Γ.entries, entry.2.1 < n

/-- The names of the standard environment. -/
def standard : Env :=
  ⟨(Standard.declarations.zipIdx.map fun (declaration, id) =>
      (declaration.name, id, declaration.shape.kind)).reverse, []⟩

/-! ## Entries -/

theorem mem_of_lookup {scope : List Entry} {name : String} {found : BindingId × BindingKind}
    (h : scope.lookup name = some found) : (name, found) ∈ scope := by
  induction scope with
  | nil => cases h
  | cons entry others ih =>
    obtain ⟨name', found'⟩ := entry
    rw [List.lookup_cons] at h
    split at h
    · next heq =>
      rw [eq_of_beq heq, Option.some.inj h]
      exact List.mem_cons_self
    · exact List.mem_cons_of_mem _ (ih h)

/-- What a name stands for is one of the entries. -/
theorem mem_entries_of_find? {Γ : Env} {name : String} {id : BindingId} {kind : BindingKind}
    (h : Γ.find? name = some (id, kind)) : (name, id, kind) ∈ Γ.entries := by
  obtain ⟨scope, hscope, hlookup⟩ := List.exists_of_findSome?_eq_some h
  have hmem := mem_of_lookup hlookup
  simp only [entries, List.mem_append, List.mem_flatten]
  rcases List.mem_cons.1 hscope with rfl | houter
  · exact .inl hmem
  · exact .inr ⟨scope, houter, hmem⟩

@[simp] theorem entries_enter (Γ : Env) (name : String) (id : BindingId) (kind : BindingKind) :
    (Γ.enter name id kind).entries = (name, id, kind) :: Γ.entries := rfl

@[simp] theorem entries_enclose (Γ : Env) : Γ.enclose.entries = Γ.entries := by
  simp [enclose, entries]

@[simp] theorem close_enclose (Γ : Env) : Γ.enclose.close = Γ := rfl

@[simp] theorem outer_enter (Γ : Env) (name : String) (id : BindingId) (kind : BindingKind) :
    (Γ.enter name id kind).outer = Γ.outer := rfl

/-- Closing forgets the entries of one scope. -/
theorem mem_entries_of_close {Γ : Env} {entry : Entry} (h : entry ∈ Γ.close.entries) :
    entry ∈ Γ.entries := by
  unfold close at h
  split at h
  · exact h
  · next scope others heq =>
    simp only [entries, heq, List.flatten_cons]
    exact List.mem_append_right _ h

/-- Where the same scopes lie outside, the same scopes are left after closing. -/
theorem close_eq_of_outer {Γ Γ' : Env} (h : Γ'.outer = Γ.enclose.outer) : Γ'.close = Γ := by
  unfold close
  rw [h]
  rfl

/-! ## Types -/

theorem TypesIn.mono {P Q : TypeDenoter → Prop} {Γ : Env} (h : Γ.TypesIn P)
    (hPQ : ∀ type, P type → Q type) : Γ.TypesIn Q :=
  fun entry hmem => (h entry hmem).mono hPQ

theorem TypesIn.enter {P : TypeDenoter → Prop} {Γ : Env} (h : Γ.TypesIn P) {name : String}
    {id : BindingId} {kind : BindingKind} (hkind : kind.TypesIn P) :
    (Γ.enter name id kind).TypesIn P := by
  intro entry hmem
  rcases List.mem_cons.1 hmem with rfl | hmem
  · exact hkind
  · exact h entry hmem

theorem TypesIn.enter_proc {P : TypeDenoter → Prop} {Γ : Env} (h : Γ.TypesIn P) {name : String}
    {id : BindingId} {shapes : Signature} (hshapes : Signature.TypesIn P shapes) :
    (Γ.enter name id (.proc shapes)).TypesIn P := by
  have hkind : (BindingKind.proc shapes).TypesIn P := hshapes
  exact h.enter hkind

theorem TypesIn.enter_func {P : TypeDenoter → Prop} {Γ : Env} (h : Γ.TypesIn P) {name : String}
    {id : BindingId} {shapes : Signature} {result : TypeDenoter}
    (hshapes : Signature.TypesIn P shapes) (hresult : P result) :
    (Γ.enter name id (.func shapes result)).TypesIn P := by
  have hkind : (BindingKind.func shapes result).TypesIn P := ⟨hshapes, hresult⟩
  exact h.enter hkind

theorem TypesIn.enclose {P : TypeDenoter → Prop} {Γ : Env} (h : Γ.TypesIn P) :
    Γ.enclose.TypesIn P := by
  simpa only [TypesIn, entries_enclose] using h

theorem TypesIn.find? {P : TypeDenoter → Prop} {Γ : Env} (h : Γ.TypesIn P) {name : String}
    {id : BindingId} {kind : BindingKind} (hfind : Γ.find? name = some (id, kind)) :
    kind.TypesIn P :=
  h _ (mem_entries_of_find? hfind)

theorem TypesIn.names {P : TypeDenoter → Prop} {Γ : Env} (h : Γ.TypesIn P) : Γ.NamesIn P := by
  intro entry hmem type heq
  have hkind := h entry hmem
  rwa [heq] at hkind

theorem NamesIn.mono {P Q : TypeDenoter → Prop} {Γ : Env} (h : Γ.NamesIn P)
    (hPQ : ∀ type, P type → Q type) : Γ.NamesIn Q :=
  fun entry hmem type heq => hPQ type (h entry hmem type heq)

theorem NamesIn.enter {P : TypeDenoter → Prop} {Γ : Env} (h : Γ.NamesIn P) {name : String}
    {id : BindingId} {kind : BindingKind} (hkind : ∀ type, kind = .type type → P type) :
    (Γ.enter name id kind).NamesIn P := by
  intro entry hmem type heq
  rcases List.mem_cons.1 hmem with rfl | hmem
  · exact hkind type heq
  · exact h entry hmem type heq

theorem NamesIn.enclose {P : TypeDenoter → Prop} {Γ : Env} (h : Γ.NamesIn P) :
    Γ.enclose.NamesIn P := by
  simpa only [NamesIn, entries_enclose] using h

/-! ## Numbers -/

theorem Below.mono {Γ : Env} {n m : Nat} (h : Γ.Below n) (hle : n ≤ m) : Γ.Below m :=
  fun entry hmem => Nat.lt_of_lt_of_le (h entry hmem) hle

theorem Below.enter {Γ : Env} {n m : Nat} (h : Γ.Below n) {id : BindingId} (hid : id < m)
    (hle : n ≤ m) {name : String} {kind : BindingKind} : (Γ.enter name id kind).Below m := by
  intro entry hmem
  rcases List.mem_cons.1 hmem with rfl | hmem
  · exact hid
  · exact h.mono hle entry hmem

theorem Below.enclose {Γ : Env} {n : Nat} (h : Γ.Below n) : Γ.enclose.Below n := by
  simpa only [Below, entries_enclose] using h

/-! ## The standard environment -/

theorem standard_below : standard.Below Standard.bindings.size := by
  have h : ∀ entry ∈ standard.entries, entry.2.1 < Standard.bindings.size := by decide
  exact h

/-- Standard declarations are about scalars alone. -/
theorem standard_typesIn {made : List TypeDenoter} :
    standard.TypesIn (TypeDenoter.Known made) := by
  intro entry hmem
  simp only [standard, entries, List.flatten_nil, List.append_nil, List.mem_reverse] at hmem
  revert entry
  simp [Standard.declarations, Standard.Shape.kind, BindingKind.TypesIn, Standard.Scalar.denoter,
    TypeDenoter.Known, Signature.TypesIn, FormalShape.TypesIn, Standard.Parameter.shape]

end Env

/-! ## Supplies -/

/-- What was made so far. -/
structure Supply where
  /-- How many bindings. -/
  bindings : Nat
  /-- The array and record denoters. The number of a denoter is its place. -/
  denoters : List TypeDenoter

namespace Supply

/-- The supply after one more binding. -/
def bind (s : Supply) : Supply := { s with bindings := s.bindings + 1 }

/-- The supply after one more denoter. -/
def add (s : Supply) (type : TypeDenoter) : Supply := { s with denoters := s.denoters ++ [type] }

/-- What was made stays made. -/
structure Before (s s' : Supply) : Prop where
  bindings : s.bindings ≤ s'.bindings
  denoters : s.denoters <+: s'.denoters

namespace Before

theorem refl (s : Supply) : s.Before s := ⟨Nat.le_refl _, List.prefix_refl _⟩

theorem trans {s s' s'' : Supply} (h : s.Before s') (h' : s'.Before s'') : s.Before s'' :=
  ⟨Nat.le_trans h.bindings h'.bindings, h.denoters.trans h'.denoters⟩

theorem bind {s s' : Supply} (h : s.Before s') : s.Before s'.bind :=
  ⟨Nat.le_succ_of_le h.bindings, h.denoters⟩

theorem add {s s' : Supply} (h : s.Before s') (type : TypeDenoter) : s.Before (s'.add type) :=
  ⟨h.bindings, h.denoters.trans (List.prefix_append _ _)⟩

end Before

end Supply

/-- The name at its place, linked to a binding. -/
def Name.link (name : Name) (id : BindingId) : Name := { name with binding := some id }

end TriangleTam
