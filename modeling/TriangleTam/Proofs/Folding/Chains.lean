import Mathlib.Data.List.Induction
import Mathlib.Order.Bounds.Defs
import TriangleTam.Proofs.Folding.Operations

/-! # Chains of operations on literals

  Operators have one precedence and associate to the left, so that a sequence
  of operations is a **chain**: each operation is the left operand of the next.
  Folding a chain of operations on literals evaluates it from the left. It
  gets as far as the values are defined and in the range of the machine, and
  leaves the rest of the chain as it was.
-/

namespace TriangleTam

namespace Arithmetic

/-- An integer literal as it is written, and the word it stands for. -/
structure Literal where
  spelling : String
  value    : Int
  word     : Numeral.toWord? spelling = some value

/-- An arithmetic operator as it is written, and the literal on its right. -/
structure Operation where
  operator : String
  listed   : operator ∈ ["+", "-", "*", "/", "//"]
  literal  : Literal

/-- The operations on `a`, one after the other, have the value `b`. All their results are defined
    and in the range of the machine. The value that they start from need not be. -/
inductive LeftToRight : Int → List Operation → Int → Prop
  | done (a : Int) : LeftToRight a [] a
  | step {a b c : Int} {operation : Operation} {others : List Operation}
      (computes : Arithmetic operation.operator a operation.literal.value b)
      (range : Machine.InRange b) (behind : LeftToRight b others c) :
      LeftToRight a (operation :: others) c

namespace LeftToRight

variable {a b : Int} {operations : List Operation} {operation : Operation}

/-- The last operation is on the value of those before it. -/
theorem concat_iff : LeftToRight a (operations ++ [operation]) b ↔
    ∃ c, LeftToRight a operations c ∧
      Arithmetic operation.operator c operation.literal.value b ∧ Machine.InRange b := by
  induction operations generalizing a with
  | nil =>
    constructor
    · intro h
      cases h with
      | step computes range behind =>
        cases behind
        exact ⟨a, .done a, computes, range⟩
    · intro h
      obtain ⟨c, hdone, computes, range⟩ := h
      cases hdone
      exact .step computes range (.done b)
  | cons first others ih =>
    constructor
    · intro h
      cases h with
      | step computes range behind =>
        obtain ⟨c, hothers, hlast⟩ := ih.1 behind
        exact ⟨c, .step computes range hothers, hlast⟩
    · intro h
      obtain ⟨c, hothers, hlast⟩ := h
      cases hothers with
      | step computes range behind => exact .step computes range (ih.2 ⟨c, behind, hlast⟩)

/-- Operations have one value at most. -/
theorem unique {c : Int} (h : LeftToRight a operations b) (h' : LeftToRight a operations c) :
    b = c := by
  induction h with
  | done a =>
    cases h'
    rfl
  | step computes range behind ih =>
    cases h' with
    | step computes' range' behind' =>
      rw [← computes.unique computes'] at behind'
      exact ih behind'

/-- Fewer operations have a value too. -/
theorem take (h : LeftToRight a operations b) (k : Nat) :
    ∃ c, LeftToRight a (operations.take k) c := by
  induction h generalizing k with
  | done a => exact ⟨a, by rw [List.take_nil]; exact .done a⟩
  | @step a b c operation others computes range behind ih =>
    cases k with
    | zero => exact ⟨a, .done a⟩
    | succ k =>
      obtain ⟨c', hothers⟩ := ih k
      exact ⟨c', .step computes range hothers⟩

/-- What operations have come to is in the range of the machine. -/
theorem inRange (h : LeftToRight a operations b) (hsome : operations ≠ []) :
    Machine.InRange b := by
  obtain ⟨others, last, rfl⟩ := (List.eq_nil_or_concat' operations).resolve_left hsome
  obtain ⟨-, -, -, range⟩ := concat_iff.1 h
  exact range

end LeftToRight

/-- As many operations as have values, one after the other, are `m`, and they have the value
    `v`. -/
structure Reaches (a : Int) (operations : List Operation) (m : Nat) (v : Int) : Prop where
  within : m ≤ operations.length
  value  : LeftToRight a (operations.take m) v
  stuck  : m < operations.length → ¬ ∃ v', LeftToRight a (operations.take (m + 1)) v'

namespace Reaches

variable {a v w : Int} {operations : List Operation} {operation : Operation} {m : Nat}

/-- One operation more is not reached, or it has no value. -/
theorem stay (h : Reaches a operations m v)
    (hnone : m = operations.length → ¬ ∃ w,
      Arithmetic operation.operator v operation.literal.value w ∧ Machine.InRange w) :
    Reaches a (operations ++ [operation]) m v where
  within := by
    rw [List.length_append]
    exact Nat.le_add_right_of_le h.within
  value := by
    rw [List.take_append_of_le_length h.within]
    exact h.value
  stuck := by
    intro _ hmore
    rcases Nat.lt_or_eq_of_le h.within with hless | heq
    · rw [List.take_append_of_le_length hless] at hmore
      exact h.stuck hless hmore
    · obtain ⟨w, hmore⟩ := hmore
      rw [heq, List.take_of_length_le (by simp)] at hmore
      obtain ⟨c, hbefore, hvalue⟩ := LeftToRight.concat_iff.1 hmore
      have hall := h.value
      rw [heq, List.take_length] at hall
      obtain rfl := hall.unique hbefore
      exact hnone heq ⟨w, hvalue⟩

/-- One operation more is reached. -/
theorem go (h : Reaches a operations operations.length v)
    (hcomputes : Arithmetic operation.operator v operation.literal.value w)
    (hrange : Machine.InRange w) :
    Reaches a (operations ++ [operation]) (operations.length + 1) w where
  within := by simp
  value := by
    have hall := h.value
    rw [List.take_length] at hall
    rw [List.take_of_length_le (by simp)]
    exact LeftToRight.concat_iff.2 ⟨v, hall, hcomputes, hrange⟩
  stuck := by
    intro hless
    rw [List.length_append] at hless
    exact absurd hless (Nat.lt_irrefl _)

/-- No more operations have values one after the other. -/
theorem isGreatest (h : Reaches a operations m v) :
    IsGreatest {k | k ≤ operations.length ∧ ∃ v, LeftToRight a (operations.take k) v} m := by
  refine ⟨⟨h.within, v, h.value⟩, fun k hk => ?_⟩
  obtain ⟨hwithin, w, hvalue⟩ := hk
  by_contra hbeyond
  -- with more operations, the next one would have a value
  have hnext := hvalue.take (m + 1)
  rw [List.take_take, Nat.min_eq_left (Nat.lt_of_not_le hbeyond)] at hnext
  exact h.stuck (by omega) hnext

end Reaches

end Arithmetic

/-! ## Chains in a tree -/

namespace Expression

/-- An operation of a tree, without its left operand. -/
structure Step where
  span     : Span
  type     : Option TypeDenoter
  operator : Name
  right    : Expression

/-- Operations one after the other, each with those before it as its left operand. -/
def chain (first : Expression) (steps : List Step) : Expression :=
  steps.foldl (fun left step => .binary step.span step.type left step.operator step.right) first

theorem chain_concat (first : Expression) (steps : List Step) (step : Step) :
    first.chain (steps ++ [step]) =
      .binary step.span step.type (first.chain steps) step.operator step.right := by
  unfold chain
  rw [List.foldl_append]
  rfl

/-- A chain with an operation in it is no literal. -/
theorem integerValue?_chain (first : Expression) {steps : List Step} (h : steps ≠ []) :
    (first.chain steps).integerValue? = none := by
  obtain ⟨others, last, rfl⟩ := (List.eq_nil_or_concat' steps).resolve_left h
  rw [chain_concat]
  rfl

/-- The step is the operation, with the operator bound to its standard declaration. -/
structure Step.Links (step : Step) (operation : Arithmetic.Operation) : Prop where
  spelling : step.operator.spelling = operation.operator
  standard : ∃ id declaration, step.operator.binding = some id ∧
    Standard.declaration? id = some declaration ∧ declaration.name = operation.operator
  right    : ∃ span type literal, step.right = .integer span type literal ∧
    literal.spelling = operation.literal.spelling

end Expression

/-! ## Folding a chain -/

namespace Fold

open Arithmetic Expression

theorem integerValue?_literal {value : Int} (h : Machine.InRange value) (span : Span) :
    (literal span value).integerValue? = some value :=
  congrArg some (IntegerLiteral.value_ofInt h.fits span)

/-- The value that folding finds for a step is that of the operation. -/
theorem value?_step {left : Expression} {step : Step} {operation : Operation}
    (h : step.Links operation) {value : Int} :
    value? left step.operator step.right = some value ↔
      ∃ a, left.integerValue? = some a ∧
        Arithmetic operation.operator a operation.literal.value value ∧
        Machine.InRange value := by
  obtain ⟨-, ⟨id, declaration, hbinding, hat, hname⟩, span, type, literal, hright, hspelling⟩ := h
  have hvalue : step.right.integerValue? = some operation.literal.value := by
    rw [hright, integerValue?, IntegerLiteral.value, hspelling, operation.literal.word]
    rfl
  rw [value?_eq_some_iff, ← hname]
  constructor
  · intro hfound
    obtain ⟨a, b, id', declaration', hleft, hright', hbinding', hat', hcomputes, hrange⟩ := hfound
    obtain rfl := Option.some.inj (hvalue.symm.trans hright')
    obtain rfl := Option.some.inj (hbinding.symm.trans hbinding')
    obtain rfl := Option.some.inj (hat.symm.trans hat')
    exact ⟨a, hleft, hcomputes, hrange⟩
  · intro hfound
    obtain ⟨a, hleft, hcomputes, hrange⟩ := hfound
    exact ⟨a, _, id, declaration, hleft, hvalue, hbinding, hat, hcomputes, hrange⟩

/-- To fold a chain is to fold all but its last step, and then that step. -/
theorem expression_concat {first left : Expression} {steps : List Step} {step : Step}
    {operation : Operation} (h : step.Links operation) {n n' : Nat}
    (hleft : (expression (first.chain steps)).run n = (left, n')) :
    (expression (first.chain (steps ++ [step]))).run n =
      match value? left step.operator step.right with
      | some value => (literal left.span value, n' + 1)
      | none => (left.chain [step], n') := by
  obtain ⟨span, type, digits, hright, -⟩ := h.right
  have hsame : expression step.right = pure step.right := by
    rw [hright]
    rfl
  rw [chain_concat, expression, StateT.run_bind, hleft, hsame]
  show (match value? left step.operator step.right with
    | some value => do
      modify fun count => count + 1
      return literal left.span value
    | none => return .binary step.span step.type left step.operator step.right :
      Fold Expression).run n' = _
  cases value? left step.operator step.right with
  | none => rfl
  | some value => rfl

/-- What a chain on a literal starts with when `m` operations of it were folded to `value`. -/
def front (first : Expression) (m : Nat) (value : Int) : Expression :=
  if m = 0 then first else literal first.span value

theorem span_front (first : Expression) (m : Nat) (value : Int) :
    (front first m value).span = first.span := by
  unfold front
  split
  · rfl
  · rfl

theorem integerValue?_front {first : Expression} {a v : Int} {m : Nat}
    {operations : List Operation} (hfirst : first.integerValue? = some a)
    (h : Reaches a operations m v) : (front first m v).integerValue? = some v := by
  unfold front
  split
  · next hnone =>
    subst hnone
    cases h.value
    exact hfirst
  · next hsome =>
    refine integerValue?_literal (h.value.inRange ?_) first.span
    intro hnil
    have hlength := congrArg List.length hnil
    rw [List.length_take, List.length_nil] at hlength
    have hwithin := h.within
    omega

/-- Folding evaluates a chain on a literal from the left. It folds as many operations as have
    defined results in the range of the machine, and leaves the others as they are. -/
theorem chain_folds {first : Expression} {a : Int} (hfirst : first.integerValue? = some a)
    {operations : List Operation} {steps : List Step}
    (h : List.Forall₂ Step.Links steps operations) :
    ∃ m v, Reaches a operations m v ∧ ∀ n, (expression (first.chain steps)).run n =
      ((front first m v).chain (steps.drop m), n + m) := by
  induction operations using List.reverseRecOn generalizing steps with
  | nil =>
    cases h
    refine ⟨0, a, ⟨Nat.le_refl 0, .done a, fun hlt => absurd hlt (Nat.lt_irrefl 0)⟩, fun n => ?_⟩
    -- a literal stays
    cases first with
    | integer => rfl
    | _ => cases hfirst
  | append_singleton operations operation ih =>
    -- the last step is the operation, and the others are those before it
    have hsteps := List.take_append_drop operations.length steps
    have hothers := List.forall₂_take_append _ _ _ h
    have hlast := List.forall₂_drop_append _ _ _ h
    generalize steps.take operations.length = others at hsteps hothers
    generalize steps.drop operations.length = last at hsteps hlast
    cases hlast with
    | @cons step _ none _ hlinks hnone =>
    cases hnone
    subst hsteps
    obtain ⟨m, v, hreaches, hfolds⟩ := ih hothers
    have hlength : others.length = operations.length := hothers.length_eq
    have hfront := integerValue?_front hfirst hreaches
    have hrun (n : Nat) := expression_concat hlinks (hfolds n)
    cases hfound : value? ((front first m v).chain (others.drop m)) step.operator step.right with
    | none =>
      rw [hfound] at hrun
      refine ⟨m, v, hreaches.stay fun hall hsome => ?_, fun n => ?_⟩
      · -- the chain was folded to a literal, so folding would find the value
        obtain ⟨w, hcomputes, hrange⟩ := hsome
        rw [List.drop_of_length_le (by omega)] at hfound
        have hvalue := (value?_step hlinks).2 ⟨v, hfront, hcomputes, hrange⟩
        exact Option.some_ne_none w (hvalue.symm.trans hfound)
      · rw [hrun, List.drop_append_of_le_length (hlength ▸ hreaches.within), chain_concat]
        rfl
    | some w =>
      rw [hfound] at hrun
      obtain ⟨b, hb, hcomputes, hrange⟩ := (value?_step hlinks).1 hfound
      -- what the last operation is on is a literal, so nothing is left before it
      have hnone : others.drop m = [] := by
        by_contra hsome
        rw [integerValue?_chain _ hsome] at hb
        cases hb
      obtain rfl : m = operations.length := by
        have hwithin := hreaches.within
        rw [List.drop_eq_nil_iff] at hnone
        omega
      rw [hnone] at hb
      obtain rfl : b = v := Option.some.inj (hb.symm.trans hfront)
      refine ⟨_, w, hreaches.go hcomputes hrange, fun n => ?_⟩
      rw [hrun, hnone, List.drop_of_length_le (by simp [hlength])]
      show (literal (front first operations.length b).span w, _) = _
      rw [span_front]
      rfl

end Fold

end TriangleTam
