import TriangleTam.Proofs.Meaning.Folding

/-! # Operations that fold

  What the arithmetic operators compute, and which operations may be replaced
  by a literal: those on two literals of integers, with a standard operator,
  and with a value that is defined and that the machine has. These are the
  operations that folding finds a value for.
-/

namespace TriangleTam

instance (value : Int) : Decidable (Machine.InRange value) :=
  inferInstanceAs (Decidable (-Machine.maxint ≤ value ∧ value ≤ Machine.maxint))

/-- What the arithmetic operators compute. A division truncates, and a remainder has the sign of
    the dividend. No divisor is zero. -/
inductive Arithmetic : String → Int → Int → Int → Prop
  | add (a b : Int) : Arithmetic "+" a b (a + b)
  | sub (a b : Int) : Arithmetic "-" a b (a - b)
  | mult (a b : Int) : Arithmetic "*" a b (a * b)
  | div (a : Int) {b : Int} (divisor : b ≠ 0) : Arithmetic "/" a b (a.tdiv b)
  | mod (a : Int) {b : Int} (divisor : b ≠ 0) : Arithmetic "//" a b (a.tmod b)

/-- An operation on two literals of integers with an arithmetic operator, by its binding, whose
    value is defined and one that the machine has. -/
inductive Expression.Foldable : Expression → Prop
  | operation {span : Span} {type : Option TypeDenoter} {left right : Expression}
      {operator : Name} {id : BindingId} {declaration : StandardDeclaration} {a b value : Int}
      (left_value : left.integerValue? = some a) (right_value : right.integerValue? = some b)
      (binding : operator.binding = some id)
      (standard : Standard.declaration? id = some declaration)
      (computes : Arithmetic declaration.name a b value) (range : Machine.InRange value) :
      Foldable (.binary span type left operator right)

/-! ## Operators and their primitives -/

/-- The primitives of the operators that fold. -/
def Arithmetic.primitives : List (String × Primitive) :=
  [("+", .add), ("-", .sub), ("*", .mult), ("/", .div), ("//", .mod)]

theorem arithmetic_iff {name : String} {a b value : Int} : Arithmetic name a b value ↔
    ∃ p, Arithmetic.primitives.lookup name = some p ∧ p.result? a b = some value := by
  constructor
  · intro h
    cases h with
    | add | sub | mult => exact ⟨_, rfl, rfl⟩
    | div _ divisor | mod _ divisor => exact ⟨_, rfl, if_neg divisor⟩
  · intro h
    obtain ⟨p, hlookup, hvalue⟩ := h
    obtain ⟨front, back, hlisted, -⟩ := List.lookup_eq_some_iff.1 hlookup
    have hmem : (name, p) ∈ Arithmetic.primitives := by
      rw [hlisted]
      exact List.mem_append_right front List.mem_cons_self
    simp only [Arithmetic.primitives, List.mem_cons, List.not_mem_nil, or_false,
      Prod.mk.injEq] at hmem
    -- the operators are those of the table, one after the other
    rcases hmem with ⟨rfl, rfl⟩ | ⟨rfl, rfl⟩ | ⟨rfl, rfl⟩ | ⟨rfl, rfl⟩ | ⟨rfl, rfl⟩
    · cases hvalue
      exact .add a b
    · cases hvalue
      exact .sub a b
    · cases hvalue
      exact .mult a b
    · obtain ⟨divisor, hquotient⟩ := Option.ite_none_left_eq_some.1 hvalue
      cases hquotient
      exact .div a divisor
    · obtain ⟨divisor, hremainder⟩ := Option.ite_none_left_eq_some.1 hvalue
      cases hremainder
      exact .mod a divisor

/-- An operator computes one value at most. -/
theorem Arithmetic.unique {name : String} {a b value value' : Int}
    (h : Arithmetic name a b value) (h' : Arithmetic name a b value') : value = value' := by
  obtain ⟨p, hlookup, hvalue⟩ := arithmetic_iff.1 h
  obtain ⟨p', hlookup', hvalue'⟩ := arithmetic_iff.1 h'
  obtain rfl := Option.some.inj (hlookup.symm.trans hlookup')
  exact Option.some.inj (hvalue.symm.trans hvalue')

namespace Standard

/-- The primitive of a standard declaration that folds is the one of its operator. -/
theorem arithmetic?_eq {id : BindingId} {declaration : StandardDeclaration}
    (h : declaration? id = some declaration) :
    arithmetic? id = Arithmetic.primitives.lookup declaration.name := by
  have hall : ∀ i : Fin declarations.length,
      arithmetic? i = Arithmetic.primitives.lookup declarations[i].name := by
    decide
  obtain ⟨hlt, rfl⟩ := List.getElem?_eq_some_iff.1 h
  exact hall ⟨id, hlt⟩

end Standard

namespace Fold

/-- Folding finds a value for the operations that may be folded, and only for these. -/
theorem value?_eq_some_iff {left right : Expression} {operator : Name} {value : Int} :
    value? left operator right = some value ↔
      ∃ a b id declaration, left.integerValue? = some a ∧ right.integerValue? = some b ∧
        operator.binding = some id ∧ Standard.declaration? id = some declaration ∧
        Arithmetic declaration.name a b value ∧ Machine.InRange value := by
  unfold value?
  simp only [bind, Option.bind_eq_some_iff]
  constructor
  · rintro ⟨a, hleft, b, hright, p, ⟨id, hbinding, hfolds⟩, hvalue⟩
    cases hat : Standard.declaration? id with
    | none =>
      unfold Standard.arithmetic? at hfolds
      rw [hat] at hfolds
      cases hfolds
    | some declaration =>
      rw [Standard.arithmetic?_eq hat] at hfolds
      obtain ⟨hresult, hrange⟩ := Primitive.of_evaluate? hvalue
      exact ⟨a, b, id, declaration, hleft, hright, hbinding, hat,
        arithmetic_iff.2 ⟨p, hfolds, hresult⟩, hrange⟩
  · rintro ⟨a, b, id, declaration, hleft, hright, hbinding, hat, hcomputes, hrange⟩
    obtain ⟨p, hlookup, hresult⟩ := arithmetic_iff.1 hcomputes
    rw [← Standard.arithmetic?_eq hat] at hlookup
    exact ⟨a, hleft, b, hright, p, ⟨id, hbinding, hlookup⟩, p.evaluate?_eq a b hresult hrange⟩

/-- No value is found for an operation that may not be folded. -/
theorem value?_eq_none_iff {span : Span} {type : Option TypeDenoter} {left right : Expression}
    {operator : Name} : value? left operator right = none ↔
      ¬ (Expression.binary span type left operator right).Foldable := by
  constructor
  · intro hnone hfoldable
    cases hfoldable with
    | operation left_value right_value binding standard computes range =>
      have hsome := value?_eq_some_iff.2
        ⟨_, _, _, _, left_value, right_value, binding, standard, computes, range⟩
      rw [hnone] at hsome
      cases hsome
  · intro hstays
    cases hvalue : value? left operator right with
    | none => rfl
    | some value =>
      obtain ⟨a, b, id, declaration, hleft, hright, hbinding, hat, hcomputes, hrange⟩ :=
        value?_eq_some_iff.1 hvalue
      exact absurd (.operation hleft hright hbinding hat hcomputes hrange) hstays

end Fold

end TriangleTam
