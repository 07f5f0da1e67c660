import TriangleTam.Tree.TypeDenoter

/-! # Numerals read back

  The numeral of a number reads as that number, and as a literal it stands for
  the number if this is a word.
-/

namespace TriangleTam

namespace Numeral

theorem readDigits_append (soFar : Nat) (first second : List Char) :
    readDigits soFar (first ++ second) =
      (readDigits soFar first).bind fun n => readDigits n second := by
  induction first generalizing soFar with
  | nil => rfl
  | cons c cs ih =>
    simp only [List.cons_append, readDigits]
    split
    · exact ih _
    · rfl

theorem isDigit_digit {d : Nat} (h : d < 10) : (digit d).isDigit = true := by
  have hall : ∀ d < 10, (digit d).isDigit = true := by decide
  exact hall d h

theorem toNat_digit {d : Nat} (h : d < 10) : (digit d).toNat - '0'.toNat = d := by
  have hall : ∀ d < 10, (digit d).toNat - '0'.toNat = d := by decide
  exact hall d h

theorem readDigits_digit (soFar : Nat) {d : Nat} (h : d < 10) :
    readDigits soFar [digit d] = some (10 * soFar + d) := by
  simp only [readDigits, isDigit_digit h, toNat_digit h, if_true]

theorem readDigits_digits (n : Nat) : readDigits 0 (digits n) = some n := by
  induction n using Nat.strongRecOn with
  | ind n ih =>
    rw [digits]
    by_cases hlt : n < 10
    · rw [if_pos hlt, readDigits_digit 0 hlt, Nat.mul_zero, Nat.zero_add]
    · rw [if_neg hlt, readDigits_append, ih (n / 10) (by omega)]
      show readDigits (n / 10) [digit (n % 10)] = some n
      rw [readDigits_digit _ (Nat.mod_lt n (by decide)), Nat.div_add_mod]

/-- Digits start with a digit. -/
theorem digits_eq_cons (n : Nat) :
    ∃ c cs, digits n = c :: cs ∧ c.isDigit = true := by
  induction n using Nat.strongRecOn with
  | ind n ih =>
    rw [digits]
    by_cases hlt : n < 10
    · rw [if_pos hlt]
      exact ⟨_, _, rfl, isDigit_digit hlt⟩
    · rw [if_neg hlt]
      obtain ⟨c, cs, heq, hdigit⟩ := ih (n / 10) (by omega)
      rw [heq]
      exact ⟨c, cs ++ [digit (n % 10)], rfl, hdigit⟩

/-- What starts with a digit has no sign. -/
theorem toInt?_of_isDigit {c : Char} (cs : List Char) (h : c.isDigit = true) :
    toInt? (c :: cs) = (readDigits 0 (c :: cs)).map fun n => (n : Int) := by
  unfold toInt?
  split
  · next heq =>
    rw [(List.cons.inj heq).1] at h
    cases h
  · next heq =>
    rw [(List.cons.inj heq).1] at h
    cases h
  · rfl

theorem toInt?_ofNat (n : Nat) : toInt? (ofNat n).toList = some (n : Int) := by
  obtain ⟨c, cs, heq, hdigit⟩ := digits_eq_cons n
  have hread := readDigits_digits n
  simp only [ofNat, String.toList_ofList]
  rw [heq] at hread ⊢
  rw [toInt?_of_isDigit cs hdigit, hread]
  rfl

theorem toInt?_ofInt (n : Int) : toInt? (ofInt n).toList = some n := by
  unfold ofInt
  by_cases hneg : n < 0
  · obtain ⟨c, cs, heq, -⟩ := digits_eq_cons n.natAbs
    have hread := readDigits_digits n.natAbs
    rw [if_pos hneg, String.toList_ofList, heq]
    simp only [toInt?, toNat?]
    rw [heq] at hread
    rw [hread]
    show some (-(n.natAbs : Int)) = some n
    congr 1
    omega
  · rw [if_neg hneg, toInt?_ofNat]
    congr 1
    omega

end Numeral

namespace IntegerLiteral

/-- The literal of a natural number that is a word stands for that number. -/
theorem value_ofNat {n : Nat} (h : (n : Int) ≤ Word.greatest) (span : Span) :
    (⟨Numeral.ofNat n, span⟩ : IntegerLiteral).value = n := by
  have hfits : Word.Fits n := by
    have hleast : Word.least ≤ n := by
      unfold Word.least
      omega
    exact ⟨hleast, h⟩
  simp [value, Numeral.toWord?, Numeral.toInt?_ofNat, Option.filter, hfits]

/-- The literal of a word stands for that word. -/
theorem value_ofInt {n : Int} (h : Word.Fits n) (span : Span) :
    (⟨Numeral.ofInt n, span⟩ : IntegerLiteral).value = n := by
  simp [value, Numeral.toWord?, Numeral.toInt?_ofInt, Option.filter, h]

theorem value_ofNat_nonneg (n : Nat) (span : Span) :
    0 ≤ (⟨Numeral.ofNat n, span⟩ : IntegerLiteral).value := by
  by_cases hfits : Word.Fits n
  · simp [value, Numeral.toWord?, Numeral.toInt?_ofNat, Option.filter, hfits]
  · simp [value, Numeral.toWord?, Numeral.toInt?_ofNat, Option.filter, hfits]

end IntegerLiteral

end TriangleTam
