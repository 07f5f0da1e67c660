import Mathlib.Data.List.Induction
import Mathlib.Data.Nat.Digits.Defs
import TriangleTam.Proofs.Text.Assembly

/-! # Decimal notation

  What numerals stand for, told from their digits alone and not by reading
  them: each digit counts for ten times the one behind it. Reading is exact.
  It finds the number that is spelled, whatever zeros stand in front, and a
  word where that number is one.
-/

namespace TriangleTam

namespace Numeral

/-! ## Digits -/

/-- The number that digits stand for, the most significant digit first. -/
def decimal (digits : List Char) : Nat :=
  Nat.ofDigits 10 (digits.reverse.map fun c => c.toNat - '0'.toNat)

theorem decimal_concat (digits : List Char) (c : Char) :
    decimal (digits ++ [c]) = 10 * decimal digits + (c.toNat - '0'.toNat) := by
  simp only [decimal, List.reverse_concat, List.map_cons, Nat.ofDigits_cons]
  exact Nat.add_comm _ _

/-- Digits are read as the number they stand for. -/
theorem readDigits_decimal {digits : List Char} (h : ∀ c ∈ digits, c.isDigit = true) :
    readDigits 0 digits = some (decimal digits) := by
  induction digits using List.reverseRecOn with
  | nil => rfl
  | append_singleton digits c ih =>
    obtain ⟨hdigits, hc⟩ := List.forall_mem_append.1 h
    rw [readDigits_append, ih hdigits, decimal_concat]
    simp only [Option.bind_some, readDigits, hc c (List.mem_singleton.2 rfl), if_true]

/-- The digits of a number stand for it. -/
theorem decimal_digits (n : Nat) : decimal (digits n) = n := by
  have hread : readDigits 0 (digits n) = some (decimal (digits n)) :=
    readDigits_decimal fun _ => isDigit_of_mem_digits
  rw [readDigits_digits] at hread
  exact (Option.some.inj hread).symm

/-! ## Numerals -/

/-- A digit or more, and nothing else. -/
structure IsDigits (numeral : List Char) : Prop where
  nonempty : numeral ≠ []
  digits   : ∀ c ∈ numeral, c.isDigit = true

theorem isDigits_digits (n : Nat) : IsDigits (digits n) where
  nonempty := by
    obtain ⟨c, cs, heq, -⟩ := digits_eq_cons n
    rw [heq]
    exact List.cons_ne_nil c cs
  digits _ := isDigit_of_mem_digits

theorem IsDigits.zeros {numeral : List Char} (h : IsDigits numeral) (k : Nat) :
    IsDigits (List.replicate k '0' ++ numeral) where
  nonempty := List.append_ne_nil_of_right_ne_nil _ h.nonempty
  digits := by
    refine List.forall_mem_append.2 ⟨fun c hmem => ?_, h.digits⟩
    rw [(List.mem_replicate.1 hmem).2]
    rfl

/-- How integers are spelled: by digits, behind a minus sign if they count down from zero. -/
inductive Spells : List Char → Int → Prop
  | unsigned {digits : List Char} (h : IsDigits digits) : Spells digits (decimal digits)
  | negative {digits : List Char} (h : IsDigits digits) :
      Spells ('-' :: digits) (-(decimal digits : Int))

/-- A numeral is read as the integer it spells. -/
theorem Spells.toInt?_eq {numeral : List Char} {n : Int} (h : Spells numeral n) :
    toInt? numeral = some n := by
  cases h with
  | unsigned h =>
    cases numeral with
    | nil => exact absurd rfl h.nonempty
    | cons c cs =>
      rw [toInt?_of_isDigit cs (h.digits c List.mem_cons_self), readDigits_decimal h.digits]
      rfl
  | @negative digits h =>
    cases digits with
    | nil => exact absurd rfl h.nonempty
    | cons c cs =>
      rw [toInt?, toNat?, readDigits_decimal h.digits]
      rfl

theorem spells_ofNat (n : Nat) : Spells (ofNat n).toList n := by
  have h := Spells.unsigned (isDigits_digits n)
  rwa [decimal_digits, ← String.toList_ofList (l := digits n)] at h

/-- What is written for an integer spells it. -/
theorem spells_ofInt (n : Int) : Spells (ofInt n).toList n := by
  unfold ofInt
  by_cases hneg : n < 0
  · have h := Spells.negative (isDigits_digits n.natAbs)
    have hn : -(n.natAbs : Int) = n := by omega
    rw [decimal_digits, hn] at h
    rwa [if_pos hneg, String.toList_ofList]
  · have hn : (n.natAbs : Int) = n := by omega
    have h := spells_ofNat n.natAbs
    rw [hn] at h
    rwa [if_neg hneg]

/-- A numeral stands for a word if what it spells is one. -/
theorem Spells.toWord?_eq {numeral : String} {n : Int} (h : Spells numeral.toList n) :
    toWord? numeral = if Word.Fits n then some n else none := by
  unfold toWord?
  rw [h.toInt?_eq, Option.filter_some]
  simp only [decide_eq_true_eq]

end Numeral

/-! ## Literals -/

namespace IntegerLiteral

/-- The literal spells its value, which is read and not the zero that stands in for what is no
    word. -/
structure Exact (literal : IntegerLiteral) : Prop where
  spells : Numeral.Spells literal.spelling.toList literal.value
  read   : Numeral.toWord? literal.spelling = some literal.value

/-- The literal is a string of digits, and is exact. -/
structure Plain (literal : IntegerLiteral) : Prop where
  digits : Numeral.IsDigits literal.spelling.toList
  value  : literal.value = (Numeral.decimal literal.spelling.toList : Int)
  read   : Numeral.toWord? literal.spelling = some literal.value

variable {literal : IntegerLiteral} {n : Int}

theorem Plain.exact (h : literal.Plain) : literal.Exact :=
  ⟨h.value ▸ .unsigned h.digits, h.read⟩

/-- What spells a word has it as its value. -/
theorem value_of_fits (h : Numeral.Spells literal.spelling.toList n) (hfits : Word.Fits n) :
    literal.value = n := by
  rw [value, h.toWord?_eq, if_pos hfits]
  rfl

/-- A literal is exact if and only if it spells a word. -/
theorem exact_iff (h : Numeral.Spells literal.spelling.toList n) :
    literal.Exact ↔ Word.Fits n := by
  constructor
  · intro hexact
    have hread := hexact.read
    rw [h.toWord?_eq] at hread
    by_contra hfits
    rw [if_neg hfits] at hread
    cases hread
  · intro hfits
    have hvalue := value_of_fits h hfits
    exact ⟨hvalue ▸ h, by rw [h.toWord?_eq, if_pos hfits, hvalue]⟩

/-- Digits that stand for a word at all stand for their number. -/
theorem plain_of_isSome (hdigits : Numeral.IsDigits literal.spelling.toList)
    (h : (Numeral.toWord? literal.spelling).isSome = true) : literal.Plain := by
  have hspells := Numeral.Spells.unsigned hdigits
  have hfits : Word.Fits (Numeral.decimal literal.spelling.toList) := by
    by_contra hfits
    rw [hspells.toWord?_eq, if_neg hfits] at h
    cases h
  exact ⟨hdigits, value_of_fits hspells hfits, ((exact_iff hspells).2 hfits).read⟩

/-- The literal written for a word is exact. -/
theorem exact_ofInt (hfits : Word.Fits n) (span : Span) :
    (⟨Numeral.ofInt n, span⟩ : IntegerLiteral).Exact := by
  have hspells : Numeral.Spells (⟨Numeral.ofInt n, span⟩ : IntegerLiteral).spelling.toList n :=
    Numeral.spells_ofInt n
  exact (exact_iff hspells).2 hfits

/-- The literal written for a number of things is exact if this is at most the greatest word. -/
theorem exact_ofNat_iff {n : Nat} {span : Span} :
    (⟨Numeral.ofNat n, span⟩ : IntegerLiteral).Exact ↔ (n : Int) ≤ Word.greatest := by
  have hspells : Numeral.Spells (⟨Numeral.ofNat n, span⟩ : IntegerLiteral).spelling.toList n :=
    Numeral.spells_ofNat n
  rw [exact_iff hspells]
  exact ⟨fun hfits => hfits.2, fun hle => ⟨by unfold Word.least; omega, hle⟩⟩

end IntegerLiteral

end TriangleTam
