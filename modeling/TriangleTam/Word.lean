/-! # Machine words

  Every size, displacement, operand and literal of the machine is a signed
  32-bit word. The library computes with integers and says where a result
  has to be a word: `Word.Fits` is the range test, and `Word.clamp` is the
  word nearest to an integer, which is what saturating arithmetic keeps.
-/

namespace TriangleTam.Word

/-- The least word. -/
def least : Int := -2147483648

/-- The greatest word. -/
def greatest : Int := 2147483647

/-- The integer `n` is the value of a word. -/
def Fits (n : Int) : Prop := least ≤ n ∧ n ≤ greatest

instance (n : Int) : Decidable (Fits n) :=
  inferInstanceAs (Decidable (least ≤ n ∧ n ≤ greatest))

/-- The word nearest to `n`. -/
def clamp (n : Int) : Int := max least (min n greatest)

/-- A word is its own nearest word. -/
theorem clamp_of_fits {n : Int} (h : Fits n) : clamp n = n := by
  simp only [Fits, least, greatest] at h
  simp only [clamp, least, greatest]
  omega

/-- The nearest word is a word. -/
theorem fits_clamp (n : Int) : Fits (clamp n) := by
  simp only [Fits, clamp, least, greatest]
  omega

end TriangleTam.Word
