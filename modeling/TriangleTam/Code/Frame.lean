import TriangleTam.Word

/-! # Frames and addresses

  What the encoder knows of the stack while it writes code: how deep the
  current routine is nested and how many words its frame holds so far.
-/

namespace TriangleTam

/-- Static coordinates of a stored value: the nesting level of the routine
    whose frame holds it and the displacement in that frame. -/
structure Address where
  level        : Nat
  displacement : Int
  deriving DecidableEq, Repr

/-- A routine level and the words in use in the frame of that level. -/
structure Frame where
  level : Nat
  size  : Int
  deriving DecidableEq, Repr

namespace Frame

/-- The frame of the main program, with nothing in it. -/
def initial : Frame := ⟨0, 0⟩

/-- The frame with `n` more words, as far as words can count. -/
def expand (frame : Frame) (n : Int) : Frame :=
  { frame with size := Word.clamp (frame.size + n) }

/-- The frame with `n` more words, if words can count them. -/
def expand? (frame : Frame) (n : Int) : Option Frame :=
  if Word.Fits (frame.size + n) then some { frame with size := frame.size + n } else none

/-- The frame with `n` words. -/
def replace (frame : Frame) (n : Int) : Frame := { frame with size := n }

/-- A frame of `n` words one level deeper. -/
def push (frame : Frame) (n : Int) : Frame := ⟨frame.level + 1, n⟩

/-- The address of the next free word. -/
def address (frame : Frame) : Address := ⟨frame.level, frame.size⟩

end Frame

end TriangleTam
