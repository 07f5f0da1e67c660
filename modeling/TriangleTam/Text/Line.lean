/-! # Lines and columns

  A line is what stands before a newline; what follows the last newline is a
  line only if it is not empty. Columns are filled with blanks.
-/

namespace TriangleTam.Text

/-- The lines of a text, without their newlines. -/
def lines : List Char → List (List Char)
  | [] => []
  | c :: cs =>
    if c = '\n' then [] :: lines cs
    else match lines cs with
      | [] => [[c]]
      | line :: others => (c :: line) :: others

/-- How many newlines the text holds. -/
def newlines (text : List Char) : Nat := text.count '\n'

/-- The text with blanks before it, up to `width` characters. -/
def padLeft (width : Nat) (text : String) : String :=
  String.ofList (List.replicate (width - text.length) ' ') ++ text

/-- The text with blanks after it, up to `width` characters. -/
def padRight (width : Nat) (text : String) : String :=
  text ++ String.ofList (List.replicate (width - text.length) ' ')

end TriangleTam.Text
