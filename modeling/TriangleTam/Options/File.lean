import TriangleTam.Options
import TriangleTam.Options.Json

/-! # Options files

  An options file is a JSON object with the members `folding` and
  `show_table`, both truth values and both optional. Other members are
  ignored, whatever they hold. The members may also be listed by position in
  an array of up to two truth values.
-/

namespace TriangleTam.Options

/-- Read a truth value, with blanks before it. -/
def readBool? (text : List Char) : Option (Bool × Json.Rest text) :=
  match Json.skipTrue? text with
  | some rest => some (true, rest)
  | none => (Json.skipFalse? text).map fun rest => (false, rest)

/-! ## Objects -/

/-- The members read so far. -/
structure Members where
  folding   : Option Bool := none
  showTable : Option Bool := none

/-- What is missing is off. -/
def Members.options (members : Members) : Options :=
  ⟨members.folding.getD false, members.showTable.getD false⟩

/-- Read the value of the member `key`. A known member may not be repeated. -/
def readMember? (key : String) (members : Members) (text : List Char) :
    Option (Members × Json.Rest text) :=
  if key = "folding" then
    if members.folding.isSome then none
    else (readBool? text).map fun (value, rest) => ({ members with folding := some value }, rest)
  else if key = "show_table" then
    if members.showTable.isSome then none
    else (readBool? text).map fun (value, rest) => ({ members with showTable := some value }, rest)
  else (Json.skipValue? text).map fun rest => (members, rest)

/-- Read members up to the closing brace. -/
def readMembers? (members : Members) (text : List Char) : Option (Members × List Char) :=
  have := Json.length_skipBlanks text
  match _h : Json.skipBlanks text with
  | '"' :: cs =>
    match hs : Json.string? cs with
    | some (codes, afterKey) => do
      have := Json.length_string? hs
      have := Json.length_skipBlanks afterKey
      let key ← Json.characters? codes
      match _h' : Json.skipBlanks afterKey with
      | ':' :: ds =>
        let (members, ⟨afterValue, _⟩) ← readMember? (String.ofList key) members ds
        have := Json.length_skipBlanks afterValue
        match _h'' : Json.skipBlanks afterValue with
        | ',' :: es => readMembers? members es
        | '\x7d' :: rest => some (members, rest)
        | _ => none
      | _ => none
    | none => none
  | _ => none
termination_by text.length
decreasing_by simp only [_h, _h', _h'', List.length_cons] at *; omega

/-! ## Arrays -/

/-- Read truth values up to the closing bracket, at most `room` of them. -/
def readValues? (room : Nat) (text : List Char) : Option (List Bool × List Char) :=
  match room with
  | 0 => none
  | room + 1 => do
    let (value, ⟨afterValue, _⟩) ← readBool? text
    match Json.skipBlanks afterValue with
    | ',' :: cs =>
      let (values, rest) ← readValues? room cs
      return (value :: values, rest)
    | ']' :: rest => some ([value], rest)
    | _ => none

/-! ## Files -/

/-- The options in a JSON text, if it is an options file. -/
def ofJson? (text : String) : Option Options := do
  let (options, rest) ← match Json.skipBlanks text.toList with
    | '\x7b' :: cs =>
      match Json.skipBlanks cs with
      | '\x7d' :: rest => some (({} : Options), rest)
      | _ => (readMembers? {} cs).map fun (members, rest) => (members.options, rest)
    | '[' :: cs =>
      match Json.skipBlanks cs with
      | ']' :: rest => some ({}, rest)
      | _ => (readValues? 2 cs).map fun (values, rest) =>
        (⟨values.getD 0 false, values.getD 1 false⟩, rest)
    | _ => none
  if (Json.skipBlanks rest).isEmpty then some options else none

end TriangleTam.Options
