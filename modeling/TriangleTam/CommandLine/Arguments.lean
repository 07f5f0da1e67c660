/-! # Arguments of the command line

  One argument without a hyphen names the source file. Options may stand
  before and after it, up to an argument `--`. A long option takes its value
  from the same argument, after an equals sign, or from the next one. Short
  options may share an argument. Only `-v` may be repeated.
-/

namespace TriangleTam.CommandLine

/-- The two forms of a listing. -/
inductive ListingFormat
  | text | json
  deriving DecidableEq, Repr

/-- What to compile, and how. -/
structure Arguments where
  source    : String
  /-- The object file to write. -/
  output    : String
  /-- The options file to read. -/
  config    : Option String
  folding   : Bool
  showTable : Bool
  showStats : Bool
  listing   : Bool
  format    : ListingFormat
  /-- How much of the log is wanted. -/
  verbosity : Nat
  deriving DecidableEq, Repr

/-- What the arguments ask for. -/
inductive Request
  | compile (arguments : Arguments)
  | version
  | help
  deriving DecidableEq, Repr

/-- Why the arguments are not understood. -/
inductive UsageFault
  | missingSource
  | unexpected (argument : String)
  | missingValue (option : String)
  | invalidValue (option value : String)
  | repeated (option : String)
  deriving DecidableEq, Repr

def UsageFault.text : UsageFault → String
  | .missingSource => "no source file given"
  | .unexpected argument => "unexpected argument '" ++ argument ++ "'"
  | .missingValue option => "no value given for '" ++ option ++ "'"
  | .invalidValue option value => "invalid value '" ++ value ++ "' for '" ++ option ++ "'"
  | .repeated option => "'" ++ option ++ "' given more than once"

namespace Arguments

/-! ## Options -/

/-- The options with a value. -/
inductive Setting
  | output | config | format
  deriving DecidableEq, Repr

/-- The options without a value. -/
inductive Switch
  | folding | showTable | showStats | listing | verbose | version | help
  deriving DecidableEq, Repr

def setting? (name : String) : Option Setting :=
  match name with
  | "output" => some .output
  | "config" => some .config
  | "listing-format" => some .format
  | _ => none

def switch? (name : String) : Option Switch :=
  match name with
  | "folding" => some .folding
  | "show-table" => some .showTable
  | "show-stats" => some .showStats
  | "listing" => some .listing
  | "verbose" => some .verbose
  | "version" => some .version
  | "help" => some .help
  | _ => none

def shortSwitch? (letter : Char) : Option Switch :=
  match letter with
  | 'v' => some .verbose
  | 'V' => some .version
  | 'h' => some .help
  | _ => none

def Setting.written : Setting → String
  | .output => "--output"
  | .config => "--config"
  | .format => "--listing-format"

/-! ## Collecting -/

/-- What was given so far. -/
structure Draft where
  source    : Option String := none
  output    : Option String := none
  config    : Option String := none
  format    : Option ListingFormat := none
  folding   : Bool := false
  showTable : Bool := false
  showStats : Bool := false
  listing   : Bool := false
  verbosity : Nat := 0

namespace Draft

def setSource (draft : Draft) (word : String) : Except UsageFault Draft :=
  if draft.source.isSome then .error (.unexpected word)
  else if word = "" then .error (.invalidValue "SOURCE" word)
  else .ok { draft with source := some word }

def set (draft : Draft) (setting : Setting) (value : String) : Except UsageFault Draft :=
  if value = "" then .error (.missingValue setting.written)
  else
    match setting with
    | .output =>
      if draft.output.isSome then .error (.repeated setting.written)
      else .ok { draft with output := some value }
    | .config =>
      if draft.config.isSome then .error (.repeated setting.written)
      else .ok { draft with config := some value }
    | .format =>
      if draft.format.isSome then .error (.repeated setting.written)
      else
        match value with
        | "text" => .ok { draft with format := some .text }
        | "json" => .ok { draft with format := some .json }
        | _ => .error (.invalidValue setting.written value)

/-- Turn a switch on. Asking for the version or for help leaves everything
    else as it is. -/
def turnOn (draft : Draft) (switch : Switch) : Except UsageFault Draft :=
  match switch with
  | .folding =>
    if draft.folding then .error (.repeated "--folding")
    else .ok { draft with folding := true }
  | .showTable =>
    if draft.showTable then .error (.repeated "--show-table")
    else .ok { draft with showTable := true }
  | .showStats =>
    if draft.showStats then .error (.repeated "--show-stats")
    else .ok { draft with showStats := true }
  | .listing =>
    if draft.listing then .error (.repeated "--listing")
    else .ok { draft with listing := true }
  | .verbose => .ok { draft with verbosity := draft.verbosity + 1 }
  | .version | .help => .ok draft

/-- What is missing takes its default. There is none for the source. -/
def finish (draft : Draft) : Except UsageFault Request :=
  match draft.source with
  | none => .error .missingSource
  | some source =>
    .ok (.compile
      { source := source
        output := draft.output.getD "obj.tam"
        config := draft.config
        folding := draft.folding
        showTable := draft.showTable
        showStats := draft.showStats
        listing := draft.listing
        format := draft.format.getD .text
        verbosity := draft.verbosity })

end Draft

/-! ## Reading -/

/-- What an argument turns out to be. -/
inductive Step
  /-- The draft goes on with the next argument. -/
  | next (draft : Draft)
  /-- The next argument is the value of a setting. -/
  | await (draft : Draft) (setting : Setting)
  /-- All other arguments are left unread. -/
  | answer (request : Request)

/-- Turn a switch on, or answer it at once. -/
def readSwitch (draft : Draft) (switch : Switch) : Except UsageFault Step := do
  match switch with
  | .version => return .answer .version
  | .help => return .answer .help
  | _ => return .next (← draft.turnOn switch)

/-- A long option, without its hyphens. -/
def readLong (draft : Draft) (body : List Char) : Except UsageFault Step := do
  let name := String.ofList (body.takeWhile (· ≠ '='))
  match setting? name, body.dropWhile (· ≠ '=') with
  | some setting, _ :: value => return .next (← draft.set setting (String.ofList value))
  | some setting, [] => return .await draft setting
  | none, value =>
    match switch? name with
    | some switch => if value.isEmpty then readSwitch draft switch else unexpected
    | none => unexpected
where
  unexpected : Except UsageFault Step := .error (.unexpected ("--" ++ String.ofList body))

/-- The letters of an argument with one hyphen. A value may follow `-o` at
    once or after an equals sign. -/
def readShort (draft : Draft) (letters : List Char) : Except UsageFault Step :=
  match letters with
  | [] => .ok (.next draft)
  | 'o' :: [] => .ok (.await draft .output)
  | 'o' :: '=' :: value => return .next (← draft.set .output (String.ofList value))
  | 'o' :: value => return .next (← draft.set .output (String.ofList value))
  | letter :: rest => do
    match shortSwitch? letter with
    | none => .error (.unexpected (String.ofList ['-', letter]))
    | some switch =>
      match ← readSwitch draft switch with
      | .next draft => readShort draft rest
      | step => return step

def readWord (draft : Draft) (word : String) : Except UsageFault Step :=
  match word.toList with
  | '-' :: '-' :: body => readLong draft body
  | '-' :: letter :: letters => readShort draft (letter :: letters)
  | _ => return .next (← draft.setSource word)

/-- A value for a setting starts with no hyphen, but may be one. -/
def isValue (word : String) : Bool :=
  match word.toList with
  | '-' :: _ :: _ => false
  | _ => true

/-- Read arguments after `--`. -/
def readSources (draft : Draft) (words : List String) : Except UsageFault Request :=
  match words with
  | [] => draft.finish
  | word :: rest => do readSources (← draft.setSource word) rest

def readAll (draft : Draft) (words : List String) : Except UsageFault Request :=
  match words with
  | [] => draft.finish
  | "--" :: rest => readSources draft rest
  | word :: rest => do
    match ← readWord draft word with
    | .next draft => readAll draft rest
    | .answer request => return request
    | .await draft setting =>
      match rest with
      | [] => .error (.missingValue setting.written)
      | value :: rest =>
        if isValue value then readAll (← draft.set setting value) rest
        else .error (.missingValue setting.written)

/-- Understand the arguments of the command line. -/
def parse (words : List String) : Except UsageFault Request := readAll {} words

end Arguments

end TriangleTam.CommandLine
