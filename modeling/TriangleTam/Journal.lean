import TriangleTam.Diagnostic

/-! # The journal of a compilation

  Every pass writes into one **journal**: the diagnostics it reports and the
  events it logs, both in order. Reporting a diagnostic is also an event.
-/

namespace TriangleTam

/-- How much an event matters to a reader of the log. -/
inductive Level
  | debug | info | warn
  deriving DecidableEq, Repr

namespace Level

def name : Level → String
  | debug => "DEBUG"
  | info => "INFO"
  | warn => "WARN"

/-- Greater for what matters more. -/
def weight : Level → Nat
  | debug => 0
  | info => 1
  | warn => 2

end Level

/-- An entry of the log: a message and named values. -/
structure Event where
  level   : Level
  message : String
  fields  : List (String × String)
  deriving DecidableEq, Repr

/-- The entry on one line. -/
def Event.text (event : Event) : String :=
  event.level.name ++ " " ++ event.message
    ++ String.join (event.fields.map fun (name, value) => " " ++ name ++ "=" ++ value)

/-- Diagnostics and events so far, oldest first. -/
structure Journal where
  diagnostics : Array Diagnostic := #[]
  events      : Array Event := #[]

namespace Journal

def empty : Journal := {}

/-- Log an event. -/
def log (journal : Journal) (level : Level) (message : String)
    (fields : List (String × String)) : Journal :=
  { journal with events := journal.events.push ⟨level, message, fields⟩ }

/-- Report a diagnostic. Restrictions are logged as warnings. -/
def report (journal : Journal) (d : Diagnostic) : Journal :=
  let level := if d.kind = .restriction then Level.warn else Level.debug
  { diagnostics := journal.diagnostics.push d
    events := journal.events.push ⟨level, d.display, []⟩ }

/-- Nothing was reported, restrictions included. -/
def clean (journal : Journal) : Bool := journal.diagnostics.isEmpty

end Journal

end TriangleTam
