/-! # Options of a compilation -/

namespace TriangleTam

/-- The switches of a compilation. Everything is off unless it is asked for. -/
structure Options where
  /-- Fold constants before code generation. -/
  folding   : Bool := false
  /-- Log every entity that code generation lays out. -/
  showTable : Bool := false
  deriving DecidableEq, Repr

namespace Options

/-- What either asks for. -/
def merge (a b : Options) : Options :=
  ⟨a.folding || b.folding, a.showTable || b.showTable⟩

/-- The options as a JSON object. -/
def json (options : Options) : String :=
  let value (b : Bool) := if b then "true" else "false"
  "\x7b\"folding\":" ++ value options.folding
    ++ ",\"show_table\":" ++ value options.showTable ++ "\x7d"

end Options

end TriangleTam
