import TriangleTam.Check
import TriangleTam.Code.Encode
import TriangleTam.Fold
import TriangleTam.Options
import TriangleTam.Tree.Grammar

/-! # The compiler

  A compilation runs pass by pass: parsing, checking, folding and code
  generation. All passes write into one journal. Checking and folding refuse
  to run once something is reported; code generation does not.
-/

namespace TriangleTam

/-- A compilation between two passes. -/
structure Compiler where
  options : Options
  journal : Journal
  /-- The layouts on record. Those of standard types outlive a program. -/
  layouts : Layouts

/-- A journal that has seen the standard environment. -/
def Journal.start : Journal :=
  Journal.empty.log .debug "standard environment established"
    [("count", Numeral.ofNat Standard.declarations.length)]

namespace Compiler

/-- A compilation before its first pass. -/
def new (options : Options) : Compiler := ⟨options, .start, .empty⟩

/-- What was reported so far, oldest first. -/
def diagnostics (c : Compiler) : Array Diagnostic := c.journal.diagnostics

/-- Nothing was reported so far. -/
def clean (c : Compiler) : Bool := c.journal.clean

/-- Log the start of a pass. -/
def announce (c : Compiler) (pass : String) : Compiler :=
  { c with journal := c.journal.log .info pass [] }

/-! ## Passes -/

/-- Parse a text. There is no program after a syntax error. What is on record
    of an earlier program's layouts is dropped. -/
def parse (c : Compiler) (text : String) : Option Program × Compiler :=
  let c := { c.announce "syntactic analysis" with layouts := c.layouts.standard }
  match Program.parse text with
  | .ok program => (some program, c)
  | .error d => (none, { c with journal := c.journal.report d })

/-- Check a program. -/
def check (c : Compiler) (program : Program) : Program × Compiler :=
  if c.clean then
    let c := c.announce "contextual analysis"
    let checked := program.check c.journal
    (checked.program,
      { c with
        journal := checked.journal.log .debug "bindings created"
          [("bindings", Numeral.ofNat checked.bindings.size)] })
  else (program, c)

/-- Fold a program. Returns how many operations were folded. -/
def fold (c : Compiler) (program : Program) : Program × Nat × Compiler :=
  if c.clean then
    let c := c.announce "constant folding"
    let folded := program.fold c.journal
    (folded.program, folded.folds, { c with journal := folded.journal })
  else (program, 0, c)

/-- Generate code for a program. -/
def encode (c : Compiler) (program : Program) : ObjectProgram × Compiler :=
  let c := c.announce "code generation"
  let encoded := program.encode c.layouts c.options.showTable c.journal
  (encoded.object, { c with journal := encoded.journal, layouts := encoded.layouts })

end Compiler

/-! ## Whole compilations -/

/-- Compile a text. Restrictions are diagnostics too: an object program that
    exceeds a limit of the machine is no result. -/
def compile (text : String) (options : Options) : Except (Array Diagnostic) ObjectProgram :=
  match (Compiler.new options).parse text with
  | (none, c) => .error c.diagnostics
  | (some program, c) =>
    let (program, c) := c.check program
    if !c.clean then .error c.diagnostics
    else
      let (program, c) :=
        if options.folding then
          let (program, _, c) := c.fold program
          (program, c)
        else (program, c)
      let (object, c) := c.encode program
      if c.clean then .ok object else .error c.diagnostics

end TriangleTam
