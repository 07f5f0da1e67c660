import TriangleTam.CommandLine.Arguments
import TriangleTam.CommandLine.Files
import TriangleTam.Compiler
import TriangleTam.Options.File
import TriangleTam.Tree.Statistics

/-! # The command line

  `tc SOURCE` compiles one file. Listings and counts go to standard output,
  everything else to standard error. It ends with 0 after a compilation, with
  1 after diagnostics and with 2 when a file or an argument is no good.

  A run is a function of the arguments and of the files it may ask for. What
  it prints, writes and logs is all in its **outcome**.
-/

namespace TriangleTam.CommandLine

/-- All that a run leaves behind. -/
structure Outcome where
  exitCode : Nat
  stdout   : String := ""
  stderr   : String := ""
  /-- The file it writes. -/
  written  : Option (String × List UInt8) := none
  /-- What is asked for of the log. -/
  log      : List Event := []

def banner : String := "********** Triangle Compiler **********\n"

/-- A line of complaint. -/
def complaint (message : String) : String := "tc: " ++ message ++ "\n"

def versionText : String := "tc 0.1.0\n"

def helpText : String :=
  "Usage: tc [OPTIONS] SOURCE\n\n"
    ++ "  -o, --output FILE          Object file to write [default: obj.tam]\n"
    ++ "      --folding              Fold constants before code generation\n"
    ++ "      --show-table           Log every entity that is laid out\n"
    ++ "      --show-stats           Print node counts of the program\n"
    ++ "      --listing              Print the generated instructions\n"
    ++ "      --listing-format FORM  Form of the listing: text or json\n"
    ++ "      --config FILE          Read options from a JSON file\n"
    ++ "  -v, --verbose              Show more of the log: -v notes, -vv everything\n"
    ++ "  -h, --help                 Print this help\n"
    ++ "  -V, --version              Print the version\n"

/-! ## Options -/

/-- The options of a run: what the arguments or the options file ask for. -/
def options (files : Files) (arguments : Arguments) : Except String Options :=
  let asked : Options := ⟨arguments.folding, arguments.showTable⟩
  match arguments.config with
  | none => .ok asked
  | some path =>
    match files.read path with
    | .error fault => .error ("cannot read options file " ++ path ++ ": " ++ fault.text)
    | .ok text =>
      match Options.ofJson? text with
      | none => .error ("invalid options file " ++ path ++ ": not an options object")
      | some found => .ok (found.merge asked)

/-! ## Compilation -/

/-- What the passes made of a source text. -/
structure Build where
  /-- The counts of the parsed program. -/
  statistics : Option Statistics
  /-- The generated code, if code generation was reached. -/
  object     : Option ObjectProgram
  journal    : Journal

/-- Log how many operations were folded. -/
def announceFolds (c : Compiler) (folds : Nat) : Compiler :=
  { c with
    journal := c.journal.log .info "folded constant expressions"
      [("folds", Numeral.ofNat folds)] }

/-- Run pass after pass, as far as they go. -/
def build (source : String) (options : Options) : Build :=
  match (Compiler.new options).parse source with
  | (none, c) => ⟨none, none, c.journal⟩
  | (some program, c) =>
    let statistics := some program.statistics
    let (program, c) := c.check program
    if c.clean then
      let (program, c) :=
        if c.options.folding then
          let (program, folds, c) := c.fold program
          (program, announceFolds c folds)
        else (program, c)
      let (object, c) := c.encode program
      ⟨statistics, some object, c.journal⟩
    else ⟨statistics, none, c.journal⟩

/-- The object program, unless something was reported on the way to it. -/
def Build.result? (b : Build) : Option ObjectProgram :=
  if b.journal.clean then b.object else none

/-- The diagnostics, each with the line it is about. -/
def Build.report (b : Build) (source : String) : String :=
  String.join (b.journal.diagnostics.toList.map fun d => d.quoted source ++ "\n")

/-- The least level of the log that is shown. -/
def threshold (verbosity : Nat) : Level :=
  match verbosity with
  | 0 => .warn
  | 1 => .info
  | _ => .debug

/-- The part of the log that is shown. -/
def Build.log (b : Build) (verbosity : Nat) : List Event :=
  b.journal.events.toList.filter fun event =>
    (threshold verbosity).weight ≤ event.level.weight

/-! ## Runs -/

/-- The counts, if they are asked for. -/
def countsShown (arguments : Arguments) (b : Build) : String :=
  match b.statistics with
  | some statistics => if arguments.showStats then statistics.text ++ "\n" else ""
  | none => ""

/-- The listing, if it is asked for. -/
def listingShown (arguments : Arguments) (object : ObjectProgram) : String :=
  if arguments.listing then
    match arguments.format with
    | .text => object.listing
    | .json => object.listingJson ++ "\n"
  else ""

/-- Compile a source text and write the object file. -/
def compileSource (files : Files) (arguments : Arguments) (source : String) (options : Options) :
    Outcome :=
  let b := build source options
  let counts := countsShown arguments b
  let said := banner ++ b.report source
  let log := b.log arguments.verbosity
  match b.result? with
  | none =>
    { exitCode := 1
      stdout := counts
      stderr := said ++ "Compilation was unsuccessful.\n"
      log }
  | some object =>
    let shown := counts ++ listingShown arguments object
    match files.refusal arguments.output with
    | some fault =>
      { exitCode := 2
        stdout := shown
        stderr := said ++ complaint
          ("cannot write object file " ++ arguments.output ++ ": " ++ fault.text)
        log }
    | none =>
      { exitCode := 0
        stdout := shown
        stderr := said ++ "Compilation was successful.\n"
        written := some (arguments.output, object.bytes)
        log }

/-- Compile the file that the arguments name. -/
def compileFile (files : Files) (arguments : Arguments) : Outcome :=
  match files.read arguments.source with
  | .error fault =>
    { exitCode := 2
      stderr := complaint ("cannot read " ++ arguments.source ++ ": " ++ fault.text) }
  | .ok source =>
    match options files arguments with
    | .error message => { exitCode := 2, stderr := banner ++ complaint message }
    | .ok options => compileSource files arguments source options

/-- Run the command line. -/
def run (files : Files) (words : List String) : Outcome :=
  match Arguments.parse words with
  | .error fault => { exitCode := 2, stderr := complaint fault.text ++ "\n" ++ helpText }
  | .ok .version => { exitCode := 0, stdout := versionText }
  | .ok .help => { exitCode := 0, stdout := helpText }
  | .ok (.compile arguments) => compileFile files arguments

end TriangleTam.CommandLine
