import TriangleTam.Word
import TriangleTam.Token.Scan
import TriangleTam.Journal
import TriangleTam.Tree
import TriangleTam.Tree.Grammar
import TriangleTam.Code.Entity
import TriangleTam.Code.Object
import TriangleTam.Code.Layout
import TriangleTam.Binding
import TriangleTam.Scope
import TriangleTam.Standard
import TriangleTam.Check
import TriangleTam.Fold
import TriangleTam.Tree.Statistics
import TriangleTam.Code.Encode
import TriangleTam.Tree.Outline
import TriangleTam.Options.File
import TriangleTam.Compiler
import TriangleTam.CommandLine
import TriangleTam.Main
import TriangleTam.Proofs.Typing.Denoter
import TriangleTam.Proofs.Typing.Environment
import TriangleTam.Proofs.Typing.Rules
import TriangleTam.Proofs.Typing.Steps
import TriangleTam.Proofs.Typing.Decoration
import TriangleTam.Proofs.Typing.Known
import TriangleTam.Proofs.Typing.Routine
import TriangleTam.Proofs.Typing.Written
import TriangleTam.Proofs.Typing.Complete
import TriangleTam.Proofs.Typing.Sound
import TriangleTam.Proofs.Typing.Exact
import TriangleTam.Proofs.Coding.Emission
import TriangleTam.Proofs.Coding.Scheme
import TriangleTam.Proofs.Coding.Runs
import TriangleTam.Proofs.Coding.Calls
import TriangleTam.Proofs.Coding.Representation
import TriangleTam.Proofs.Coding.Commands
import TriangleTam.Proofs.Coding.Expressions
import TriangleTam.Proofs.Coding.Vnames
import TriangleTam.Proofs.Coding.Declarations
import TriangleTam.Proofs.Coding.Routines
import TriangleTam.Proofs.Coding.Encoding
import TriangleTam.Proofs.Typing.Folded
import TriangleTam.Proofs.Coding.Object
import TriangleTam.Proofs.Compilation
import TriangleTam.Proofs.Coding.Effects
import TriangleTam.Proofs.StackDiscipline
import TriangleTam.Proofs.Meaning.Source
import TriangleTam.Proofs.Meaning.Folding
import TriangleTam.Proofs.Parsing.Positions
import TriangleTam.Proofs.Parsing.Rules
import TriangleTam.Proofs.Parsing.Derivations
import TriangleTam.Proofs.Parsing.Reading
import TriangleTam.Proofs.Parsing.Exact
import TriangleTam.Proofs.Coding.Walk
import TriangleTam.Proofs.Coding.Introduced
import TriangleTam.Proofs.Coding.Separation
import TriangleTam.Proofs.Coding.Paths
import TriangleTam.Proofs.StorageSeparation
import TriangleTam.Proofs.LexicalScoping
import TriangleTam.Proofs.DuplicateDeclarations
import TriangleTam.Proofs.StaticLinks
import TriangleTam.Proofs.ControlFlow
import TriangleTam.Proofs.ExactLimits
import TriangleTam.Proofs.Recast.Tree
import TriangleTam.Proofs.Recast.Encoding
import TriangleTam.Proofs.RepeatedEncoding
import TriangleTam.Proofs.Folding.Pace
import TriangleTam.Proofs.Folding.Entities
import TriangleTam.Proofs.Folding.Subscripts
import TriangleTam.Proofs.Folding.Constructs
import TriangleTam.Proofs.Folding.Places
import TriangleTam.Proofs.Folding.Declarations
import TriangleTam.Proofs.Folding.Trees
import TriangleTam.Proofs.FoldedCode
import TriangleTam.Proofs.Folding.Operations
import TriangleTam.Proofs.NormalForm
import TriangleTam.Proofs.Folding.Chains
import TriangleTam.Proofs.Recast.Bindings
import TriangleTam.Proofs.Rechecking.Retyping
import TriangleTam.Proofs.RepeatedChecking
import TriangleTam.Proofs.Recast.Renaming
import TriangleTam.Proofs.Recast.Parsing
import TriangleTam.Proofs.Recast.Checking
import TriangleTam.Proofs.Recast.Folding
import TriangleTam.Proofs.Renaming
import TriangleTam.Proofs.Refusal
import TriangleTam.Proofs.Scanning.Exact
import TriangleTam.Proofs.Printing.RoundTrip
import TriangleTam.Proofs.EarliestError
import TriangleTam.Proofs.LiteralArithmetic
import TriangleTam.Proofs.Misspelling
import TriangleTam.Proofs.CallAgreement
import TriangleTam.Proofs.CodeMeaning
import TriangleTam.Proofs.CodeStore
import TriangleTam.Proofs.Listing
import TriangleTam.Proofs.TypeEquivalence
import TriangleTam.Proofs.StorageAccess
import TriangleTam.Proofs.CommandLineRuns
import TriangleTam.Proofs.SourceSpans
import TriangleTam.Proofs.LineQuotation
import TriangleTam.Proofs.FieldNames
import TriangleTam.Proofs.ArityChecking
import TriangleTam.Proofs.ScopeCalls
import TriangleTam.Proofs.ObjectBytes
import TriangleTam.Proofs.LiteralValues
