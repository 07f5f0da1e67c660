import TriangleTam.Diagnostic.Cause
import TriangleTam.Span
import TriangleTam.Text.Blank
import TriangleTam.Text.Line

/-! # Diagnostics

  A **diagnostic** says what is wrong with a program and where. Its wording
  is a template with at most one slot, written `%`, for the spelling it is
  about. Diagnostics other than restrictions are shown with the source line
  they start on.
-/

namespace TriangleTam

/-- The four sources of diagnostics. -/
inductive DiagnosticKind
  /-- The text is not a sentence of the grammar. -/
  | syntactic
  /-- A name, a type or a parameter list is used wrongly. -/
  | semantic
  /-- A limit of the target machine is exceeded; code generation goes on. -/
  | restriction
  /-- A pass met a tree that an earlier pass should have ruled out. -/
  | internal
  deriving DecidableEq, Repr

/-- What is wrong, and where. -/
structure Diagnostic where
  kind     : DiagnosticKind
  /-- The wording, with `%` where the token belongs. -/
  template : String
  /-- The spelling the diagnostic is about, or nothing. -/
  token    : String
  span     : Span
  deriving DecidableEq, Repr

namespace Diagnostic

/-! ## Making diagnostics -/

def ofSyntactic (cause : SyntacticCause) (token : String) (span : Span) : Diagnostic :=
  ⟨.syntactic, cause.template, token, span⟩

def ofSemantic (cause : SemanticCause) (token : String) (span : Span) : Diagnostic :=
  ⟨.semantic, cause.template, token, span⟩

def ofInternal (cause : InternalCause) (token : String) (span : Span) : Diagnostic :=
  ⟨.internal, cause.template, token, span⟩

/-- A restriction concerns the whole program and has no place in it. -/
def ofRestriction (message : String) : Diagnostic :=
  ⟨.restriction, message, "", Span.nowhere⟩

/-! ## Wording -/

/-- The template with its first `%` replaced. -/
def fill (template token : List Char) : List Char :=
  match template with
  | [] => []
  | c :: cs => if c = '%' then token ++ cs else c :: fill cs token

/-- The template with the token in its slot. -/
def message (d : Diagnostic) : String :=
  String.ofList (fill d.template.toList d.token.toList)

/-- One line that says what is wrong and, except for restrictions, where. -/
def display (d : Diagnostic) : String :=
  match d.kind with
  | .restriction => "RESTRICTION: " ++ d.message
  | .internal => "INTERNAL: " ++ d.message ++ " " ++ d.span.text
  | .syntactic | .semantic => "ERROR: " ++ d.message ++ " " ++ d.span.text

/-- The source line the diagnostic starts on, if there is one to quote. -/
def quotedLine? (d : Diagnostic) (source : String) : Option (List Char) :=
  if d.kind = .restriction ∨ d.span.start = 0 then none
  else (Text.lines source.toList)[d.span.start - 1]?

/-- The diagnostic followed by the source line it starts on. -/
def quoted (d : Diagnostic) (source : String) : String :=
  match d.quotedLine? source with
  | none => d.display
  | some line =>
    d.display ++ "\n " ++ Text.padLeft 4 (Numeral.ofNat d.span.start) ++ " | "
      ++ String.ofList (Text.trimEnd line)

end Diagnostic

end TriangleTam
