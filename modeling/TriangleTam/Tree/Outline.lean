import TriangleTam.Code.Layout
import TriangleTam.Tree

/-! # Outlines of trees

  The whole tree of a program on one line, with its decorations: each node in
  parentheses, with its lines after an `@`, and its parts after it. A type
  denoter shows the entity of its layout in braces, a name shows the number
  of its binding after a `#`, and a hyphen stands for what is missing.
-/

namespace TriangleTam.Outline

/-! ## Leaves -/

def spanText (span : Span) : String := "@" ++ span.text

/-- A node: its head and its parts. -/
def node (head : String) (parts : List String) : String :=
  "(" ++ String.intercalate " " (head :: parts) ++ ")"

def nameText (name : Name) : String :=
  name.spelling ++ spanText name.span ++ "#" ++
    (match name.binding with
     | some id => Numeral.ofNat id
     | none => "-")

def typeText (type : Option TypeDenoter) : String :=
  match type with
  | some type => "[" ++ type.text ++ "]"
  | none => "[-]"

def entityText (entity : Option Entity) : String :=
  match entity with
  | some entity => "\x7b" ++ entity.text ++ "\x7d"
  | none => "\x7b-\x7d"

def duplicatedText (duplicated : Bool) : String := if duplicated then " dup" else ""

/-! ## Type denoters -/

mutual

def typeDenoter (layouts : Layouts) (type : TypeDenoter) : String :=
  match type with
  | .boolean => standard layouts "Bool" .boolean
  | .character => standard layouts "Char" .character
  | .integer => standard layouts "Int" .integer
  | .any => standard layouts "Any" .any
  | .error => standard layouts "Error" .error
  | .named span name => node ("Simple" ++ spanText span ++ entityText none) [nameText name]
  | .array serial span length element =>
    node ("Array" ++ spanText span
        ++ entityText (layouts.entity? (.array serial span length element)))
      [length.spelling ++ spanText length.span, typeDenoter layouts element]
  | .record serial span fields =>
    let entity := layouts.entity? (.record serial span fields)
    node ("Record" ++ spanText span ++ entityText entity)
      [fieldTypes layouts entity.isSome 0 fields]
where
  standard (layouts : Layouts) (head : String) (type : TypeDenoter) : String :=
    node (head ++ spanText Span.nowhere ++ entityText (layouts.entity? type)) []

/-- The fields from `offset` on, of a record that is laid out or is not. -/
def fieldTypes (layouts : Layouts) (laidOut : Bool) (offset : Int) (fields : Fields) : String :=
  match fields with
  | .one span name type =>
    node ("one" ++ spanText span ++ fieldText laidOut type.size offset)
      [nameText name, typeDenoter layouts type]
  | .more span name type rest =>
    node ("more" ++ spanText span ++ fieldText laidOut type.size offset)
      [nameText name, typeDenoter layouts type,
       fieldTypes layouts laidOut (Word.clamp (offset + type.size)) rest]
where
  fieldText (laidOut : Bool) (size offset : Int) : String :=
    entityText (if laidOut then some (.field size offset) else none)

end

/-! ## Formal parameters -/

mutual

def formal (layouts : Layouts) (parameter : Formal) : String :=
  match parameter with
  | .const span duplicated name type =>
    node ("const" ++ spanText span ++ duplicatedText duplicated)
      [nameText name, typeDenoter layouts type]
  | .var span duplicated name type =>
    node ("var" ++ spanText span ++ duplicatedText duplicated)
      [nameText name, typeDenoter layouts type]
  | .proc span duplicated name inner =>
    node ("proc" ++ spanText span ++ duplicatedText duplicated)
      [nameText name, formals layouts inner]
  | .func span duplicated name inner result =>
    node ("func" ++ spanText span ++ duplicatedText duplicated)
      [nameText name, formals layouts inner, typeDenoter layouts result]

def formals (layouts : Layouts) (parameters : Formals) : String :=
  match parameters with
  | .empty span => node ("none" ++ spanText span) []
  | .one span first => node ("one" ++ spanText span) [formal layouts first]
  | .more span first rest =>
    node ("more" ++ spanText span) [formal layouts first, formals layouts rest]

end

/-! ## Commands, expressions and declarations -/

mutual

def command (layouts : Layouts) (c : Command) : String :=
  match c with
  | .empty span => node ("empty" ++ spanText span) []
  | .assign span target value =>
    node ("assign" ++ spanText span) [vname layouts target, expression layouts value]
  | .call span callee args =>
    node ("call" ++ spanText span) [nameText callee, actuals layouts args]
  | .sequence span first second =>
    node ("seq" ++ spanText span) [command layouts first, command layouts second]
  | .letIn span declared body =>
    node ("let" ++ spanText span) [declaration layouts declared, command layouts body]
  | .ifElse span condition thenBranch elseBranch =>
    node ("if" ++ spanText span)
      [expression layouts condition, command layouts thenBranch, command layouts elseBranch]
  | .whileDo span condition body =>
    node ("while" ++ spanText span) [expression layouts condition, command layouts body]
  | .repeatUntil span body condition =>
    node ("repeat" ++ spanText span) [command layouts body, expression layouts condition]
  | .loopWhile span body condition tail =>
    node ("loop" ++ spanText span)
      [command layouts body, expression layouts condition, command layouts tail]

def expression (layouts : Layouts) (e : Expression) : String :=
  match e with
  | .integer span type literal =>
    node ("int" ++ spanText span ++ typeText type) [literal.spelling ++ spanText literal.span]
  | .character span type literal =>
    node ("char" ++ spanText span ++ typeText type)
      [Numeral.ofInt literal.value ++ spanText literal.span]
  | .vname span type found => node ("name" ++ spanText span ++ typeText type) [vname layouts found]
  | .call span type callee args =>
    node ("call" ++ spanText span ++ typeText type) [nameText callee, actuals layouts args]
  | .ifElse span type condition thenBranch elseBranch =>
    node ("if" ++ spanText span ++ typeText type)
      [expression layouts condition, expression layouts thenBranch,
       expression layouts elseBranch]
  | .letIn span type declared body =>
    node ("let" ++ spanText span ++ typeText type)
      [declaration layouts declared, expression layouts body]
  | .unary span type operator operand =>
    node ("unary" ++ spanText span ++ typeText type)
      [nameText operator, expression layouts operand]
  | .binary span type left operator right =>
    node ("binary" ++ spanText span ++ typeText type)
      [expression layouts left, nameText operator, expression layouts right]
  | .array span type elements =>
    node ("array" ++ spanText span ++ typeText type) [arrayAggregate layouts elements]
  | .record span type fields =>
    node ("record" ++ spanText span ++ typeText type) [recordAggregate layouts fields]

def arrayAggregate (layouts : Layouts) (elements : ArrayAggregate) : String :=
  match elements with
  | .one span element => node ("one" ++ spanText span) [expression layouts element]
  | .more span element rest =>
    node ("more" ++ spanText span) [expression layouts element, arrayAggregate layouts rest]

def recordAggregate (layouts : Layouts) (fields : RecordAggregate) : String :=
  match fields with
  | .one span field value =>
    node ("one" ++ spanText span) [nameText field, expression layouts value]
  | .more span field value rest =>
    node ("more" ++ spanText span)
      [nameText field, expression layouts value, recordAggregate layouts rest]

def vname (layouts : Layouts) (v : Vname) : String :=
  match v with
  | .simple span type isVariable name =>
    node ("simple" ++ spanText span ++ typeText type ++ variableText isVariable) [nameText name]
  | .dot span type isVariable record field =>
    node ("dot" ++ spanText span ++ typeText type ++ variableText isVariable)
      [vname layouts record, nameText field]
  | .subscript span type isVariable array index =>
    node ("sub" ++ spanText span ++ typeText type ++ variableText isVariable)
      [vname layouts array, expression layouts index]
where
  variableText (isVariable : Bool) : String := if isVariable then "!" else ""

def declaration (layouts : Layouts) (d : Declaration) : String :=
  match d with
  | .const span duplicated name value =>
    node ("const" ++ spanText span ++ duplicatedText duplicated)
      [nameText name, expression layouts value]
  | .var span duplicated name type =>
    node ("var" ++ spanText span ++ duplicatedText duplicated)
      [nameText name, typeDenoter layouts type]
  | .proc span duplicated name parameters body =>
    node ("proc" ++ spanText span ++ duplicatedText duplicated)
      [nameText name, formals layouts parameters, command layouts body]
  | .func span duplicated name parameters result body =>
    node ("func" ++ spanText span ++ duplicatedText duplicated)
      [nameText name, formals layouts parameters, typeDenoter layouts result,
       expression layouts body]
  | .type span duplicated name type =>
    node ("type" ++ spanText span ++ duplicatedText duplicated)
      [nameText name, typeDenoter layouts type]
  | .sequence span first second =>
    node ("seq" ++ spanText span) [declaration layouts first, declaration layouts second]

def actuals (layouts : Layouts) (args : Actuals) : String :=
  match args with
  | .empty span => node ("none" ++ spanText span) []
  | .one span first => node ("one" ++ spanText span) [actual layouts first]
  | .more span first rest =>
    node ("more" ++ spanText span) [actual layouts first, actuals layouts rest]

def actual (layouts : Layouts) (arg : Actual) : String :=
  match arg with
  | .const span value => node ("const" ++ spanText span) [expression layouts value]
  | .var span found => node ("var" ++ spanText span) [vname layouts found]
  | .proc span name => node ("proc" ++ spanText span) [nameText name]
  | .func span name => node ("func" ++ spanText span) [nameText name]

end

end TriangleTam.Outline

namespace TriangleTam

/-- The outline of a program, with the layouts on record. -/
def Program.outline (program : Program) (layouts : Layouts) : String :=
  Outline.node ("program" ++ Outline.spanText program.span)
    [Outline.command layouts program.command]

end TriangleTam
