import TriangleTam.Tree.Grammar

/-! # Nodes of a tree

  A tree is made of **nodes** of many kinds, each with a span. A node is
  written as a sequence of **parts**: tokens and other nodes, its children.
  Names and literals are nodes too, each with a token of its own.

  The parts are those of the notation. Grouping brackets leave no node and are
  no parts, and neither is the mark of the doubling, which stands for a node
  that is written in another way.
-/

namespace TriangleTam

/-! ## Spans of nodes -/

def TypeDenoter.span : TypeDenoter → Span
  | named span _ | array _ span .. | record _ span _ => span
  | boolean | character | integer | any | error => .nowhere

def Fields.span : Fields → Span
  | one span .. | more span .. => span

def Formal.span : Formal → Span
  | const span .. | var span .. | proc span .. | func span .. => span

def Formals.span : Formals → Span
  | empty span | one span _ | more span .. => span

def ArrayAggregate.span : ArrayAggregate → Span
  | one span _ | more span .. => span

def RecordAggregate.span : RecordAggregate → Span
  | one span .. | more span .. => span

def Declaration.span : Declaration → Span
  | const span .. | var span .. | proc span .. | func span .. | type span ..
  | sequence span .. => span

def Actuals.span : Actuals → Span
  | empty span | one span _ | more span .. => span

namespace Spans

/-! ## Nodes and their parts -/

/-- A node of a tree. -/
inductive Node
  | program (program : Program)
  | command (command : Command)
  | expression (expression : Expression)
  | vname (vname : Vname)
  | declaration (declaration : Declaration)
  | elements (elements : ArrayAggregate)
  | values (fields : RecordAggregate)
  | actuals (actuals : Actuals)
  | actual (actual : Actual)
  | formals (formals : Formals)
  | formal (formal : Formal)
  | type (type : TypeDenoter)
  | fields (fields : Fields)
  /-- An identifier or an operator. -/
  | name (kind : TokenKind) (name : Name)
  | integer (literal : IntegerLiteral)
  | character (literal : CharacterLiteral)

/-- What a node is written with. -/
inductive Part
  /-- A token of a kind that has one spelling. -/
  | mark (kind : TokenKind)
  /-- A token with a spelling. -/
  | word (kind : TokenKind) (spelling : String)
  /-- A child. -/
  | node (node : Node)
  /-- A list of parameters, perhaps an empty one, and the parenthesis behind it. -/
  | parameters (node : Node)

namespace Node

def span : Node → Span
  | program found => found.span
  | command found => found.span
  | expression found => found.span
  | vname found => found.span
  | declaration found => found.span
  | elements found => found.span
  | values found => found.span
  | actuals found => found.span
  | actual found => found.span
  | formals found => found.span
  | formal found => found.span
  | type found => found.span
  | fields found => found.span
  | name _ found => found.span
  | integer literal => literal.span
  | character literal => literal.span

abbrev identifier (found : Name) : Node := .name .identifier found

/-- How a node is written, without brackets around it. -/
def parts : Node → List Part
  | program found => [.node (command found.command)]
  -- commands
  | command (.empty _) => []
  | command (.assign _ target value) =>
    [.node (vname target), .mark .becomes, .node (expression value)]
  | command (.call _ callee args) =>
    [.node (identifier callee), .mark .leftParen, .parameters (actuals args)]
  | command (.sequence _ first second) =>
    [.node (command first), .mark .semicolon, .node (command second)]
  | command (.letIn _ declared body) =>
    [.mark .letWord, .node (declaration declared), .mark .inWord, .node (command body)]
  | command (.ifElse _ condition thenBranch elseBranch) =>
    [.mark .ifWord, .node (expression condition), .mark .thenWord, .node (command thenBranch),
      .mark .elseWord, .node (command elseBranch)]
  | command (.whileDo _ condition body) =>
    [.mark .whileWord, .node (expression condition), .mark .doWord, .node (command body)]
  | command (.repeatUntil _ body condition) =>
    [.mark .repeatWord, .node (command body), .mark .untilWord, .node (expression condition)]
  | command (.loopWhile _ body condition tail) =>
    [.mark .loopWord, .node (command body), .mark .whileWord, .node (expression condition),
      .mark .doWord, .node (command tail)]
  -- expressions
  | expression (.integer _ _ literal) => [.node (integer literal)]
  | expression (.character _ _ literal) => [.node (character literal)]
  | expression (.vname _ _ found) => [.node (vname found)]
  | expression (.call _ _ callee args) =>
    [.node (identifier callee), .mark .leftParen, .parameters (actuals args)]
  | expression (.ifElse _ _ condition thenBranch elseBranch) =>
    [.mark .ifWord, .node (expression condition), .mark .thenWord,
      .node (expression thenBranch), .mark .elseWord, .node (expression elseBranch)]
  | expression (.letIn _ _ declared body) =>
    [.mark .letWord, .node (declaration declared), .mark .inWord, .node (expression body)]
  | expression (.unary _ _ op operand) => [.node (name .operator op), .node (expression operand)]
  | expression (.binary _ _ left op right) =>
    [.node (expression left), .node (name .operator op), .node (expression right)]
  | expression (.array _ _ listed) =>
    [.mark .leftBracket, .node (elements listed), .mark .rightBracket]
  | expression (.record _ _ listed) =>
    [.mark .leftCurly, .node (values listed), .mark .rightCurly]
  -- parts of expressions
  | elements (.one _ element) => [.node (expression element)]
  | elements (.more _ element rest) =>
    [.node (expression element), .mark .comma, .node (elements rest)]
  | values (.one _ field value) =>
    [.node (identifier field), .mark .is, .node (expression value)]
  | values (.more _ field value rest) =>
    [.node (identifier field), .mark .is, .node (expression value), .mark .comma,
      .node (values rest)]
  | vname (.simple _ _ _ found) => [.node (identifier found)]
  | vname (.dot _ _ _ record field) =>
    [.node (vname record), .mark .dot, .node (identifier field)]
  | vname (.subscript _ _ _ array index) =>
    [.node (vname array), .mark .leftBracket, .node (expression index), .mark .rightBracket]
  -- declarations
  | declaration (.const _ _ declared value) =>
    [.mark .constWord, .node (identifier declared), .mark .is, .node (expression value)]
  | declaration (.var _ _ declared denoter) =>
    [.mark .varWord, .node (identifier declared), .mark .colon, .node (type denoter)]
  | declaration (.proc _ _ declared listed body) =>
    [.mark .procWord, .node (identifier declared), .mark .leftParen,
      .parameters (formals listed), .mark .is, .node (command body)]
  | declaration (.func _ _ declared listed result body) =>
    [.mark .funcWord, .node (identifier declared), .mark .leftParen,
      .parameters (formals listed), .mark .colon, .node (type result), .mark .is,
      .node (expression body)]
  | declaration (.type _ _ declared denoter) =>
    [.mark .typeWord, .node (identifier declared), .mark .is, .node (type denoter)]
  | declaration (.sequence _ first second) =>
    [.node (declaration first), .mark .semicolon, .node (declaration second)]
  -- parameters
  | formals (.empty _) => []
  | formals (.one _ first) => [.node (formal first)]
  | formals (.more _ first rest) =>
    [.node (formal first), .mark .comma, .node (formals rest)]
  | formal (.const _ _ declared denoter) =>
    [.node (identifier declared), .mark .colon, .node (type denoter)]
  | formal (.var _ _ declared denoter) =>
    [.mark .varWord, .node (identifier declared), .mark .colon, .node (type denoter)]
  | formal (.proc _ _ declared listed) =>
    [.mark .procWord, .node (identifier declared), .mark .leftParen,
      .parameters (formals listed)]
  | formal (.func _ _ declared listed result) =>
    [.mark .funcWord, .node (identifier declared), .mark .leftParen,
      .parameters (formals listed), .mark .colon, .node (type result)]
  | actuals (.empty _) => []
  | actuals (.one _ first) => [.node (actual first)]
  | actuals (.more _ first rest) =>
    [.node (actual first), .mark .comma, .node (actuals rest)]
  | actual (.const _ value) => [.node (expression value)]
  | actual (.var _ found) => [.mark .varWord, .node (vname found)]
  | actual (.proc _ passed) => [.mark .procWord, .node (identifier passed)]
  | actual (.func _ passed) => [.mark .funcWord, .node (identifier passed)]
  -- type denoters
  | type (.named _ found) => [.node (identifier found)]
  | type (.array _ _ length element) =>
    [.mark .arrayWord, .node (integer length), .mark .ofWord, .node (type element)]
  | type (.record _ _ listed) => [.mark .recordWord, .node (fields listed), .mark .endWord]
  | type .boolean | type .character | type .integer | type .any | type .error => []
  | fields (.one _ field denoter) =>
    [.node (identifier field), .mark .colon, .node (type denoter)]
  | fields (.more _ field denoter rest) =>
    [.node (identifier field), .mark .colon, .node (type denoter), .mark .comma,
      .node (fields rest)]
  -- names and literals
  | name kind found => [.word kind found.spelling]
  | integer literal => [.word .intLiteral literal.spelling]
  | character literal => [.word .charLiteral literal.spelling]

end Node

/-! ## Children -/

/-- The nodes among parts, from the left. -/
def Part.nodes : List Part → List Node
  | [] => []
  | .node child :: parts | .parameters child :: parts => child :: nodes parts
  | .mark _ :: parts | .word .. :: parts => nodes parts

namespace Node

/-- The nodes right below a node, as they stand in the text. -/
def children (node : Node) : List Node := Part.nodes node.parts

/-- The nodes of a tree, its root among them. -/
inductive Has : Node → Node → Prop
  | root (node : Node) : Has node node
  | inside {node child inner : Node} (below : child ∈ node.children) (has : Has child inner) :
      Has node inner

/-- The node is a command that is written with nothing. -/
def IsEmptyCommand (node : Node) : Prop := ∃ span, node = .command (.empty span)

end Node

end Spans

end TriangleTam
