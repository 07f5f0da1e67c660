import TriangleTam.Proofs.Parsing.Positions
import TriangleTam.Token

/-! # The grammar

  The productions of the language, each with the tree that it builds. A
  phrase is a sequence of tokens; what continues a phrase that has begun is a
  phrase of its own, and stands for a function on what was built before. So
  chains lean to the left, and `begin … end`, braces around commands and
  parentheses around expressions build what is inside of them.

  All is context free, but for one thing: an empty command is allowed only
  where one of a few tokens comes next.
-/

namespace TriangleTam.Parsing

/-! ## Phrases -/

inductive Nonterminal
  | command | singleCommand | expression | primary | declaration | singleDeclaration
  | formals | someFormals | formal | actuals | someActuals | actual | type | fields
  | elements | fieldValues
  -- what continues a phrase
  /-- More commands, after semicolons. -/
  | commands
  /-- The rest of a command that starts with an identifier. -/
  | ledCommand
  /-- The rest of a command after the variable that it changes. -/
  | assignment
  /-- The selections and subscripts of a vname. -/
  | path
  /-- More operations. -/
  | operations
  /-- The rest of a primary expression that starts with an identifier. -/
  | ledPrimary
  /-- More declarations, after semicolons. -/
  | declarations
  -- what follows an item of a list
  | formalsRest | actualsRest | fieldsRest | elementsRest | fieldValuesRest
  deriving DecidableEq

/-- What a phrase builds. -/
def Nonterminal.Value : Nonterminal → Type
  | command | singleCommand => Command
  | expression | primary => Expression
  | declaration | singleDeclaration => Declaration
  | formals | someFormals => Formals
  | formal => Formal
  | actuals | someActuals => Actuals
  | actual => Actual
  | type => TypeDenoter
  | fields => Fields
  | elements => ArrayAggregate
  | fieldValues => RecordAggregate
  | commands => Command → Command
  | ledCommand => Name → Command
  | assignment => Vname → Command
  | path => Vname → Vname
  | operations => Expression → Expression
  | ledPrimary => Name → Expression
  | declarations => Declaration → Declaration
  | formalsRest => Formal → Formals
  | actualsRest => Actual → Actuals
  | fieldsRest => Name → TypeDenoter → Fields
  | elementsRest => Expression → ArrayAggregate
  | fieldValuesRest => Name → Expression → RecordAggregate

/-- A part of a production. -/
inductive Piece
  | token (kind : TokenKind)
  | phrase (nonterminal : Nonterminal)
  deriving DecidableEq

def Piece.Value : Piece → Type
  | token _ => Token
  | phrase nonterminal => nonterminal.Value

/-- What the parts of a production build. -/
def Values : List Piece → Type
  | [] => Unit
  | piece :: pieces => piece.Value × Values pieces

/-! ## Productions -/

/-- The productions of a phrase. -/
inductive Rule : Nonterminal → Type
  | command           : Rule .command
  | noMoreCommands    : Rule .commands
  | moreCommands      : Rule .commands
  | emptyCommand      : Rule .singleCommand
  | ledCommand        : Rule .singleCommand
  | beginEnd          : Rule .singleCommand
  | braces            : Rule .singleCommand
  | letCommand        : Rule .singleCommand
  | ifCommand         : Rule .singleCommand
  | whileCommand      : Rule .singleCommand
  | repeatCommand     : Rule .singleCommand
  | loopCommand       : Rule .singleCommand
  | callCommand       : Rule .ledCommand
  | change            : Rule .ledCommand
  | becomes           : Rule .assignment
  | doubling          : Rule .assignment
  | noPath            : Rule .path
  | dot               : Rule .path
  | subscript         : Rule .path
  | letExpression     : Rule .expression
  | ifExpression      : Rule .expression
  | operation         : Rule .expression
  | noOperations      : Rule .operations
  | moreOperations    : Rule .operations
  | integer           : Rule .primary
  | character         : Rule .primary
  | array             : Rule .primary
  | record            : Rule .primary
  | ledPrimary        : Rule .primary
  | unary             : Rule .primary
  | parentheses       : Rule .primary
  | callExpression    : Rule .ledPrimary
  | vname             : Rule .ledPrimary
  | elements          : Rule .elements
  | lastElement       : Rule .elementsRest
  | moreElements      : Rule .elementsRest
  | fieldValues       : Rule .fieldValues
  | lastFieldValue    : Rule .fieldValuesRest
  | moreFieldValues   : Rule .fieldValuesRest
  | declaration       : Rule .declaration
  | noMoreDeclarations : Rule .declarations
  | moreDeclarations  : Rule .declarations
  | constDeclaration  : Rule .singleDeclaration
  | varDeclaration    : Rule .singleDeclaration
  | procDeclaration   : Rule .singleDeclaration
  | funcDeclaration   : Rule .singleDeclaration
  | typeDeclaration   : Rule .singleDeclaration
  | noFormals         : Rule .formals
  | formals           : Rule .formals
  | someFormals       : Rule .someFormals
  | lastFormal        : Rule .formalsRest
  | moreFormals       : Rule .formalsRest
  | constFormal       : Rule .formal
  | varFormal         : Rule .formal
  | procFormal        : Rule .formal
  | funcFormal        : Rule .formal
  | noActuals         : Rule .actuals
  | actuals           : Rule .actuals
  | someActuals       : Rule .someActuals
  | lastActual        : Rule .actualsRest
  | moreActuals       : Rule .actualsRest
  | constActual       : Rule .actual
  | varActual         : Rule .actual
  | procActual        : Rule .actual
  | funcActual        : Rule .actual
  | namedType         : Rule .type
  | arrayType         : Rule .type
  | recordType        : Rule .type
  | fields            : Rule .fields
  | lastField         : Rule .fieldsRest
  | moreFields        : Rule .fieldsRest
  deriving DecidableEq

namespace Rule

open Piece in
/-- The parts of a production, in order. -/
def body : {N : Nonterminal} → Rule N → List Piece
  | _, command => [phrase .singleCommand, phrase .commands]
  | _, noMoreCommands => []
  | _, moreCommands => [token .semicolon, phrase .singleCommand, phrase .commands]
  | _, emptyCommand => []
  | _, ledCommand => [token .identifier, phrase .ledCommand]
  | _, beginEnd => [token .beginWord, phrase .command, token .endWord]
  | _, braces => [token .leftCurly, phrase .command, token .rightCurly]
  | _, letCommand =>
    [token .letWord, phrase .declaration, token .inWord, phrase .singleCommand]
  | _, ifCommand =>
    [token .ifWord, phrase .expression, token .thenWord, phrase .singleCommand,
      token .elseWord, phrase .singleCommand]
  | _, whileCommand =>
    [token .whileWord, phrase .expression, token .doWord, phrase .singleCommand]
  | _, repeatCommand =>
    [token .repeatWord, phrase .singleCommand, token .untilWord, phrase .expression]
  | _, loopCommand =>
    [token .loopWord, phrase .singleCommand, token .whileWord, phrase .expression,
      token .doWord, phrase .singleCommand]
  | _, callCommand => [token .leftParen, phrase .actuals, token .rightParen]
  | _, change => [phrase .path, phrase .assignment]
  | _, becomes => [token .becomes, phrase .expression]
  | _, doubling => [token .doubleOperator]
  | _, noPath => []
  | _, dot => [token .dot, token .identifier, phrase .path]
  | _, subscript =>
    [token .leftBracket, phrase .expression, token .rightBracket, phrase .path]
  | _, letExpression =>
    [token .letWord, phrase .declaration, token .inWord, phrase .expression]
  | _, ifExpression =>
    [token .ifWord, phrase .expression, token .thenWord, phrase .expression,
      token .elseWord, phrase .expression]
  | _, operation => [phrase .primary, phrase .operations]
  | _, noOperations => []
  | _, moreOperations => [token .operator, phrase .primary, phrase .operations]
  | _, integer => [token .intLiteral]
  | _, character => [token .charLiteral]
  | _, array => [token .leftBracket, phrase .elements, token .rightBracket]
  | _, record => [token .leftCurly, phrase .fieldValues, token .rightCurly]
  | _, ledPrimary => [token .identifier, phrase .ledPrimary]
  | _, unary => [token .operator, phrase .primary]
  | _, parentheses => [token .leftParen, phrase .expression, token .rightParen]
  | _, callExpression => [token .leftParen, phrase .actuals, token .rightParen]
  | _, vname => [phrase .path]
  | _, elements => [phrase .expression, phrase .elementsRest]
  | _, lastElement => []
  | _, moreElements => [token .comma, phrase .elements]
  | _, fieldValues =>
    [token .identifier, token .is, phrase .expression, phrase .fieldValuesRest]
  | _, lastFieldValue => []
  | _, moreFieldValues => [token .comma, phrase .fieldValues]
  | _, declaration => [phrase .singleDeclaration, phrase .declarations]
  | _, noMoreDeclarations => []
  | _, moreDeclarations =>
    [token .semicolon, phrase .singleDeclaration, phrase .declarations]
  | _, constDeclaration =>
    [token .constWord, token .identifier, token .is, phrase .expression]
  | _, varDeclaration => [token .varWord, token .identifier, token .colon, phrase .type]
  | _, procDeclaration =>
    [token .procWord, token .identifier, token .leftParen, phrase .formals,
      token .rightParen, token .is, phrase .singleCommand]
  | _, funcDeclaration =>
    [token .funcWord, token .identifier, token .leftParen, phrase .formals,
      token .rightParen, token .colon, phrase .type, token .is, phrase .expression]
  | _, typeDeclaration => [token .typeWord, token .identifier, token .is, phrase .type]
  | _, noFormals => []
  | _, formals => [phrase .someFormals]
  | _, someFormals => [phrase .formal, phrase .formalsRest]
  | _, lastFormal => []
  | _, moreFormals => [token .comma, phrase .someFormals]
  | _, constFormal => [token .identifier, token .colon, phrase .type]
  | _, varFormal => [token .varWord, token .identifier, token .colon, phrase .type]
  | _, procFormal =>
    [token .procWord, token .identifier, token .leftParen, phrase .formals, token .rightParen]
  | _, funcFormal =>
    [token .funcWord, token .identifier, token .leftParen, phrase .formals,
      token .rightParen, token .colon, phrase .type]
  | _, noActuals => []
  | _, actuals => [phrase .someActuals]
  | _, someActuals => [phrase .actual, phrase .actualsRest]
  | _, lastActual => []
  | _, moreActuals => [token .comma, phrase .someActuals]
  | _, constActual => [phrase .expression]
  | _, varActual => [token .varWord, token .identifier, phrase .path]
  | _, procActual => [token .procWord, token .identifier]
  | _, funcActual => [token .funcWord, token .identifier]
  | _, namedType => [token .identifier]
  | _, arrayType => [token .arrayWord, token .intLiteral, token .ofWord, phrase .type]
  | _, recordType => [token .recordWord, phrase .fields, token .endWord]
  | _, fields => [token .identifier, token .colon, phrase .type, phrase .fieldsRest]
  | _, lastField => []
  | _, moreFields => [token .comma, phrase .fields]

end Rule

/-- The name that a token spells. -/
def name (token : Token) : Name := ⟨token.spelling, .nowhere, none⟩

def integerLiteral (token : Token) : IntegerLiteral := ⟨token.spelling, .nowhere⟩

def characterLiteral (token : Token) : CharacterLiteral := ⟨token.spelling, .nowhere⟩

namespace Rule

/-- The tree of a production from those of its parts. -/
def build : {N : Nonterminal} → (rule : Rule N) → Values rule.body → N.Value
  | _, command, (first, more, _) => more first
  | _, noMoreCommands, _ => fun before => before
  | _, moreCommands, (_, second, more, _) => fun before => more (.sequence .nowhere before second)
  | _, emptyCommand, _ => .empty .nowhere
  | _, ledCommand, (id, rest, _) => rest (name id)
  | _, beginEnd, (_, inner, _) => inner
  | _, braces, (_, inner, _) => inner
  | _, letCommand, (_, declared, _, body, _) => .letIn .nowhere declared body
  | _, ifCommand, (_, condition, _, thenBranch, _, elseBranch, _) =>
    .ifElse .nowhere condition thenBranch elseBranch
  | _, whileCommand, (_, condition, _, body, _) => .whileDo .nowhere condition body
  | _, repeatCommand, (_, body, _, condition, _) => .repeatUntil .nowhere body condition
  | _, loopCommand, (_, body, _, condition, _, tail, _) =>
    .loopWhile .nowhere body condition tail
  | _, callCommand, (_, args, _) => fun callee => .call .nowhere callee args
  | _, change, (follow, assign, _) =>
    fun root => assign (follow (.simple .nowhere none false root))
  | _, becomes, (_, value, _) => fun target => .assign .nowhere target value
  -- `v **` is `v := v * 2`
  | _, doubling, _ => fun target =>
    .assign .nowhere target
      (.binary .nowhere none (.vname .nowhere none target) ⟨"*", .nowhere, none⟩
        (.integer .nowhere none ⟨"2", .nowhere⟩))
  | _, noPath, _ => fun before => before
  | _, dot, (_, id, follow, _) => fun before =>
    follow (.dot .nowhere none false before (name id))
  | _, subscript, (_, index, _, follow, _) => fun before =>
    follow (.subscript .nowhere none false before index)
  | _, letExpression, (_, declared, _, body, _) => .letIn .nowhere none declared body
  | _, ifExpression, (_, condition, _, thenBranch, _, elseBranch, _) =>
    .ifElse .nowhere none condition thenBranch elseBranch
  | _, operation, (first, more, _) => more first
  | _, noOperations, _ => fun before => before
  | _, moreOperations, (op, right, more, _) => fun before =>
    more (.binary .nowhere none before (name op) right)
  | _, integer, (literal, _) => .integer .nowhere none (integerLiteral literal)
  | _, character, (literal, _) => .character .nowhere none (characterLiteral literal)
  | _, array, (_, listed, _) => .array .nowhere none listed
  | _, record, (_, listed, _) => .record .nowhere none listed
  | _, ledPrimary, (id, rest, _) => rest (name id)
  | _, unary, (op, operand, _) => .unary .nowhere none (name op) operand
  | _, parentheses, (_, inner, _) => inner
  | _, callExpression, (_, args, _) => fun callee => .call .nowhere none callee args
  | _, vname, (follow, _) => fun root =>
    .vname .nowhere none (follow (.simple .nowhere none false root))
  | _, elements, (first, rest, _) => rest first
  | _, lastElement, _ => fun first => .one .nowhere first
  | _, moreElements, (_, others, _) => fun first => .more .nowhere first others
  | _, fieldValues, (id, _, value, rest, _) => rest (name id) value
  | _, lastFieldValue, _ => fun field value => .one .nowhere field value
  | _, moreFieldValues, (_, others, _) => fun field value => .more .nowhere field value others
  | _, declaration, (first, more, _) => more first
  | _, noMoreDeclarations, _ => fun before => before
  | _, moreDeclarations, (_, second, more, _) => fun before =>
    more (.sequence .nowhere before second)
  | _, constDeclaration, (_, id, _, value, _) => .const .nowhere false (name id) value
  | _, varDeclaration, (_, id, _, type, _) => .var .nowhere false (name id) type
  | _, procDeclaration, (_, id, _, parameters, _, _, body, _) =>
    .proc .nowhere false (name id) parameters body
  | _, funcDeclaration, (_, id, _, parameters, _, _, result, _, body, _) =>
    .func .nowhere false (name id) parameters result body
  | _, typeDeclaration, (_, id, _, type, _) => .type .nowhere false (name id) type
  | _, noFormals, _ => .empty .nowhere
  | _, formals, (all, _) => all
  | _, someFormals, (first, rest, _) => rest first
  | _, lastFormal, _ => fun first => .one .nowhere first
  | _, moreFormals, (_, others, _) => fun first => .more .nowhere first others
  | _, constFormal, (id, _, type, _) => .const .nowhere false (name id) type
  | _, varFormal, (_, id, _, type, _) => .var .nowhere false (name id) type
  | _, procFormal, (_, id, _, inner, _) => .proc .nowhere false (name id) inner
  | _, funcFormal, (_, id, _, inner, _, _, result, _) =>
    .func .nowhere false (name id) inner result
  | _, noActuals, _ => .empty .nowhere
  | _, actuals, (all, _) => all
  | _, someActuals, (first, rest, _) => rest first
  | _, lastActual, _ => fun first => .one .nowhere first
  | _, moreActuals, (_, others, _) => fun first => .more .nowhere first others
  | _, constActual, (value, _) => .const .nowhere value
  | _, varActual, (_, id, follow, _) =>
    .var .nowhere (follow (.simple .nowhere none false (name id)))
  | _, procActual, (_, id, _) => .proc .nowhere (name id)
  | _, funcActual, (_, id, _) => .func .nowhere (name id)
  | _, namedType, (id, _) => .named .nowhere (name id)
  | _, arrayType, (_, length, _, element, _) =>
    .array 0 .nowhere (integerLiteral length) element
  | _, recordType, (_, listed, _) => .record 0 .nowhere listed
  | _, fields, (id, _, type, rest, _) => rest (name id) type
  | _, lastField, _ => fun field type => .one .nowhere field type
  | _, moreFields, (_, others, _) => fun field type => .more .nowhere field type others

/-- The token that comes next allows the production. An empty command has to stand where one of
    a few tokens can end it. -/
def allows : {N : Nonterminal} → Rule N → TokenKind → Bool
  | _, emptyCommand, next =>
    next ∈ [.semicolon, .endWord, .rightCurly, .elseWord, .inWord, .endOfText]
  | _, _, _ => true

end Rule

end TriangleTam.Parsing
