import TriangleTam.Tree
import TriangleTam.Tree.Stream

/-! # Parsing

  A recursive descent over the token stream, one function for each phrase of
  the grammar. The first token that no sentence can have at its place ends
  the parse with one diagnostic.

  - Binary operators share one precedence and associate to the left; a unary
    operator applies to the primary expression after it.
  - A command is empty where a token follows that can end one.
  - The doubling `v **` stands for `v := v * 2`.
  - `begin … end`, braces around commands and parentheses around expressions
    leave no node.
-/

namespace TriangleTam.Grammar

/-! ## Terminals -/

def identifier (s : Stream) : Parse Name s.size := do
  let ⟨token, s1, _⟩ ← s.take .identifier (s.fault .identifierExpected "")
  return ⟨⟨token.spelling, token.span, none⟩, s1, by omega⟩

def operator (s : Stream) : Parse Name s.size := do
  let ⟨token, s1, _⟩ ← s.take .operator (s.fault .operatorExpected "")
  return ⟨⟨token.spelling, token.span, none⟩, s1, by omega⟩

/-- An integer literal has to stand for a word. -/
def integerLiteral (s : Stream) : Parse IntegerLiteral s.size := do
  let ⟨token, s1, _⟩ ← s.take .intLiteral (s.fault .integerLiteralExpected "")
  if (Numeral.toWord? token.spelling).isNone then
    throw (s.unexpected .literalTooLarge)
  return ⟨⟨token.spelling, token.span⟩, s1, by omega⟩

def characterLiteral (s : Stream) : Parse CharacterLiteral s.size := do
  let ⟨token, s1, _⟩ ← s.take .charLiteral (s.fault .characterLiteralExpected "")
  return ⟨⟨token.spelling, token.span⟩, s1, by omega⟩

/-! ## Type denoters -/

mutual

def typeDenoter (s : Stream) : Parse TypeDenoter s.size :=
  match s.kind with
  | .identifier => do
    let ⟨name, s1, _⟩ ← identifier s
    return ⟨.named (s1.since s.start) name, s1, by omega⟩
  | .arrayWord => do
    let ⟨_, s1, _⟩ ← s.expect .arrayWord
    let ⟨length, s2, _⟩ ← integerLiteral s1
    let ⟨_, s3, _⟩ ← s2.expect .ofWord
    let ⟨element, s4, _⟩ ← typeDenoter s3
    return ⟨.array s4.serials (s4.since s.start) length element, s4.numbered, by
      have := s4.size_numbered; omega⟩
  | .recordWord => do
    let ⟨_, s1, _⟩ ← s.expect .recordWord
    let ⟨fields, s2, _⟩ ← fieldTypes s1
    let ⟨_, s3, _⟩ ← s2.expect .endWord
    return ⟨.record s3.serials (s3.since s.start) fields, s3.numbered, by
      have := s3.size_numbered; omega⟩
  | _ => throw (s.unexpected .noTypeDenoter)
termination_by s.size

def fieldTypes (s : Stream) : Parse Fields s.size := do
  let ⟨name, s1, _⟩ ← identifier s
  let ⟨_, s2, _⟩ ← s1.expect .colon
  let ⟨type, s3, _⟩ ← typeDenoter s2
  if s3.kind = .comma then
    let ⟨_, s4, _⟩ ← s3.expect .comma
    let ⟨rest, s5, _⟩ ← fieldTypes s4
    return ⟨.more (s5.since s.start) name type rest, s5, by omega⟩
  else
    return ⟨.one (s3.since s.start) name type, s3, by omega⟩
termination_by s.size

end

/-! ## Formal parameters -/

mutual

/-- The formal parameters between two parentheses. -/
def formals (s : Stream) : Parse Formals (s.size + 1) :=
  if s.kind = .rightParen then
    return ⟨.empty ⟨s.start, s.start⟩, s, by omega⟩
  else do
    let ⟨all, s1, _⟩ ← someFormals s
    return ⟨all, s1, by omega⟩
termination_by 4 * s.size + 2

/-- One formal parameter or more. -/
def someFormals (s : Stream) : Parse Formals s.size := do
  let ⟨first, s1, _⟩ ← formal s
  if s1.kind = .comma then
    let ⟨_, s2, _⟩ ← s1.expect .comma
    let ⟨rest, s3, _⟩ ← someFormals s2
    return ⟨.more (s3.since s.start) first rest, s3, by omega⟩
  else
    return ⟨.one (s1.since s.start) first, s1, by omega⟩
termination_by 4 * s.size + 1

def formal (s : Stream) : Parse Formal s.size :=
  match s.kind with
  | .identifier => do
    let ⟨name, s1, _⟩ ← identifier s
    let ⟨_, s2, _⟩ ← s1.expect .colon
    let ⟨type, s3, _⟩ ← typeDenoter s2
    return ⟨.const (s3.since s.start) false name type, s3, by omega⟩
  | .varWord => do
    let ⟨_, s1, _⟩ ← s.expect .varWord
    let ⟨name, s2, _⟩ ← identifier s1
    let ⟨_, s3, _⟩ ← s2.expect .colon
    let ⟨type, s4, _⟩ ← typeDenoter s3
    return ⟨.var (s4.since s.start) false name type, s4, by omega⟩
  | .procWord => do
    let ⟨_, s1, _⟩ ← s.expect .procWord
    let ⟨name, s2, _⟩ ← identifier s1
    let ⟨_, s3, _⟩ ← s2.expect .leftParen
    let ⟨inner, s4, _⟩ ← formals s3
    let ⟨_, s5, _⟩ ← s4.expect .rightParen
    return ⟨.proc (s5.since s.start) false name inner, s5, by omega⟩
  | .funcWord => do
    let ⟨_, s1, _⟩ ← s.expect .funcWord
    let ⟨name, s2, _⟩ ← identifier s1
    let ⟨_, s3, _⟩ ← s2.expect .leftParen
    let ⟨inner, s4, _⟩ ← formals s3
    let ⟨_, s5, _⟩ ← s4.expect .rightParen
    let ⟨_, s6, _⟩ ← s5.expect .colon
    let ⟨result, s7, _⟩ ← typeDenoter s6
    return ⟨.func (s7.since s.start) false name inner result, s7, by omega⟩
  | _ => throw (s.unexpected .noFormal)
termination_by 4 * s.size

end

/-! ## Commands, expressions and declarations -/

/-- The command that `v **` stands for, with the mark `**` at `mark`. -/
def doubling (span : Span) (target : Vname) (mark : Span) : Command :=
  .assign span target
    (.binary span none (.vname target.span none target) ⟨"*", mark, none⟩
      (.integer mark none ⟨"2", mark⟩))

mutual

def command (s : Stream) : Parse Command (s.size + 1) := do
  let ⟨first, s1, _⟩ ← singleCommand s
  let ⟨all, s2, _⟩ ← commandsAfter s.start first s1
  return ⟨all, s2, by omega⟩
termination_by 8 * s.size + 1

/-- The commands that follow `before` after semicolons, chained to it. -/
def commandsAfter (start : Nat) (before : Command) (s : Stream) : Parse Command (s.size + 1) :=
  if s.kind = .semicolon then do
    let ⟨_, s1, _⟩ ← s.expect .semicolon
    let ⟨second, s2, _⟩ ← singleCommand s1
    let ⟨all, s3, _⟩ ← commandsAfter start (.sequence (s2.since start) before second) s2
    return ⟨all, s3, by omega⟩
  else
    return ⟨before, s, by omega⟩
termination_by 8 * s.size

def singleCommand (s : Stream) : Parse Command (s.size + 1) :=
  match s.kind with
  | .identifier => do
    let ⟨name, s1, _⟩ ← identifier s
    if s1.kind = .leftParen then
      let ⟨_, s2, _⟩ ← s1.expect .leftParen
      let ⟨args, s3, _⟩ ← actuals s2
      let ⟨_, s4, _⟩ ← s3.expect .rightParen
      return ⟨.call (s4.since s.start) name args, s4, by omega⟩
    else
      let ⟨target, s2, _⟩ ← vnameAfter s.start (.simple name.span none false name) s1
      if s2.kind = .doubleOperator then
        let ⟨mark, s3, _⟩ ← s2.expect .doubleOperator
        return ⟨doubling (s3.since s.start) target mark.span, s3, by omega⟩
      else
        let ⟨_, s3, _⟩ ← s2.expect .becomes
        let ⟨value, s4, _⟩ ← expression s3
        return ⟨.assign (s4.since s.start) target value, s4, by omega⟩
  | .beginWord => do
    let ⟨_, s1, _⟩ ← s.expect .beginWord
    let ⟨inner, s2, _⟩ ← command s1
    let ⟨_, s3, _⟩ ← s2.expect .endWord
    return ⟨inner, s3, by omega⟩
  | .leftCurly => do
    let ⟨_, s1, _⟩ ← s.expect .leftCurly
    let ⟨inner, s2, _⟩ ← command s1
    let ⟨_, s3, _⟩ ← s2.expect .rightCurly
    return ⟨inner, s3, by omega⟩
  | .letWord => do
    let ⟨_, s1, _⟩ ← s.expect .letWord
    let ⟨declared, s2, _⟩ ← declaration s1
    let ⟨_, s3, _⟩ ← s2.expect .inWord
    let ⟨body, s4, _⟩ ← singleCommand s3
    return ⟨.letIn (s4.since s.start) declared body, s4, by omega⟩
  | .ifWord => do
    let ⟨_, s1, _⟩ ← s.expect .ifWord
    let ⟨condition, s2, _⟩ ← expression s1
    let ⟨_, s3, _⟩ ← s2.expect .thenWord
    let ⟨thenBranch, s4, _⟩ ← singleCommand s3
    let ⟨_, s5, _⟩ ← s4.expect .elseWord
    let ⟨elseBranch, s6, _⟩ ← singleCommand s5
    return ⟨.ifElse (s6.since s.start) condition thenBranch elseBranch, s6, by omega⟩
  | .whileWord => do
    let ⟨_, s1, _⟩ ← s.expect .whileWord
    let ⟨condition, s2, _⟩ ← expression s1
    let ⟨_, s3, _⟩ ← s2.expect .doWord
    let ⟨body, s4, _⟩ ← singleCommand s3
    return ⟨.whileDo (s4.since s.start) condition body, s4, by omega⟩
  | .repeatWord => do
    let ⟨_, s1, _⟩ ← s.expect .repeatWord
    let ⟨body, s2, _⟩ ← singleCommand s1
    let ⟨_, s3, _⟩ ← s2.expect .untilWord
    let ⟨condition, s4, _⟩ ← expression s3
    return ⟨.repeatUntil (s4.since s.start) body condition, s4, by omega⟩
  | .loopWord => do
    let ⟨_, s1, _⟩ ← s.expect .loopWord
    let ⟨body, s2, _⟩ ← singleCommand s1
    let ⟨_, s3, _⟩ ← s2.expect .whileWord
    let ⟨condition, s4, _⟩ ← expression s3
    let ⟨_, s5, _⟩ ← s4.expect .doWord
    let ⟨tail, s6, _⟩ ← singleCommand s5
    return ⟨.loopWhile (s6.since s.start) body condition tail, s6, by omega⟩
  | .semicolon | .endWord | .rightCurly | .elseWord | .inWord | .endOfText =>
    return ⟨.empty (s.since s.start), s, by omega⟩
  | _ => throw (s.unexpected .noCommand)
termination_by 8 * s.size

def expression (s : Stream) : Parse Expression s.size :=
  match s.kind with
  | .letWord => do
    let ⟨_, s1, _⟩ ← s.expect .letWord
    let ⟨declared, s2, _⟩ ← declaration s1
    let ⟨_, s3, _⟩ ← s2.expect .inWord
    let ⟨body, s4, _⟩ ← expression s3
    return ⟨.letIn (s4.since s.start) none declared body, s4, by omega⟩
  | .ifWord => do
    let ⟨_, s1, _⟩ ← s.expect .ifWord
    let ⟨condition, s2, _⟩ ← expression s1
    let ⟨_, s3, _⟩ ← s2.expect .thenWord
    let ⟨thenBranch, s4, _⟩ ← expression s3
    let ⟨_, s5, _⟩ ← s4.expect .elseWord
    let ⟨elseBranch, s6, _⟩ ← expression s5
    return ⟨.ifElse (s6.since s.start) none condition thenBranch elseBranch, s6, by omega⟩
  | _ => do
    let ⟨first, s1, _⟩ ← primary s
    let ⟨all, s2, _⟩ ← operationsAfter s.start first s1
    return ⟨all, s2, by omega⟩
termination_by 8 * s.size + 1

/-- The operations that follow the operand `before`, applied from the left. -/
def operationsAfter (start : Nat) (before : Expression) (s : Stream) :
    Parse Expression (s.size + 1) :=
  if s.kind = .operator then do
    let ⟨op, s1, _⟩ ← operator s
    let ⟨right, s2, _⟩ ← primary s1
    let ⟨all, s3, _⟩ ← operationsAfter start (.binary (s2.since start) none before op right) s2
    return ⟨all, s3, by omega⟩
  else
    return ⟨before, s, by omega⟩
termination_by 8 * s.size

def primary (s : Stream) : Parse Expression s.size :=
  match s.kind with
  | .intLiteral => do
    let ⟨literal, s1, _⟩ ← integerLiteral s
    return ⟨.integer (s1.since s.start) none literal, s1, by omega⟩
  | .charLiteral => do
    let ⟨literal, s1, _⟩ ← characterLiteral s
    return ⟨.character (s1.since s.start) none literal, s1, by omega⟩
  | .leftBracket => do
    let ⟨_, s1, _⟩ ← s.expect .leftBracket
    let ⟨elements, s2, _⟩ ← arrayAggregate s1
    let ⟨_, s3, _⟩ ← s2.expect .rightBracket
    return ⟨.array (s3.since s.start) none elements, s3, by omega⟩
  | .leftCurly => do
    let ⟨_, s1, _⟩ ← s.expect .leftCurly
    let ⟨fields, s2, _⟩ ← recordAggregate s1
    let ⟨_, s3, _⟩ ← s2.expect .rightCurly
    return ⟨.record (s3.since s.start) none fields, s3, by omega⟩
  | .identifier => do
    let ⟨name, s1, _⟩ ← identifier s
    if s1.kind = .leftParen then
      let ⟨_, s2, _⟩ ← s1.expect .leftParen
      let ⟨args, s3, _⟩ ← actuals s2
      let ⟨_, s4, _⟩ ← s3.expect .rightParen
      return ⟨.call (s4.since s.start) none name args, s4, by omega⟩
    else
      let ⟨found, s2, _⟩ ← vnameAfter s.start (.simple name.span none false name) s1
      return ⟨.vname (s2.since s.start) none found, s2, by omega⟩
  | .operator => do
    let ⟨op, s1, _⟩ ← operator s
    let ⟨operand, s2, _⟩ ← primary s1
    return ⟨.unary (s2.since s.start) none op operand, s2, by omega⟩
  | .leftParen => do
    let ⟨_, s1, _⟩ ← s.expect .leftParen
    let ⟨inner, s2, _⟩ ← expression s1
    let ⟨_, s3, _⟩ ← s2.expect .rightParen
    return ⟨inner, s3, by omega⟩
  | _ => throw (s.unexpected .noExpression)
termination_by 8 * s.size

def arrayAggregate (s : Stream) : Parse ArrayAggregate s.size := do
  let ⟨element, s1, _⟩ ← expression s
  if s1.kind = .comma then
    let ⟨_, s2, _⟩ ← s1.expect .comma
    let ⟨rest, s3, _⟩ ← arrayAggregate s2
    return ⟨.more (s3.since s.start) element rest, s3, by omega⟩
  else
    return ⟨.one (s1.since s.start) element, s1, by omega⟩
termination_by 8 * s.size + 2

def recordAggregate (s : Stream) : Parse RecordAggregate s.size := do
  let ⟨field, s1, _⟩ ← identifier s
  let ⟨_, s2, _⟩ ← s1.expect .is
  let ⟨value, s3, _⟩ ← expression s2
  if s3.kind = .comma then
    let ⟨_, s4, _⟩ ← s3.expect .comma
    let ⟨rest, s5, _⟩ ← recordAggregate s4
    return ⟨.more (s5.since s.start) field value rest, s5, by omega⟩
  else
    return ⟨.one (s3.since s.start) field value, s3, by omega⟩
termination_by 8 * s.size

/-- The field selections and subscripts that follow the vname `before`. -/
def vnameAfter (start : Nat) (before : Vname) (s : Stream) : Parse Vname (s.size + 1) :=
  match s.kind with
  | .dot => do
    let ⟨_, s1, _⟩ ← s.expect .dot
    let ⟨field, s2, _⟩ ← identifier s1
    let ⟨all, s3, _⟩ ← vnameAfter start (.dot (s2.since start) none false before field) s2
    return ⟨all, s3, by omega⟩
  | .leftBracket => do
    let ⟨_, s1, _⟩ ← s.expect .leftBracket
    let ⟨index, s2, _⟩ ← expression s1
    let ⟨_, s3, _⟩ ← s2.expect .rightBracket
    let ⟨all, s4, _⟩ ← vnameAfter start (.subscript (s3.since start) none false before index) s3
    return ⟨all, s4, by omega⟩
  | _ => return ⟨before, s, by omega⟩
termination_by 8 * s.size

def declaration (s : Stream) : Parse Declaration s.size := do
  let ⟨first, s1, _⟩ ← singleDeclaration s
  let ⟨all, s2, _⟩ ← declarationsAfter s.start first s1
  return ⟨all, s2, by omega⟩
termination_by 8 * s.size + 1

/-- The declarations that follow `before` after semicolons, chained to it. -/
def declarationsAfter (start : Nat) (before : Declaration) (s : Stream) :
    Parse Declaration (s.size + 1) :=
  if s.kind = .semicolon then do
    let ⟨_, s1, _⟩ ← s.expect .semicolon
    let ⟨second, s2, _⟩ ← singleDeclaration s1
    let ⟨all, s3, _⟩ ← declarationsAfter start (.sequence (s2.since start) before second) s2
    return ⟨all, s3, by omega⟩
  else
    return ⟨before, s, by omega⟩
termination_by 8 * s.size

def singleDeclaration (s : Stream) : Parse Declaration s.size :=
  match s.kind with
  | .constWord => do
    let ⟨_, s1, _⟩ ← s.expect .constWord
    let ⟨name, s2, _⟩ ← identifier s1
    let ⟨_, s3, _⟩ ← s2.expect .is
    let ⟨value, s4, _⟩ ← expression s3
    return ⟨.const (s4.since s.start) false name value, s4, by omega⟩
  | .varWord => do
    let ⟨_, s1, _⟩ ← s.expect .varWord
    let ⟨name, s2, _⟩ ← identifier s1
    let ⟨_, s3, _⟩ ← s2.expect .colon
    let ⟨type, s4, _⟩ ← typeDenoter s3
    return ⟨.var (s4.since s.start) false name type, s4, by omega⟩
  | .procWord => do
    let ⟨_, s1, _⟩ ← s.expect .procWord
    let ⟨name, s2, _⟩ ← identifier s1
    let ⟨_, s3, _⟩ ← s2.expect .leftParen
    let ⟨parameters, s4, _⟩ ← formals s3
    let ⟨_, s5, _⟩ ← s4.expect .rightParen
    let ⟨_, s6, _⟩ ← s5.expect .is
    let ⟨body, s7, _⟩ ← singleCommand s6
    return ⟨.proc (s7.since s.start) false name parameters body, s7, by omega⟩
  | .funcWord => do
    let ⟨_, s1, _⟩ ← s.expect .funcWord
    let ⟨name, s2, _⟩ ← identifier s1
    let ⟨_, s3, _⟩ ← s2.expect .leftParen
    let ⟨parameters, s4, _⟩ ← formals s3
    let ⟨_, s5, _⟩ ← s4.expect .rightParen
    let ⟨_, s6, _⟩ ← s5.expect .colon
    let ⟨result, s7, _⟩ ← typeDenoter s6
    let ⟨_, s8, _⟩ ← s7.expect .is
    let ⟨body, s9, _⟩ ← expression s8
    return ⟨.func (s9.since s.start) false name parameters result body, s9, by omega⟩
  | .typeWord => do
    let ⟨_, s1, _⟩ ← s.expect .typeWord
    let ⟨name, s2, _⟩ ← identifier s1
    let ⟨_, s3, _⟩ ← s2.expect .is
    let ⟨type, s4, _⟩ ← typeDenoter s3
    return ⟨.type (s4.since s.start) false name type, s4, by omega⟩
  | _ => throw (s.unexpected .noDeclaration)
termination_by 8 * s.size

/-- The actual parameters between two parentheses. -/
def actuals (s : Stream) : Parse Actuals (s.size + 1) :=
  if s.kind = .rightParen then
    return ⟨.empty ⟨s.start, s.start⟩, s, by omega⟩
  else do
    let ⟨all, s1, _⟩ ← someActuals s
    return ⟨all, s1, by omega⟩
termination_by 8 * s.size + 4

/-- One actual parameter or more. -/
def someActuals (s : Stream) : Parse Actuals s.size := do
  let ⟨first, s1, _⟩ ← actual s
  if s1.kind = .comma then
    let ⟨_, s2, _⟩ ← s1.expect .comma
    let ⟨rest, s3, _⟩ ← someActuals s2
    return ⟨.more (s3.since s.start) first rest, s3, by omega⟩
  else
    return ⟨.one (s1.since s.start) first, s1, by omega⟩
termination_by 8 * s.size + 3

def actual (s : Stream) : Parse Actual s.size :=
  match s.kind with
  | .identifier | .intLiteral | .charLiteral | .operator | .letWord | .ifWord | .leftParen
  | .leftBracket | .leftCurly => do
    let ⟨value, s1, _⟩ ← expression s
    return ⟨.const (s1.since s.start) value, s1, by omega⟩
  | .varWord => do
    let ⟨_, s1, _⟩ ← s.expect .varWord
    let ⟨name, s2, _⟩ ← identifier s1
    let ⟨found, s3, _⟩ ← vnameAfter s1.start (.simple name.span none false name) s2
    return ⟨.var (s3.since s.start) found, s3, by omega⟩
  | .procWord => do
    let ⟨_, s1, _⟩ ← s.expect .procWord
    let ⟨name, s2, _⟩ ← identifier s1
    return ⟨.proc (s2.since s.start) name, s2, by omega⟩
  | .funcWord => do
    let ⟨_, s1, _⟩ ← s.expect .funcWord
    let ⟨name, s2, _⟩ ← identifier s1
    return ⟨.func (s2.since s.start) name, s2, by omega⟩
  | _ => throw (s.unexpected .noActual)
termination_by 8 * s.size + 2

end

end TriangleTam.Grammar

namespace TriangleTam

/-- Parse a whole text. -/
def Program.parse (text : String) : Except Diagnostic Program := do
  let s := Stream.ofText text
  let ⟨command, s1, _⟩ ← Grammar.command s
  if s1.kind ≠ .endOfText then
    throw (s1.unexpected .trailingToken)
  return ⟨command, s1.since s.start, s1.serials⟩

end TriangleTam
