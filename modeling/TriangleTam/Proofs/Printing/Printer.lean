import TriangleTam.Token
import TriangleTam.Tree

/-! # Printing

  A tree is printed as a sequence of tokens with blanks between them. Every
  command within another node stands between `begin` and `end`, and every
  expression within another node between parentheses, so that no part of a
  tree can be taken for a part of its neighbour.
-/

namespace TriangleTam

/-! ## Tokens -/

/-- A reserved word or a mark, as it is printed. -/
def TokenKind.printed (kind : TokenKind) : Token := ⟨kind, kind.written, .nowhere⟩

def Name.printed (name : Name) : Token := ⟨.identifier, name.spelling, .nowhere⟩

def Name.printedOperator (name : Name) : Token := ⟨.operator, name.spelling, .nowhere⟩

def IntegerLiteral.printed (literal : IntegerLiteral) : Token :=
  ⟨.intLiteral, literal.spelling, .nowhere⟩

def CharacterLiteral.printed (literal : CharacterLiteral) : Token :=
  ⟨.charLiteral, literal.spelling, .nowhere⟩

/-- A command as part of another node. -/
def enclosed (command : List Token) : List Token :=
  TokenKind.beginWord.printed :: (command ++ [TokenKind.endWord.printed])

/-- An expression as part of another node. -/
def bracketed (expression : List Token) : List Token :=
  TokenKind.leftParen.printed :: (expression ++ [TokenKind.rightParen.printed])

/-! ## Trees -/

open TokenKind

mutual

/-- The standard types have no denoter of their own. -/
def TypeDenoter.printed : TypeDenoter → List Token
  | .boolean | .character | .integer | .any | .error => []
  | .named _ name => [name.printed]
  | .array _ _ length element =>
    arrayWord.printed :: length.printed :: ofWord.printed :: element.printed
  | .record _ _ fields => recordWord.printed :: (fields.printed ++ [endWord.printed])

def Fields.printed : Fields → List Token
  | .one _ name type => name.printed :: colon.printed :: type.printed
  | .more _ name type rest =>
    name.printed :: colon.printed :: (type.printed ++ comma.printed :: rest.printed)

end

mutual

def Formal.printed : Formal → List Token
  | .const _ _ name type => name.printed :: colon.printed :: type.printed
  | .var _ _ name type => varWord.printed :: name.printed :: colon.printed :: type.printed
  | .proc _ _ name formals =>
    procWord.printed :: name.printed :: leftParen.printed ::
      (formals.printed ++ [rightParen.printed])
  | .func _ _ name formals result =>
    funcWord.printed :: name.printed :: leftParen.printed ::
      (formals.printed ++ rightParen.printed :: colon.printed :: result.printed)

def Formals.printed : Formals → List Token
  | .empty _ => []
  | .one _ formal => formal.printed
  | .more _ formal rest => formal.printed ++ comma.printed :: rest.printed

end

mutual

def Command.printed : Command → List Token
  | .empty _ => []
  | .assign _ target value => target.printed ++ becomes.printed :: bracketed value.printed
  | .call _ callee actuals =>
    callee.printed :: leftParen.printed :: (actuals.printed ++ [rightParen.printed])
  | .sequence _ first second =>
    enclosed first.printed ++ semicolon.printed :: enclosed second.printed
  | .letIn _ declaration body =>
    letWord.printed :: (declaration.printed ++ inWord.printed :: enclosed body.printed)
  | .ifElse _ condition thenBranch elseBranch =>
    ifWord.printed :: (bracketed condition.printed ++ thenWord.printed ::
      (enclosed thenBranch.printed ++ elseWord.printed :: enclosed elseBranch.printed))
  | .whileDo _ condition body =>
    whileWord.printed :: (bracketed condition.printed ++ doWord.printed ::
      enclosed body.printed)
  | .repeatUntil _ body condition =>
    repeatWord.printed :: (enclosed body.printed ++ untilWord.printed ::
      bracketed condition.printed)
  | .loopWhile _ body condition tail =>
    loopWord.printed :: (enclosed body.printed ++ whileWord.printed ::
      (bracketed condition.printed ++ doWord.printed :: enclosed tail.printed))

def Expression.printed : Expression → List Token
  | .integer _ _ literal => [literal.printed]
  | .character _ _ literal => [literal.printed]
  | .vname _ _ vname => vname.printed
  | .call _ _ callee actuals =>
    callee.printed :: leftParen.printed :: (actuals.printed ++ [rightParen.printed])
  | .ifElse _ _ condition thenBranch elseBranch =>
    ifWord.printed :: (bracketed condition.printed ++ thenWord.printed ::
      (bracketed thenBranch.printed ++ elseWord.printed :: bracketed elseBranch.printed))
  | .letIn _ _ declaration body =>
    letWord.printed :: (declaration.printed ++ inWord.printed :: bracketed body.printed)
  | .unary _ _ op operand => op.printedOperator :: bracketed operand.printed
  | .binary _ _ left op right =>
    bracketed left.printed ++ op.printedOperator :: bracketed right.printed
  | .array _ _ elements => leftBracket.printed :: (elements.printed ++ [rightBracket.printed])
  | .record _ _ fields => leftCurly.printed :: (fields.printed ++ [rightCurly.printed])

def ArrayAggregate.printed : ArrayAggregate → List Token
  | .one _ element => bracketed element.printed
  | .more _ element rest => bracketed element.printed ++ comma.printed :: rest.printed

def RecordAggregate.printed : RecordAggregate → List Token
  | .one _ field value => field.printed :: is.printed :: bracketed value.printed
  | .more _ field value rest =>
    field.printed :: is.printed :: (bracketed value.printed ++ comma.printed :: rest.printed)

def Vname.printed : Vname → List Token
  | .simple _ _ _ name => [name.printed]
  | .dot _ _ _ record field => record.printed ++ [dot.printed, field.printed]
  | .subscript _ _ _ array index =>
    array.printed ++ leftBracket.printed :: (bracketed index.printed ++ [rightBracket.printed])

def Declaration.printed : Declaration → List Token
  | .const _ _ name value =>
    constWord.printed :: name.printed :: is.printed :: bracketed value.printed
  | .var _ _ name type => varWord.printed :: name.printed :: colon.printed :: type.printed
  | .proc _ _ name formals body =>
    procWord.printed :: name.printed :: leftParen.printed ::
      (formals.printed ++ rightParen.printed :: is.printed :: enclosed body.printed)
  | .func _ _ name formals result body =>
    funcWord.printed :: name.printed :: leftParen.printed ::
      (formals.printed ++ rightParen.printed :: colon.printed ::
        (result.printed ++ is.printed :: bracketed body.printed))
  | .type _ _ name type => typeWord.printed :: name.printed :: is.printed :: type.printed
  | .sequence _ first second => first.printed ++ semicolon.printed :: second.printed

def Actual.printed : Actual → List Token
  | .const _ value => bracketed value.printed
  | .var _ vname => varWord.printed :: vname.printed
  | .proc _ name => [procWord.printed, name.printed]
  | .func _ name => [funcWord.printed, name.printed]

def Actuals.printed : Actuals → List Token
  | .empty _ => []
  | .one _ actual => actual.printed
  | .more _ actual rest => actual.printed ++ comma.printed :: rest.printed

end

/-- The tokens as a text. -/
def Token.spaced (tokens : List Token) : String := " ".intercalate (tokens.map Token.spelling)

/-- The program as a text. -/
def Program.print (program : Program) : String := Token.spaced program.command.printed

end TriangleTam
