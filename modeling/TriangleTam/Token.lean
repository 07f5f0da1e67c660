import TriangleTam.Span

/-! # Tokens -/

namespace TriangleTam

/-- The classes of tokens. Reserved words and marks are classes of their own. -/
inductive TokenKind
  -- classes with many spellings
  | intLiteral | charLiteral | identifier | operator
  /-- The doubling shorthand `**`. -/
  | doubleOperator
  -- reserved words
  | arrayWord | beginWord | constWord | doWord | elseWord | endWord | funcWord
  | ifWord | inWord | letWord | loopWord | ofWord | procWord | recordWord
  | repeatWord | thenWord | typeWord | untilWord | varWord | whileWord
  -- marks
  | dot | colon | semicolon | comma
  /-- The mark `:=` of assignment. -/
  | becomes
  /-- The mark `~` of declarations. -/
  | is
  | leftParen | rightParen | leftBracket | rightBracket | leftCurly | rightCurly
  -- ends
  | endOfText
  /-- A character, or a quote and a character, that starts no token. -/
  | error
  deriving DecidableEq, Repr

namespace TokenKind

/-- How tokens of the kind are written, or a description of the class. -/
def written : TokenKind → String
  | intLiteral => "<int>"
  | charLiteral => "<char>"
  | identifier => "<identifier>"
  | operator => "<operator>"
  | doubleOperator => "**"
  | arrayWord => "array"
  | beginWord => "begin"
  | constWord => "const"
  | doWord => "do"
  | elseWord => "else"
  | endWord => "end"
  | funcWord => "func"
  | ifWord => "if"
  | inWord => "in"
  | letWord => "let"
  | loopWord => "loop"
  | ofWord => "of"
  | procWord => "proc"
  | recordWord => "record"
  | repeatWord => "repeat"
  | thenWord => "then"
  | typeWord => "type"
  | untilWord => "until"
  | varWord => "var"
  | whileWord => "while"
  | dot => "."
  | colon => ":"
  | semicolon => ";"
  | comma => ","
  | becomes => ":="
  | is => "~"
  | leftParen => "("
  | rightParen => ")"
  | leftBracket => "["
  | rightBracket => "]"
  | leftCurly => "\x7b"
  | rightCurly => "\x7d"
  | endOfText => ""
  | error => "<error>"

/-- The reserved words. -/
def reserved : List TokenKind :=
  [arrayWord, beginWord, constWord, doWord, elseWord, endWord, funcWord,
   ifWord, inWord, letWord, loopWord, ofWord, procWord, recordWord, repeatWord,
   thenWord, typeWord, untilWord, varWord, whileWord]

/-- A word is reserved or an identifier. -/
def forWord (word : String) : TokenKind :=
  (reserved.find? fun kind => kind.written == word).getD identifier

/-- The token of a single character that is no part of a longer one. -/
def forMark (c : Char) : TokenKind :=
  match c with
  | '.' => dot
  | ';' => semicolon
  | ',' => comma
  | '~' => is
  | '(' => leftParen
  | ')' => rightParen
  | '[' => leftBracket
  | ']' => rightBracket
  | '\x7b' => leftCurly
  | '\x7d' => rightCurly
  | _ => error

end TokenKind

/-- A token as it stands in the text. -/
structure Token where
  kind     : TokenKind
  spelling : String
  span     : Span
  deriving DecidableEq, Repr

end TriangleTam
