import TriangleTam.Proofs.Parsing.Rules
import TriangleTam.Tree.Grammar

/-! # Derivations

  A derivation spells out how tokens are a phrase of the grammar: it has the
  productions that were used, and the tokens at its leaves. Every phrase can
  be told from its first token, or from the token behind it if it is empty:
  the grammar is LL(1). So tokens have one derivation at most, also where it
  is only known how they start.
-/

namespace TriangleTam

/-- The token stands for the terminal. An integer literal has to stand for a word. -/
def Token.Stands (token : Token) (kind : TokenKind) : Prop :=
  token.kind = kind ∧ (kind = .intLiteral → (Numeral.toWord? token.spelling).isSome)

namespace Parsing

/-- The class of the next token. Behind the last one there is no text left. -/
def lookahead : List Token → TokenKind
  | [] => .endOfText
  | token :: _ => token.kind

/-- How tokens are derived from pieces, one after the other. -/
inductive Derivation : List Piece → Type
  | done : Derivation []
  | token {kind pieces} (token : Token) (stands : token.Stands kind)
      (rest : Derivation pieces) : Derivation (.token kind :: pieces)
  | phrase {N pieces} (rule : Rule N) (inner : Derivation rule.body)
      (rest : Derivation pieces) : Derivation (.phrase N :: pieces)

namespace Derivation

variable {pieces pieces' : List Piece}

/-- The derived tokens. -/
def tokens {pieces : List Piece} : Derivation pieces → List Token
  | done => []
  | token t _ rest => t :: rest.tokens
  | phrase _ inner rest => inner.tokens ++ rest.tokens

/-- What the pieces build. -/
def values {pieces : List Piece} : Derivation pieces → Values pieces
  | done => ()
  | token t _ rest => (t, rest.values)
  | phrase rule inner rest => (rule.build inner.values, rest.values)

/-- Every production is allowed by the token that comes next, when `after` follows. -/
def Allowed {pieces : List Piece} : Derivation pieces → List Token → Prop
  | done, _ => True
  | token _ _ rest, after => rest.Allowed after
  | phrase rule inner rest, after =>
    rule.allows (lookahead (inner.tokens ++ (rest.tokens ++ after))) = true ∧
      inner.Allowed (rest.tokens ++ after) ∧ rest.Allowed after

end Derivation

/-! ## Prediction -/

/-- The production that the next token tells. -/
def predict : (N : Nonterminal) → TokenKind → Option (Rule N)
  | .command, _ => some .command
  | .commands, next => some (if next = .semicolon then .moreCommands else .noMoreCommands)
  | .singleCommand, next =>
    match next with
    | .identifier => some .ledCommand
    | .beginWord => some .beginEnd
    | .leftCurly => some .braces
    | .letWord => some .letCommand
    | .ifWord => some .ifCommand
    | .whileWord => some .whileCommand
    | .repeatWord => some .repeatCommand
    | .loopWord => some .loopCommand
    | .semicolon | .endWord | .rightCurly | .elseWord | .inWord | .endOfText =>
      some .emptyCommand
    | _ => none
  | .ledCommand, next => some (if next = .leftParen then .callCommand else .change)
  | .assignment, next => some (if next = .doubleOperator then .doubling else .becomes)
  | .path, next =>
    match next with
    | .dot => some .dot
    | .leftBracket => some .subscript
    | _ => some .noPath
  | .expression, next =>
    match next with
    | .letWord => some .letExpression
    | .ifWord => some .ifExpression
    | _ => some .operation
  | .operations, next => some (if next = .operator then .moreOperations else .noOperations)
  | .primary, next =>
    match next with
    | .intLiteral => some .integer
    | .charLiteral => some .character
    | .leftBracket => some .array
    | .leftCurly => some .record
    | .identifier => some .ledPrimary
    | .operator => some .unary
    | .leftParen => some .parentheses
    | _ => none
  | .ledPrimary, next => some (if next = .leftParen then .callExpression else .vname)
  | .elements, _ => some .elements
  | .elementsRest, next => some (if next = .comma then .moreElements else .lastElement)
  | .fieldValues, _ => some .fieldValues
  | .fieldValuesRest, next => some (if next = .comma then .moreFieldValues else .lastFieldValue)
  | .declaration, _ => some .declaration
  | .declarations, next =>
    some (if next = .semicolon then .moreDeclarations else .noMoreDeclarations)
  | .singleDeclaration, next =>
    match next with
    | .constWord => some .constDeclaration
    | .varWord => some .varDeclaration
    | .procWord => some .procDeclaration
    | .funcWord => some .funcDeclaration
    | .typeWord => some .typeDeclaration
    | _ => none
  | .formals, next => some (if next = .rightParen then .noFormals else .formals)
  | .someFormals, _ => some .someFormals
  | .formalsRest, next => some (if next = .comma then .moreFormals else .lastFormal)
  | .formal, next =>
    match next with
    | .identifier => some .constFormal
    | .varWord => some .varFormal
    | .procWord => some .procFormal
    | .funcWord => some .funcFormal
    | _ => none
  | .actuals, next => some (if next = .rightParen then .noActuals else .actuals)
  | .someActuals, _ => some .someActuals
  | .actualsRest, next => some (if next = .comma then .moreActuals else .lastActual)
  | .actual, next =>
    match next with
    | .identifier | .intLiteral | .charLiteral | .operator | .letWord | .ifWord | .leftParen
    | .leftBracket | .leftCurly => some .constActual
    | .varWord => some .varActual
    | .procWord => some .procActual
    | .funcWord => some .funcActual
    | _ => none
  | .type, next =>
    match next with
    | .identifier => some .namedType
    | .arrayWord => some .arrayType
    | .recordWord => some .recordType
    | _ => none
  | .fields, _ => some .fields
  | .fieldsRest, next => some (if next = .comma then .moreFields else .lastField)

namespace Derivation

/-- Every production is the one that the next token tells, when `after` follows. -/
def Predicted {pieces : List Piece} : Derivation pieces → List Token → Prop
  | done, _ => True
  | token _ _ rest, after => rest.Predicted after
  | @phrase N _ rule inner rest, after =>
    predict N (lookahead (inner.tokens ++ (rest.tokens ++ after))) = some rule ∧
      inner.Predicted (rest.tokens ++ after) ∧ rest.Predicted after

/-- However tokens go on, they start with one predicted derivation at most. -/
theorem Predicted.unique {pieces : List Piece} {d d' : Derivation pieces}
    {after after' : List Token} (h : d.Predicted after) (h' : d'.Predicted after')
    (htokens : d.tokens ++ after = d'.tokens ++ after') : d = d' ∧ after = after' := by
  induction d generalizing after after' with
  | done =>
    cases d'
    exact ⟨rfl, htokens⟩
  | token t stands rest ih =>
    cases d' with
    | token t' stands' rest' =>
      obtain ⟨rfl, hrest⟩ := List.cons.inj htokens
      obtain ⟨rfl, hafter⟩ := ih h h' hrest
      exact ⟨rfl, hafter⟩
  | phrase rule inner rest ihinner ihrest =>
    cases d' with
    | phrase rule' inner' rest' =>
      obtain ⟨hrule, hinner, hrest⟩ := h
      obtain ⟨hrule', hinner', hrest'⟩ := h'
      simp only [tokens, List.append_assoc] at htokens
      rw [htokens, hrule'] at hrule
      obtain rfl := Option.some.inj hrule
      obtain ⟨rfl, hnext⟩ := ihinner hinner hinner' htokens
      obtain ⟨rfl, hafter⟩ := ihrest hrest hrest' hnext
      exact ⟨rfl, hafter⟩

end Derivation

/-! ## First and following tokens -/

namespace Nonterminal

/-- The phrase may be empty. -/
def nullable : Nonterminal → Bool
  | command | singleCommand | formals | actuals | commands | path | operations | ledPrimary
  | declarations | formalsRest | actualsRest | fieldsRest | elementsRest | fieldValuesRest => true
  | _ => false

/-- The tokens that the phrase may start with. -/
def first : Nonterminal → List TokenKind
  | command =>
    [.identifier, .beginWord, .leftCurly, .letWord, .ifWord, .whileWord, .repeatWord, .loopWord,
      .semicolon]
  | singleCommand =>
    [.identifier, .beginWord, .leftCurly, .letWord, .ifWord, .whileWord, .repeatWord, .loopWord]
  | expression | elements =>
    [.letWord, .ifWord, .intLiteral, .charLiteral, .leftBracket, .leftCurly, .identifier,
      .operator, .leftParen]
  | primary =>
    [.intLiteral, .charLiteral, .leftBracket, .leftCurly, .identifier, .operator, .leftParen]
  | declaration | singleDeclaration => [.constWord, .varWord, .procWord, .funcWord, .typeWord]
  | formals | someFormals | formal => [.identifier, .varWord, .procWord, .funcWord]
  | actuals | someActuals | actual =>
    [.letWord, .ifWord, .intLiteral, .charLiteral, .leftBracket, .leftCurly, .identifier,
      .operator, .leftParen, .varWord, .procWord, .funcWord]
  | type => [.identifier, .arrayWord, .recordWord]
  | fields | fieldValues => [.identifier]
  | commands | declarations => [.semicolon]
  | ledCommand => [.leftParen, .dot, .leftBracket, .becomes, .doubleOperator]
  | assignment => [.becomes, .doubleOperator]
  | path => [.dot, .leftBracket]
  | operations => [.operator]
  | ledPrimary => [.leftParen, .dot, .leftBracket]
  | formalsRest | actualsRest | fieldsRest | elementsRest | fieldValuesRest => [.comma]

/-- The tokens that may come after a single command. -/
def afterCommand : List TokenKind :=
  [.semicolon, .endWord, .rightCurly, .endOfText, .elseWord, .untilWord, .whileWord, .inWord]

/-- The tokens that may come after an expression. -/
def afterExpression : List TokenKind :=
  [.thenWord, .doWord, .rightBracket, .comma, .rightParen] ++ afterCommand

/-- The tokens that may come after the phrase. -/
def follow : Nonterminal → List TokenKind
  | command | commands => [.endWord, .rightCurly, .endOfText]
  | singleCommand | ledCommand | assignment => afterCommand
  | expression | operations => afterExpression
  | primary | ledPrimary => .operator :: afterExpression
  | path => [.becomes, .doubleOperator, .operator] ++ afterExpression
  | declaration | declarations => [.inWord]
  | singleDeclaration => [.semicolon, .inWord]
  | formals | someFormals | formalsRest | actuals | someActuals | actualsRest => [.rightParen]
  | formal | actual => [.comma, .rightParen]
  | type => [.comma, .endWord, .rightParen, .semicolon, .inWord, .is]
  | fields | fieldsRest => [.endWord]
  | elements | elementsRest => [.rightBracket]
  | fieldValues | fieldValuesRest => [.rightCurly]

end Nonterminal

/-- The pieces may all be empty. -/
def nullable : List Piece → Bool
  | [] => true
  | .token _ :: _ => false
  | .phrase N :: pieces => N.nullable && nullable pieces

/-- The tokens that pieces may start with. -/
def first : List Piece → List TokenKind
  | [] => []
  | .token kind :: _ => [kind]
  | .phrase N :: pieces => N.first ++ if N.nullable then first pieces else []

/-- The tokens that may come first in pieces, or behind them if they may be empty. -/
def next (pieces : List Piece) (follow : List TokenKind) : List TokenKind :=
  first pieces ++ if nullable pieces then follow else []

/-- Whatever may come after a phrase among the pieces follows that phrase. -/
def Follows : List Piece → List TokenKind → Prop
  | [], _ => True
  | .token _ :: pieces, follow => Follows pieces follow
  | .phrase N :: pieces, follow =>
    (∀ kind ∈ next pieces follow, kind ∈ N.follow) ∧ Follows pieces follow

instance : (pieces : List Piece) → (follow : List TokenKind) → Decidable (Follows pieces follow)
  | [], _ => inferInstanceAs (Decidable True)
  | .token _ :: pieces, follow => instDecidableFollows pieces follow
  | .phrase _ :: pieces, follow =>
    have := instDecidableFollows pieces follow
    inferInstanceAs (Decidable (_ ∧ _))

namespace Rule

variable {N : Nonterminal}

theorem nullable_body (rule : Rule N) : nullable rule.body = true → N.nullable = true := by
  cases rule <;> decide

theorem first_body (rule : Rule N) : ∀ kind ∈ first rule.body, kind ∈ N.first := by
  cases rule <;> decide

theorem follows_body (rule : Rule N) : Follows rule.body N.follow := by
  cases rule <;> decide

/-- What a production starts with tells it. -/
theorem predict_of_first (rule : Rule N) :
    ∀ kind ∈ first rule.body, predict N kind = some rule := by
  cases rule <;> decide

/-- What may come after an empty phrase tells its production. -/
theorem predict_of_follow (rule : Rule N) :
    nullable rule.body = true → ∀ kind ∈ N.follow, rule.allows kind = true →
      predict N kind = some rule := by
  cases rule <;> decide

/-- The production that a token tells is one that it allows. -/
theorem allows_of_predict (rule : Rule N) {kind : TokenKind}
    (h : predict N kind = some rule) : rule.allows kind = true := by
  cases rule with
  | emptyCommand => cases kind <;> first | rfl | cases h
  | _ => rfl

end Rule

namespace Derivation

variable {pieces : List Piece}

/-- What is derived starts with a first token of the pieces, or is empty if that is possible. -/
theorem starts (d : Derivation pieces) :
    (d.tokens = [] ∧ nullable pieces = true) ∨
      ∃ t others, d.tokens = t :: others ∧ t.kind ∈ first pieces := by
  induction d with
  | done => exact .inl ⟨rfl, rfl⟩
  | token t stands rest => exact .inr ⟨t, rest.tokens, rfl, List.mem_singleton.2 stands.1⟩
  | @phrase N pieces rule inner rest ihinner ihrest =>
    rcases ihinner with ⟨hempty, hnullable⟩ | ⟨t, others, htokens, hfirst⟩
    · have hN := rule.nullable_body hnullable
      rcases ihrest with ⟨hempty', hnullable'⟩ | ⟨t, others, htokens, hfirst⟩
      · exact .inl ⟨by rw [tokens, hempty, hempty']; rfl, by rw [nullable, hN, hnullable']; rfl⟩
      · refine .inr ⟨t, others, by rw [tokens, hempty, htokens]; rfl, ?_⟩
        rw [first, hN]
        exact List.mem_append_right _ hfirst
    · refine .inr ⟨t, others ++ rest.tokens, by rw [tokens, htokens]; rfl, ?_⟩
      exact List.mem_append_left _ (rule.first_body _ hfirst)

/-- The next token is one that may come first in the pieces or after them. -/
theorem lookahead_mem (d : Derivation pieces) {after : List Token} {follow : List TokenKind}
    (h : lookahead after ∈ follow) : lookahead (d.tokens ++ after) ∈ next pieces follow := by
  unfold next
  rcases d.starts with ⟨hempty, hnullable⟩ | ⟨t, others, htokens, hfirst⟩
  · rw [hempty, hnullable]
    exact List.mem_append_right _ h
  · rw [htokens]
    exact List.mem_append_left _ hfirst

/-- The productions of an allowed derivation are those that the tokens tell. -/
theorem Allowed.predicted {d : Derivation pieces} {after : List Token} {follow : List TokenKind}
    (h : d.Allowed after) (hfollows : Follows pieces follow) (hafter : lookahead after ∈ follow) :
    d.Predicted after := by
  induction d generalizing after follow with
  | done => trivial
  | token t stands rest ih => exact ih h hfollows hafter
  | @phrase N pieces rule inner rest ihinner ihrest =>
    obtain ⟨hallows, hinner, hrest⟩ := h
    obtain ⟨hfollow, hfollows⟩ := hfollows
    have hnext : lookahead (rest.tokens ++ after) ∈ N.follow :=
      hfollow _ (rest.lookahead_mem hafter)
    refine ⟨?_, ihinner hinner rule.follows_body hnext, ihrest hrest hfollows hafter⟩
    rcases inner.starts with ⟨hempty, hnullable⟩ | ⟨t, others, htokens, hfirst⟩
    · rw [hempty] at hallows ⊢
      exact rule.predict_of_follow hnullable _ hnext hallows
    · rw [htokens]
      exact rule.predict_of_first _ hfirst

/-- Tokens tell allowed productions alone. -/
theorem Predicted.allowed {d : Derivation pieces} {after : List Token} (h : d.Predicted after) :
    d.Allowed after := by
  induction d generalizing after with
  | done => trivial
  | token t stands rest ih => exact ih h
  | phrase rule inner rest ihinner ihrest =>
    exact ⟨rule.allows_of_predict h.1, ihinner h.2.1, ihrest h.2.2⟩

/-! ## Joining and splitting -/

/-- The derivation of one piece, and that of the pieces behind it. -/
def cons {piece : Piece} : Derivation [piece] → Derivation pieces →
    Derivation (piece :: pieces)
  | token t stands done, rest => token t stands rest
  | phrase rule inner done, rest => phrase rule inner rest

theorem tokens_cons {piece : Piece} (d : Derivation [piece]) (rest : Derivation pieces) :
    (d.cons rest).tokens = d.tokens ++ rest.tokens := by
  cases d with
  | token t stands others =>
    cases others
    rfl
  | phrase rule inner others =>
    cases others
    simp [cons, tokens]

theorem values_cons {piece : Piece} (d : Derivation [piece]) (rest : Derivation pieces) :
    (d.cons rest).values = (d.values.1, rest.values) := by
  cases d with
  | token t stands others =>
    cases others
    rfl
  | phrase rule inner others =>
    cases others
    rfl

theorem predicted_cons {piece : Piece} (d : Derivation [piece]) (rest : Derivation pieces)
    (after : List Token) :
    (d.cons rest).Predicted after ↔ d.Predicted (rest.tokens ++ after) ∧ rest.Predicted after := by
  cases d with
  | token t stands others =>
    cases others
    simp [cons, Predicted]
  | phrase rule inner others =>
    cases others
    simp [cons, Predicted, tokens, and_assoc]

theorem allowed_cons {piece : Piece} (d : Derivation [piece]) (rest : Derivation pieces)
    (after : List Token) :
    (d.cons rest).Allowed after ↔ d.Allowed (rest.tokens ++ after) ∧ rest.Allowed after := by
  cases d with
  | token t stands others =>
    cases others
    simp [cons, Allowed]
  | phrase rule inner others =>
    cases others
    simp [cons, Allowed, tokens, and_assoc]

/-- Every derivation of pieces is that of the first one and that of the others. -/
theorem exists_cons {piece : Piece} (d : Derivation (piece :: pieces)) :
    ∃ (head : Derivation [piece]) (rest : Derivation pieces), d = head.cons rest := by
  cases d with
  | token t stands rest => exact ⟨token t stands done, rest, rfl⟩
  | phrase rule inner rest => exact ⟨phrase rule inner done, rest, rfl⟩

end Derivation

end Parsing

end TriangleTam
