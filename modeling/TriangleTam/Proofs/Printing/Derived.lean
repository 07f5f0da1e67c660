import TriangleTam.Proofs.Printing.Printer
import TriangleTam.Proofs.Printing.Producible

/-! # Printed trees are derived

  The tokens of a printed tree **spell** it: they are derived from the
  grammar, whatever comes behind them, and the derivation builds the tree. A
  command that stands alone may be empty, and is derived only where a command
  may end.
-/

namespace TriangleTam

namespace Parsing

/-! ## Tokens that spell a tree -/

/-- The token is a lexeme, and no fault. -/
structure Proper (token : Token) (kind : TokenKind) : Prop where
  lexical : Lexical token kind
  genuine : kind ≠ .error

/-- Reserved words and marks are proper as they are printed. -/
theorem proper_printed {kind : TokenKind} (listed : kind ∈ TokenKind.reserved ++ Scan.marks) :
    Proper kind.printed kind := by
  refine ⟨⟨?_, rfl, ?_⟩, ?_⟩
  · cases List.mem_append.1 listed with
    | inl hmem => exact .reserved hmem
    | inr hmem => exact .mark hmem
  · rintro rfl
    exact absurd listed (by decide)
  · rintro rfl
    exact absurd listed (by decide)

/-- Where one of `ends` comes behind them, the tokens are derived from the pieces, with these
    values. -/
def SpellsBefore (ends : TokenKind → Prop) (pieces : List Piece) (tokens : List Token)
    (values : Values pieces) : Prop :=
  (∀ token ∈ tokens, Proper token token.kind) ∧ ∃ d : Derivation pieces, d.tokens = tokens ∧
    d.values = values ∧ ∀ after, ends (lookahead after) → d.Allowed after

/-- Wherever the tokens are, they are derived from the pieces. -/
abbrev Spells (pieces : List Piece) (tokens : List Token) (values : Values pieces) : Prop :=
  SpellsBefore (fun _ => True) pieces tokens values

/-- Wherever the tokens are, they are the phrase that builds the value. -/
abbrev Says (N : Nonterminal) (tokens : List Token) (value : N.Value) : Prop :=
  Spells [.phrase N] tokens (value, ())

/-- The tokens are the command where the text or an enclosed command ends. -/
abbrev SaysCommand (tokens : List Token) (command : Command) : Prop :=
  SpellsBefore (· ∈ [.endWord, .endOfText]) [.phrase .command] tokens (command, ())

section Spells

variable {ends ends' : TokenKind → Prop} {pieces : List Piece} {tokens tokens' : List Token}
  {values : Values pieces} {N : Nonterminal} {value : N.Value}

theorem Spells.done : SpellsBefore ends [] [] () :=
  ⟨nofun, .done, rfl, rfl, fun _ _ => trivial⟩

theorem Spells.token {token : Token} {kind : TokenKind} (hproper : Proper token kind)
    (h : SpellsBefore ends pieces tokens values) :
    SpellsBefore ends (.token kind :: pieces) (token :: tokens) (token, values) := by
  obtain ⟨htokens, d, rfl, rfl, hallowed⟩ := h
  obtain rfl := hproper.lexical.2.1
  exact ⟨List.forall_mem_cons.2 ⟨hproper, htokens⟩, .token token hproper.lexical.2 d, rfl, rfl,
    hallowed⟩

theorem Spells.mark {kind : TokenKind} (listed : kind ∈ TokenKind.reserved ++ Scan.marks)
    (h : SpellsBefore ends pieces tokens values) :
    SpellsBefore ends (.token kind :: pieces) (kind.printed :: tokens) (kind.printed, values) :=
  Spells.token (proper_printed listed) h

theorem Spells.append (h : SpellsBefore ends' [.phrase N] tokens (value, ()))
    (h' : SpellsBefore ends pieces tokens' values)
    (hends : ∀ after, ends (lookahead after) → ends' (lookahead (tokens' ++ after))) :
    SpellsBefore ends (.phrase N :: pieces) (tokens ++ tokens') (value, values) := by
  obtain ⟨htokens, d, rfl, hvalue, hallowed⟩ := h
  obtain ⟨htokens', d', rfl, rfl, hallowed'⟩ := h'
  cases d with
  | phrase rule inner rest =>
    cases rest
    cases hvalue
    refine ⟨List.forall_mem_append.2 ⟨htokens, htokens'⟩, .phrase rule inner d', ?_, rfl, ?_⟩
    · simp only [Derivation.tokens, List.append_nil]
    · intro after hafter
      obtain ⟨hrule, hinner, -⟩ := hallowed _ (hends after hafter)
      exact ⟨hrule, hinner, hallowed' after hafter⟩

theorem Spells.phrase (h : Says N tokens value) (h' : SpellsBefore ends pieces tokens' values) :
    SpellsBefore ends (.phrase N :: pieces) (tokens ++ tokens') (value, values) :=
  Spells.append h h' fun _ _ => trivial

theorem Spells.rule (rule : Rule N) {values : Values rule.body}
    (hallows : ∀ next, rule.allows next = true) (h : SpellsBefore ends rule.body tokens values) :
    SpellsBefore ends [.phrase N] tokens (rule.build values, ()) := by
  obtain ⟨htokens, d, rfl, rfl, hallowed⟩ := h
  exact ⟨htokens, .phrase rule d .done, List.append_nil _, rfl,
    fun after hafter => ⟨hallows _, hallowed after hafter, trivial⟩⟩

/-- A phrase with nothing more behind it. -/
theorem Spells.alone (h : Says N tokens value) (h' : SpellsBefore ends pieces [] values) :
    SpellsBefore ends (.phrase N :: pieces) tokens (value, values) :=
  List.append_nil tokens ▸ Spells.phrase h h'

end Spells

open Spells

/-! ## Enclosed commands and bracketed expressions -/

theorem SaysCommand.enclosed {tokens : List Token} {command : Command}
    (h : SaysCommand tokens command) : Says .singleCommand (enclosed tokens) command :=
  rule .beginEnd (fun _ => rfl) <| mark (by decide) <|
    append h (mark (by decide) done) fun _ _ => List.mem_cons_self

theorem Says.command {tokens : List Token} {command : Command}
    (h : Says .singleCommand tokens command) : SaysCommand tokens command :=
  rule .command (fun _ => rfl) <| alone h <| rule .noMoreCommands (fun _ => rfl) done

theorem Says.primary {tokens : List Token} {expression : Expression}
    (h : Says .expression tokens expression) :
    Says .primary (bracketed tokens) expression :=
  rule .parentheses (fun _ => rfl) <| mark (by decide) <| phrase h <| mark (by decide) done

theorem Says.operand {tokens : List Token} {expression : Expression}
    (h : Says .primary tokens expression) : Says .expression tokens expression :=
  rule .operation (fun _ => rfl) <| alone h <| rule .noOperations (fun _ => rfl) done

theorem Says.bracketed {tokens : List Token} {expression : Expression}
    (h : Says .expression tokens expression) :
    Says .expression (bracketed tokens) expression :=
  h.primary.operand

/-- The empty command is there where an end allows it. -/
theorem SaysCommand.empty : SaysCommand [] (.empty .nowhere) := by
  refine ⟨nofun, .phrase .command (.phrase .emptyCommand .done
    (.phrase .noMoreCommands .done .done)) .done, rfl, rfl, fun after hafter => ?_⟩
  have hallows : Rule.emptyCommand.allows (lookahead after) = true := by
    rcases List.mem_cons.1 hafter with hend | hend
    · rw [hend]
      rfl
    · rw [List.mem_singleton.1 hend]
      rfl
  exact ⟨rfl, ⟨hallows, trivial, rfl, trivial, trivial⟩, trivial⟩

/-! ## Leaves -/

theorem proper_name {name : Name} (h : name.Identifies) : Proper name.printed .identifier :=
  ⟨⟨h.1, rfl, nofun⟩, nofun⟩

theorem proper_operator {name : Name} (h : name.Operates) :
    Proper name.printedOperator .operator :=
  ⟨⟨h.1, rfl, nofun⟩, nofun⟩

theorem proper_integer {literal : IntegerLiteral} (h : literal.Producible) :
    Proper literal.printed .intLiteral :=
  ⟨⟨h.1, rfl, fun _ => h.2⟩, nofun⟩

theorem proper_character {literal : CharacterLiteral} (h : literal.Producible) :
    Proper literal.printed .charLiteral :=
  ⟨⟨h, rfl, nofun⟩, nofun⟩

/-- The name is read again as it was. -/
theorem name_printed {id : Name} (h : id.Identifies) : name id.printed = id.bare := by
  obtain ⟨spelling, span, binding⟩ := id
  obtain rfl : binding = none := h.2
  rfl

theorem name_printedOperator {op : Name} (h : op.Operates) :
    name op.printedOperator = op.bare := by
  obtain ⟨spelling, span, binding⟩ := op
  obtain rfl : binding = none := h.2
  rfl

/-! ## Types and parameters -/

mutual

theorem says_type : (type : TypeDenoter) → type.Producible → Says .type type.printed type.bare
  | .boolean, h | .character, h | .integer, h | .any, h | .error, h => h.elim
  | .named _ id, h => by
    rw [TypeDenoter.bare, ← name_printed h]
    exact rule .namedType (fun _ => rfl) <| token (proper_name h) done
  | .array _ _ length element, ⟨hlength, helement⟩ =>
    rule .arrayType (fun _ => rfl) <| mark (by decide) <| token (proper_integer hlength) <|
      mark (by decide) <| says_type element helement
  | .record _ _ fields, h =>
    rule .recordType (fun _ => rfl) <| mark (by decide) <| phrase (says_fields fields h) <|
      mark (by decide) done

theorem says_fields : (fields : Fields) → fields.Producible →
    Says .fields fields.printed fields.bare
  | .one _ id type, ⟨hname, htype⟩ => by
    rw [Fields.bare, ← name_printed hname]
    exact rule .fields (fun _ => rfl) <| token (proper_name hname) <| mark (by decide) <|
      alone (says_type type htype) <| rule .lastField (fun _ => rfl) done
  | .more _ id type others, ⟨hname, htype, hothers⟩ => by
    rw [Fields.bare, ← name_printed hname]
    exact rule .fields (fun _ => rfl) <| token (proper_name hname) <| mark (by decide) <|
      phrase (says_type type htype) <| rule .moreFields (fun _ => rfl) <|
      mark (by decide) <| says_fields others hothers

end

mutual

theorem says_formal : (formal : Formal) → formal.Producible →
    Says .formal formal.printed formal.bare
  | .const _ _ id type, ⟨hnew, hname, htype⟩ => by
    rw [Formal.bare, ← name_printed hname, hnew]
    exact rule .constFormal (fun _ => rfl) <| token (proper_name hname) <|
      mark (by decide) <| says_type type htype
  | .var _ _ id type, ⟨hnew, hname, htype⟩ => by
    rw [Formal.bare, ← name_printed hname, hnew]
    exact rule .varFormal (fun _ => rfl) <| mark (by decide) <| token (proper_name hname) <|
      mark (by decide) <| says_type type htype
  | .proc _ _ id formals, ⟨hnew, hname, hformals⟩ => by
    rw [Formal.bare, ← name_printed hname, hnew]
    exact rule .procFormal (fun _ => rfl) <| mark (by decide) <| token (proper_name hname) <|
      mark (by decide) <| phrase (says_formals formals hformals).1 <| mark (by decide) done
  | .func _ _ id formals result, ⟨hnew, hname, hformals, hresult⟩ => by
    rw [Formal.bare, ← name_printed hname, hnew]
    exact rule .funcFormal (fun _ => rfl) <| mark (by decide) <| token (proper_name hname) <|
      mark (by decide) <| phrase (says_formals formals hformals).1 <| mark (by decide) <|
      mark (by decide) <| says_type result hresult

/-- The formals between two parentheses, and as the rest of a list. -/
theorem says_formals : (formals : Formals) → formals.Producible →
    Says .formals formals.printed formals.bare ∧
      (formals.Listed → Says .someFormals formals.printed formals.bare)
  | .empty _, _ => ⟨rule .noFormals (fun _ => rfl) done, False.elim⟩
  | .one _ formal, h => by
    have hsome : Says .someFormals formal.printed (.one .nowhere formal.bare) :=
      rule .someFormals (fun _ => rfl) <| alone (says_formal formal h) <|
        rule .lastFormal (fun _ => rfl) done
    exact ⟨rule .formals (fun _ => rfl) hsome, fun _ => hsome⟩
  | .more _ formal others, ⟨hformal, hothers, hlisted⟩ => by
    have hsome : Says .someFormals (formal.printed ++ TokenKind.comma.printed :: others.printed)
        (.more .nowhere formal.bare others.bare) :=
      rule .someFormals (fun _ => rfl) <| phrase (says_formal formal hformal) <|
        rule .moreFormals (fun _ => rfl) <| mark (by decide) <|
        (says_formals others hothers).2 hlisted
    exact ⟨rule .formals (fun _ => rfl) hsome, fun _ => hsome⟩

end

/-! ## Vnames and declarations -/

/-- The tokens start with an identifier, and selections and subscripts make the vname of it. -/
def SaysVname (tokens : List Token) (vname : Vname) : Prop :=
  ∃ (first : Token) (others : List Token) (extend : Vname → Vname), tokens = first :: others ∧
    Proper first .identifier ∧ Says .path others extend ∧
    extend (.simple .nowhere none false (name first)) = vname

namespace SaysVname

variable {tokens : List Token} {vname : Vname}

/-- With nothing more behind it. -/
theorem alone (h : ∀ others extend, Says .path others extend →
    SaysVname (tokens ++ others) (extend vname)) : SaysVname tokens vname := by
  have hnone := h [] id (rule .noPath (fun _ => rfl) done)
  rwa [List.append_nil] at hnone

theorem assign {value : List Token} {expression : Expression} (h : SaysVname tokens vname)
    (hvalue : Says .expression value expression) :
    Says .singleCommand (tokens ++ TokenKind.becomes.printed :: value)
      (.assign .nowhere vname expression) := by
  obtain ⟨first, others, extend, rfl, hfirst, hpath, rfl⟩ := h
  exact rule .ledCommand (fun _ => rfl) <| token hfirst <| rule .change (fun _ => rfl) <|
    phrase hpath <| rule .becomes (fun _ => rfl) <| mark (by decide) hvalue

theorem expression (h : SaysVname tokens vname) :
    Says .expression tokens (.vname .nowhere none vname) := by
  obtain ⟨first, others, extend, rfl, hfirst, hpath, rfl⟩ := h
  exact Says.operand <| rule .ledPrimary (fun _ => rfl) <| token hfirst <|
    rule .vname (fun _ => rfl) hpath

theorem actual (h : SaysVname tokens vname) :
    Says .actual (TokenKind.varWord.printed :: tokens) (.var .nowhere vname) := by
  obtain ⟨first, others, extend, rfl, hfirst, hpath, rfl⟩ := h
  exact rule .varActual (fun _ => rfl) <| mark (by decide) <| token hfirst hpath

end SaysVname

/-- A phrase of a single declaration is a chain of declarations with what more comes. -/
theorem Says.declared {tokens others : List Token} {declaration : Declaration}
    {more : Declaration → Declaration} (h : Says .singleDeclaration tokens declaration)
    (hmore : Says .declarations others more) :
    Says .declaration (tokens ++ others) (more declaration) :=
  rule .declaration (fun _ => rfl) <| phrase h hmore

/-- What a declaration says, alone and with more declarations behind it. -/
structure SaysDeclaration (tokens : List Token) (declaration : Declaration) : Prop where
  single : declaration.Single → Says .singleDeclaration tokens declaration
  chain : ∀ others more, Says .declarations others more →
    Says .declaration (tokens ++ others) (more declaration)

theorem Says.single {tokens : List Token} {declaration : Declaration}
    (h : Says .singleDeclaration tokens declaration) : SaysDeclaration tokens declaration :=
  ⟨fun _ => h, fun _ _ hmore => h.declared hmore⟩

theorem single_bare {declaration : Declaration} (h : declaration.Single) :
    declaration.bare.Single := by
  cases declaration with
  | sequence => exact h.elim
  | _ => trivial

theorem SaysDeclaration.declaration {tokens : List Token} {declaration : Declaration}
    (h : SaysDeclaration tokens declaration) : Says .declaration tokens declaration := by
  have hnone := h.chain [] id (rule .noMoreDeclarations (fun _ => rfl) done)
  rwa [List.append_nil] at hnone

/-! ## Commands, expressions and declarations -/

mutual

theorem says_command : (command : Command) → command.Producible →
    SaysCommand command.printed command.bare
  | .empty _, _ => SaysCommand.empty
  | .assign _ target value, ⟨htarget, hvalue⟩ =>
    ((SaysVname.alone (says_vname target htarget)).assign
      (says_expression value hvalue).bracketed).command
  | .call _ callee actuals, ⟨hname, hactuals⟩ => by
    rw [Command.bare, ← name_printed hname]
    exact Says.command <| rule .ledCommand (fun _ => rfl) <| token (proper_name hname) <|
      rule .callCommand (fun _ => rfl) <| mark (by decide) <|
      phrase (says_actuals actuals hactuals).1 <| mark (by decide) done
  | .sequence _ first second, ⟨hfirst, hsecond⟩ =>
    rule .command (fun _ => rfl) <| phrase (says_command first hfirst).enclosed <|
      rule .moreCommands (fun _ => rfl) <| mark (by decide) <|
      alone (says_command second hsecond).enclosed <| rule .noMoreCommands (fun _ => rfl) done
  | .letIn _ declaration body, ⟨hdeclared, hbody⟩ =>
    Says.command <| rule .letCommand (fun _ => rfl) <| mark (by decide) <|
      phrase (says_declaration declaration hdeclared).declaration <| mark (by decide) <|
      (says_command body hbody).enclosed
  | .ifElse _ condition thenBranch elseBranch, ⟨hcondition, hthen, helse⟩ =>
    Says.command <| rule .ifCommand (fun _ => rfl) <| mark (by decide) <|
      phrase (says_expression condition hcondition).bracketed <| mark (by decide) <|
      phrase (says_command thenBranch hthen).enclosed <| mark (by decide) <|
      (says_command elseBranch helse).enclosed
  | .whileDo _ condition body, ⟨hcondition, hbody⟩ =>
    Says.command <| rule .whileCommand (fun _ => rfl) <| mark (by decide) <|
      phrase (says_expression condition hcondition).bracketed <| mark (by decide) <|
      (says_command body hbody).enclosed
  | .repeatUntil _ body condition, ⟨hbody, hcondition⟩ =>
    Says.command <| rule .repeatCommand (fun _ => rfl) <| mark (by decide) <|
      phrase (says_command body hbody).enclosed <| mark (by decide) <|
      (says_expression condition hcondition).bracketed
  | .loopWhile _ body condition tail, ⟨hbody, hcondition, htail⟩ =>
    Says.command <| rule .loopCommand (fun _ => rfl) <| mark (by decide) <|
      phrase (says_command body hbody).enclosed <| mark (by decide) <|
      phrase (says_expression condition hcondition).bracketed <| mark (by decide) <|
      (says_command tail htail).enclosed

theorem says_expression : (expression : Expression) → expression.Producible →
    Says .expression expression.printed expression.bare
  | .integer _ _ literal, ⟨hnew, hliteral⟩ => by
    rw [Expression.bare, hnew]
    exact Says.operand <| rule .integer (fun _ => rfl) <| token (proper_integer hliteral) done
  | .character _ _ literal, ⟨hnew, hliteral⟩ => by
    rw [Expression.bare, hnew]
    exact Says.operand <| rule .character (fun _ => rfl) <|
      token (proper_character hliteral) done
  | .vname _ _ vname, ⟨hnew, hvname⟩ => by
    rw [Expression.bare, hnew]
    exact (SaysVname.alone (says_vname vname hvname)).expression
  | .call _ _ callee actuals, ⟨hnew, hname, hactuals⟩ => by
    rw [Expression.bare, ← name_printed hname, hnew]
    exact Says.operand <| rule .ledPrimary (fun _ => rfl) <| token (proper_name hname) <|
      rule .callExpression (fun _ => rfl) <| mark (by decide) <|
      phrase (says_actuals actuals hactuals).1 <| mark (by decide) done
  | .ifElse _ _ condition thenBranch elseBranch, ⟨hnew, hcondition, hthen, helse⟩ => by
    rw [Expression.bare, hnew]
    exact rule .ifExpression (fun _ => rfl) <| mark (by decide) <|
      phrase (says_expression condition hcondition).bracketed <| mark (by decide) <|
      phrase (says_expression thenBranch hthen).bracketed <| mark (by decide) <|
      (says_expression elseBranch helse).bracketed
  | .letIn _ _ declaration body, ⟨hnew, hdeclared, hbody⟩ => by
    rw [Expression.bare, hnew]
    exact rule .letExpression (fun _ => rfl) <| mark (by decide) <|
      phrase (says_declaration declaration hdeclared).declaration <| mark (by decide) <|
      (says_expression body hbody).bracketed
  | .unary _ _ op operand, ⟨hnew, hop, hoperand⟩ => by
    rw [Expression.bare, ← name_printedOperator hop, hnew]
    exact Says.operand <| rule .unary (fun _ => rfl) <| token (proper_operator hop) <|
      (says_expression operand hoperand).primary
  | .binary _ _ left op right, ⟨hnew, hleft, hop, hright⟩ => by
    rw [Expression.bare, ← name_printedOperator hop, hnew]
    exact rule .operation (fun _ => rfl) <| phrase (says_expression left hleft).primary <|
      rule .moreOperations (fun _ => rfl) <| token (proper_operator hop) <|
      alone (says_expression right hright).primary <| rule .noOperations (fun _ => rfl) done
  | .array _ _ elements, ⟨hnew, helements⟩ => by
    rw [Expression.bare, hnew]
    exact Says.operand <| rule .array (fun _ => rfl) <| mark (by decide) <|
      phrase (says_elements elements helements) <| mark (by decide) done
  | .record _ _ fields, ⟨hnew, hfields⟩ => by
    rw [Expression.bare, hnew]
    exact Says.operand <| rule .record (fun _ => rfl) <| mark (by decide) <|
      phrase (says_fieldValues fields hfields) <| mark (by decide) done

theorem says_elements : (elements : ArrayAggregate) → elements.Producible →
    Says .elements elements.printed elements.bare
  | .one _ element, h =>
    rule .elements (fun _ => rfl) <| alone (says_expression element h).bracketed <|
      rule .lastElement (fun _ => rfl) done
  | .more _ element others, ⟨helement, hothers⟩ =>
    rule .elements (fun _ => rfl) <| phrase (says_expression element helement).bracketed <|
      rule .moreElements (fun _ => rfl) <| mark (by decide) <| says_elements others hothers

theorem says_fieldValues : (fields : RecordAggregate) → fields.Producible →
    Says .fieldValues fields.printed fields.bare
  | .one _ id value, ⟨hname, hvalue⟩ => by
    rw [RecordAggregate.bare, ← name_printed hname]
    exact rule .fieldValues (fun _ => rfl) <| token (proper_name hname) <| mark (by decide) <|
      alone (says_expression value hvalue).bracketed <| rule .lastFieldValue (fun _ => rfl) done
  | .more _ id value others, ⟨hname, hvalue, hothers⟩ => by
    rw [RecordAggregate.bare, ← name_printed hname]
    exact rule .fieldValues (fun _ => rfl) <| token (proper_name hname) <| mark (by decide) <|
      phrase (says_expression value hvalue).bracketed <|
      rule .moreFieldValues (fun _ => rfl) <| mark (by decide) <| says_fieldValues others hothers

/-- A vname with more selections and subscripts behind it. -/
theorem says_vname : (vname : Vname) → vname.Producible → ∀ (others : List Token)
    (extend : Vname → Vname), Says .path others extend →
      SaysVname (vname.printed ++ others) (extend vname.bare)
  | .simple _ _ _ id, ⟨hnew, hconst, hname⟩, others, extend, hpath => by
    rw [Vname.bare, ← name_printed hname, hnew, hconst]
    exact ⟨id.printed, others, extend, rfl, proper_name hname, hpath, rfl⟩
  | .dot _ _ _ record field, ⟨hnew, hconst, hrecord, hfield⟩, others, extend, hpath => by
    rw [Vname.printed, List.append_assoc, Vname.bare, ← name_printed hfield, hnew, hconst]
    exact says_vname record hrecord _ _ <| rule .dot (fun _ => rfl) <| mark (by decide) <|
      token (proper_name hfield) hpath
  | .subscript _ _ _ array index, ⟨hnew, hconst, harray, hindex⟩, others, extend, hpath => by
    rw [Vname.printed, List.append_assoc, List.cons_append, List.append_assoc, Vname.bare, hnew,
      hconst]
    exact says_vname array harray _ _ <| rule .subscript (fun _ => rfl) <| mark (by decide) <|
      phrase (says_expression index hindex).bracketed <| mark (by decide) hpath

theorem says_declaration : (declaration : Declaration) → declaration.Producible →
    SaysDeclaration declaration.printed declaration.bare
  | .const _ _ id value, ⟨hnew, hname, hvalue⟩ => by
    rw [Declaration.bare, ← name_printed hname, hnew]
    exact Says.single <| rule .constDeclaration (fun _ => rfl) <| mark (by decide) <|
      token (proper_name hname) <| mark (by decide) (says_expression value hvalue).bracketed
  | .var _ _ id type, ⟨hnew, hname, htype⟩ => by
    rw [Declaration.bare, ← name_printed hname, hnew]
    exact Says.single <| rule .varDeclaration (fun _ => rfl) <| mark (by decide) <|
      token (proper_name hname) <| mark (by decide) <| says_type type htype
  | .proc _ _ id formals body, ⟨hnew, hname, hformals, hbody⟩ => by
    rw [Declaration.bare, ← name_printed hname, hnew]
    exact Says.single <| rule .procDeclaration (fun _ => rfl) <| mark (by decide) <|
      token (proper_name hname) <| mark (by decide) <| phrase (says_formals formals hformals).1 <|
      mark (by decide) <| mark (by decide) (says_command body hbody).enclosed
  | .func _ _ id formals result body, ⟨hnew, hname, hformals, hresult, hbody⟩ => by
    rw [Declaration.bare, ← name_printed hname, hnew]
    exact Says.single <| rule .funcDeclaration (fun _ => rfl) <| mark (by decide) <|
      token (proper_name hname) <| mark (by decide) <| phrase (says_formals formals hformals).1 <|
      mark (by decide) <| mark (by decide) <| phrase (says_type result hresult) <|
      mark (by decide) (says_expression body hbody).bracketed
  | .type _ _ id type, ⟨hnew, hname, htype⟩ => by
    rw [Declaration.bare, ← name_printed hname, hnew]
    exact Says.single <| rule .typeDeclaration (fun _ => rfl) <| mark (by decide) <|
      token (proper_name hname) <| mark (by decide) <| says_type type htype
  | .sequence _ first second, ⟨hfirst, hsecond, hsingle⟩ =>
    ⟨False.elim, fun others more hmore => by
      have hsecond' := (says_declaration second hsecond).single (single_bare hsingle)
      rw [Declaration.printed, List.append_assoc]
      exact (says_declaration first hfirst).chain _ _ <| rule .moreDeclarations (fun _ => rfl) <|
        mark (by decide) <| phrase hsecond' hmore⟩

theorem says_actual : (actual : Actual) → actual.Producible →
    Says .actual actual.printed actual.bare
  | .const _ value, h => rule .constActual (fun _ => rfl) (says_expression value h).bracketed
  | .var _ vname, h => (SaysVname.alone (says_vname vname h)).actual
  | .proc _ id, h => by
    rw [Actual.bare, ← name_printed h]
    exact rule .procActual (fun _ => rfl) <| mark (by decide) <| token (proper_name h) done
  | .func _ id, h => by
    rw [Actual.bare, ← name_printed h]
    exact rule .funcActual (fun _ => rfl) <| mark (by decide) <| token (proper_name h) done

/-- The actuals between two parentheses, and as the rest of a list. -/
theorem says_actuals : (actuals : Actuals) → actuals.Producible →
    Says .actuals actuals.printed actuals.bare ∧
      (actuals.Listed → Says .someActuals actuals.printed actuals.bare)
  | .empty _, _ => ⟨rule .noActuals (fun _ => rfl) done, False.elim⟩
  | .one _ actual, h => by
    have hsome : Says .someActuals actual.printed (.one .nowhere actual.bare) :=
      rule .someActuals (fun _ => rfl) <| alone (says_actual actual h) <|
        rule .lastActual (fun _ => rfl) done
    exact ⟨rule .actuals (fun _ => rfl) hsome, fun _ => hsome⟩
  | .more _ actual others, ⟨hactual, hothers, hlisted⟩ => by
    have hsome : Says .someActuals (actual.printed ++ TokenKind.comma.printed :: others.printed)
        (.more .nowhere actual.bare others.bare) :=
      rule .someActuals (fun _ => rfl) <| phrase (says_actual actual hactual) <|
        rule .moreActuals (fun _ => rfl) <| mark (by decide) <|
        (says_actuals others hothers).2 hlisted
    exact ⟨rule .actuals (fun _ => rfl) hsome, fun _ => hsome⟩

end

end Parsing

end TriangleTam
