import TriangleTam.Proofs.Parsing.Exact
import TriangleTam.Proofs.Scanning.Exact

/-! # Trees of texts

  A tree is **producible** if it has the leaves and the shape that parsing
  gives a tree: its names, operators and literals are lexemes, nothing in it
  was found by checking, denoters are names, arrays and records, the empty
  sequence of parameters stands alone, and chains of declarations lean to the
  left. The tree of every text is producible, positions aside.
-/

namespace TriangleTam

/-! ## Leaves -/

namespace Name

/-- An identifier that stands for no binding so far. -/
def Identifies (name : Name) : Prop :=
  Scan.IsLexeme .identifier name.spelling.toList ∧ name.binding = none

/-- An operator that stands for no binding so far. -/
def Operates (name : Name) : Prop :=
  Scan.IsLexeme .operator name.spelling.toList ∧ name.binding = none

end Name

/-- Digits that stand for a word. -/
def IntegerLiteral.Producible (literal : IntegerLiteral) : Prop :=
  Scan.IsLexeme .intLiteral literal.spelling.toList ∧
    (Numeral.toWord? literal.spelling).isSome

/-- A character between quotes. -/
def CharacterLiteral.Producible (literal : CharacterLiteral) : Prop :=
  Scan.IsLexeme .charLiteral literal.spelling.toList

/-! ## Shapes -/

mutual

def TypeDenoter.Producible : TypeDenoter → Prop
  | .boolean | .character | .integer | .any | .error => False
  | .named _ name => name.Identifies
  | .array _ _ length element => length.Producible ∧ element.Producible
  | .record _ _ fields => fields.Producible

def Fields.Producible : Fields → Prop
  | .one _ name type => name.Identifies ∧ type.Producible
  | .more _ name type rest => name.Identifies ∧ type.Producible ∧ rest.Producible

end

/-- The sequence is not empty. -/
def Formals.Listed : Formals → Prop
  | .empty _ => False
  | .one .. | .more .. => True

mutual

def Formal.Producible : Formal → Prop
  | .const _ duplicated name type => duplicated = false ∧ name.Identifies ∧ type.Producible
  | .var _ duplicated name type => duplicated = false ∧ name.Identifies ∧ type.Producible
  | .proc _ duplicated name formals =>
    duplicated = false ∧ name.Identifies ∧ formals.Producible
  | .func _ duplicated name formals result =>
    duplicated = false ∧ name.Identifies ∧ formals.Producible ∧ result.Producible

def Formals.Producible : Formals → Prop
  | .empty _ => True
  | .one _ formal => formal.Producible
  | .more _ formal rest => formal.Producible ∧ rest.Producible ∧ rest.Listed

end

/-- The sequence is not empty. -/
def Actuals.Listed : Actuals → Prop
  | .empty _ => False
  | .one .. | .more .. => True

/-- The declaration is no chain. -/
def Declaration.Single : Declaration → Prop
  | .sequence .. => False
  | .const .. | .var .. | .proc .. | .func .. | .type .. => True

mutual

def Command.Producible : Command → Prop
  | .empty _ => True
  | .assign _ target value => target.Producible ∧ value.Producible
  | .call _ callee actuals => callee.Identifies ∧ actuals.Producible
  | .sequence _ first second => first.Producible ∧ second.Producible
  | .letIn _ declaration body => declaration.Producible ∧ body.Producible
  | .ifElse _ condition thenBranch elseBranch =>
    condition.Producible ∧ thenBranch.Producible ∧ elseBranch.Producible
  | .whileDo _ condition body => condition.Producible ∧ body.Producible
  | .repeatUntil _ body condition => body.Producible ∧ condition.Producible
  | .loopWhile _ body condition tail =>
    body.Producible ∧ condition.Producible ∧ tail.Producible

def Expression.Producible : Expression → Prop
  | .integer _ type literal => type = none ∧ literal.Producible
  | .character _ type literal => type = none ∧ literal.Producible
  | .vname _ type vname => type = none ∧ vname.Producible
  | .call _ type callee actuals => type = none ∧ callee.Identifies ∧ actuals.Producible
  | .ifElse _ type condition thenBranch elseBranch =>
    type = none ∧ condition.Producible ∧ thenBranch.Producible ∧ elseBranch.Producible
  | .letIn _ type declaration body => type = none ∧ declaration.Producible ∧ body.Producible
  | .unary _ type operator operand => type = none ∧ operator.Operates ∧ operand.Producible
  | .binary _ type left operator right =>
    type = none ∧ left.Producible ∧ operator.Operates ∧ right.Producible
  | .array _ type elements => type = none ∧ elements.Producible
  | .record _ type fields => type = none ∧ fields.Producible

def ArrayAggregate.Producible : ArrayAggregate → Prop
  | .one _ element => element.Producible
  | .more _ element rest => element.Producible ∧ rest.Producible

def RecordAggregate.Producible : RecordAggregate → Prop
  | .one _ field value => field.Identifies ∧ value.Producible
  | .more _ field value rest => field.Identifies ∧ value.Producible ∧ rest.Producible

def Vname.Producible : Vname → Prop
  | .simple _ type isVariable name => type = none ∧ isVariable = false ∧ name.Identifies
  | .dot _ type isVariable record field =>
    type = none ∧ isVariable = false ∧ record.Producible ∧ field.Identifies
  | .subscript _ type isVariable array index =>
    type = none ∧ isVariable = false ∧ array.Producible ∧ index.Producible

def Declaration.Producible : Declaration → Prop
  | .const _ duplicated name value => duplicated = false ∧ name.Identifies ∧ value.Producible
  | .var _ duplicated name type => duplicated = false ∧ name.Identifies ∧ type.Producible
  | .proc _ duplicated name formals body =>
    duplicated = false ∧ name.Identifies ∧ formals.Producible ∧ body.Producible
  | .func _ duplicated name formals result body =>
    duplicated = false ∧ name.Identifies ∧ formals.Producible ∧ result.Producible ∧
      body.Producible
  | .type _ duplicated name type => duplicated = false ∧ name.Identifies ∧ type.Producible
  | .sequence _ first second => first.Producible ∧ second.Producible ∧ second.Single

def Actual.Producible : Actual → Prop
  | .const _ value => value.Producible
  | .var _ vname => vname.Producible
  | .proc _ name => name.Identifies
  | .func _ name => name.Identifies

def Actuals.Producible : Actuals → Prop
  | .empty _ => True
  | .one _ actual => actual.Producible
  | .more _ actual rest => actual.Producible ∧ rest.Producible ∧ rest.Listed

end

/-! ## What productions build -/

namespace Parsing

/-- What the phrase builds is producible. What continues a phrase makes producible trees of
    producible trees. -/
def Nonterminal.Produces : (N : Nonterminal) → N.Value → Prop
  | .command, built | .singleCommand, built => Command.Producible built
  | .expression, built | .primary, built => Expression.Producible built
  | .declaration, built => Declaration.Producible built
  | .singleDeclaration, built => Declaration.Producible built ∧ Declaration.Single built
  | .formals, built => Formals.Producible built
  | .someFormals, built => Formals.Producible built ∧ Formals.Listed built
  | .formal, built => Formal.Producible built
  | .actuals, built => Actuals.Producible built
  | .someActuals, built => Actuals.Producible built ∧ Actuals.Listed built
  | .actual, built => Actual.Producible built
  | .type, built => TypeDenoter.Producible built
  | .fields, built => Fields.Producible built
  | .elements, built => ArrayAggregate.Producible built
  | .fieldValues, built => RecordAggregate.Producible built
  | .commands, more => ∀ before, before.Producible → (more before).Producible
  | .ledCommand, rest => ∀ name, name.Identifies → (rest name).Producible
  | .assignment, assign => ∀ target, target.Producible → (assign target).Producible
  | .path, extend => ∀ vname, vname.Producible → (extend vname).Producible
  | .operations, more => ∀ before, before.Producible → (more before).Producible
  | .ledPrimary, rest => ∀ name, name.Identifies → (rest name).Producible
  | .declarations, more => ∀ before, before.Producible → (more before).Producible
  | .formalsRest, rest =>
    ∀ first, first.Producible → (rest first).Producible ∧ (rest first).Listed
  | .actualsRest, rest =>
    ∀ first, first.Producible → (rest first).Producible ∧ (rest first).Listed
  | .fieldsRest, rest =>
    ∀ name type, name.Identifies → type.Producible → (rest name type).Producible
  | .elementsRest, rest => ∀ first, first.Producible → (rest first).Producible
  | .fieldValuesRest, rest =>
    ∀ name value, name.Identifies → value.Producible → (rest name value).Producible

/-- The token is a lexeme of its class, and an integer literal stands for a word. -/
def Lexical (token : Token) (kind : TokenKind) : Prop :=
  Scan.IsLexeme kind token.spelling.toList ∧ token.Stands kind

/-- The parts of a production are lexemes and producible. -/
def Produced : (pieces : List Piece) → Values pieces → Prop
  | [], _ => True
  | .token kind :: pieces, values => Lexical values.1 kind ∧ Produced pieces values.2
  | .phrase N :: pieces, values => N.Produces values.1 ∧ Produced pieces values.2

namespace Lexical

variable {token : Token}

theorem name (h : Lexical token .identifier) : (name token).Identifies := ⟨h.1, rfl⟩

theorem operator (h : Lexical token .operator) : (Parsing.name token).Operates := ⟨h.1, rfl⟩

theorem integerLiteral (h : Lexical token .intLiteral) :
    (integerLiteral token).Producible :=
  ⟨h.1, h.2.2 rfl⟩

theorem characterLiteral (h : Lexical token .charLiteral) :
    (characterLiteral token).Producible :=
  h.1

end Lexical

/-- The doubling `v := v * 2` has an operator and a literal of its own. -/
theorem producible_doubling {target : Vname} (h : target.Producible) :
    (Command.assign .nowhere target
      (.binary .nowhere none (.vname .nowhere none target) ⟨"*", .nowhere, none⟩
        (.integer .nowhere none ⟨"2", .nowhere⟩))).Producible :=
  ⟨h, rfl, ⟨rfl, h⟩, ⟨.operator (List.all_iff_forall_prop.1 rfl) (by decide), rfl⟩, rfl,
    .intLiteral (List.all_iff_forall_prop.1 rfl), by decide⟩

theorem Rule.produces : {N : Nonterminal} → (rule : Rule N) → (values : Values rule.body) →
    Produced rule.body values → N.Produces (rule.build values)
  | _, .command, _, ⟨hfirst, hmore, _⟩ => hmore _ hfirst
  | _, .noMoreCommands, _, _ => fun _ hbefore => hbefore
  | _, .moreCommands, _, ⟨_, hsecond, hmore, _⟩ => fun _ hbefore => hmore _ ⟨hbefore, hsecond⟩
  | _, .emptyCommand, _, _ => trivial
  | _, .ledCommand, _, ⟨hname, hrest, _⟩ => hrest _ hname.name
  | _, .beginEnd, _, ⟨_, hinner, _⟩ => hinner
  | _, .braces, _, ⟨_, hinner, _⟩ => hinner
  | _, .letCommand, _, ⟨_, hdeclared, _, hbody, _⟩ => ⟨hdeclared, hbody⟩
  | _, .ifCommand, _, ⟨_, hcondition, _, hthen, _, helse, _⟩ => ⟨hcondition, hthen, helse⟩
  | _, .whileCommand, _, ⟨_, hcondition, _, hbody, _⟩ => ⟨hcondition, hbody⟩
  | _, .repeatCommand, _, ⟨_, hbody, _, hcondition, _⟩ => ⟨hbody, hcondition⟩
  | _, .loopCommand, _, ⟨_, hbody, _, hcondition, _, htail, _⟩ => ⟨hbody, hcondition, htail⟩
  | _, .callCommand, _, ⟨_, hactuals, _⟩ => fun _ hname => ⟨hname, hactuals⟩
  | _, .change, _, ⟨hpath, hassign, _⟩ => fun _ hname => hassign _ (hpath _ ⟨rfl, rfl, hname⟩)
  | _, .becomes, _, ⟨_, hvalue, _⟩ => fun _ htarget => ⟨htarget, hvalue⟩
  | _, .doubling, _, _ => fun _ htarget => producible_doubling htarget
  | _, .noPath, _, _ => fun _ hvname => hvname
  | _, .dot, _, ⟨_, hfield, hpath, _⟩ => fun _ hrecord =>
    hpath _ ⟨rfl, rfl, hrecord, hfield.name⟩
  | _, .subscript, _, ⟨_, hindex, _, hpath, _⟩ => fun _ harray =>
    hpath _ ⟨rfl, rfl, harray, hindex⟩
  | _, .letExpression, _, ⟨_, hdeclared, _, hbody, _⟩ => ⟨rfl, hdeclared, hbody⟩
  | _, .ifExpression, _, ⟨_, hcondition, _, hthen, _, helse, _⟩ =>
    ⟨rfl, hcondition, hthen, helse⟩
  | _, .operation, _, ⟨hfirst, hmore, _⟩ => hmore _ hfirst
  | _, .noOperations, _, _ => fun _ hbefore => hbefore
  | _, .moreOperations, _, ⟨hop, hright, hmore, _⟩ => fun _ hbefore =>
    hmore _ ⟨rfl, hbefore, hop.operator, hright⟩
  | _, .integer, _, ⟨hliteral, _⟩ => ⟨rfl, hliteral.integerLiteral⟩
  | _, .character, _, ⟨hliteral, _⟩ => ⟨rfl, hliteral.characterLiteral⟩
  | _, .array, _, ⟨_, helements, _⟩ => ⟨rfl, helements⟩
  | _, .record, _, ⟨_, hfields, _⟩ => ⟨rfl, hfields⟩
  | _, .ledPrimary, _, ⟨hname, hrest, _⟩ => hrest _ hname.name
  | _, .unary, _, ⟨hop, hoperand, _⟩ => ⟨rfl, hop.operator, hoperand⟩
  | _, .parentheses, _, ⟨_, hinner, _⟩ => hinner
  | _, .callExpression, _, ⟨_, hactuals, _⟩ => fun _ hname => ⟨rfl, hname, hactuals⟩
  | _, .vname, _, ⟨hpath, _⟩ => fun _ hname => ⟨rfl, hpath _ ⟨rfl, rfl, hname⟩⟩
  | _, .elements, _, ⟨hfirst, hrest, _⟩ => hrest _ hfirst
  | _, .lastElement, _, _ => fun _ hfirst => hfirst
  | _, .moreElements, _, ⟨_, hothers, _⟩ => fun _ hfirst => ⟨hfirst, hothers⟩
  | _, .fieldValues, _, ⟨hname, _, hvalue, hrest, _⟩ => hrest _ _ hname.name hvalue
  | _, .lastFieldValue, _, _ => fun _ _ hname hvalue => ⟨hname, hvalue⟩
  | _, .moreFieldValues, _, ⟨_, hothers, _⟩ => fun _ _ hname hvalue => ⟨hname, hvalue, hothers⟩
  | _, .declaration, _, ⟨hfirst, hmore, _⟩ => hmore _ hfirst.1
  | _, .noMoreDeclarations, _, _ => fun _ hbefore => hbefore
  | _, .moreDeclarations, _, ⟨_, hsecond, hmore, _⟩ => fun _ hbefore =>
    hmore _ ⟨hbefore, hsecond⟩
  | _, .constDeclaration, _, ⟨_, hname, _, hvalue, _⟩ => ⟨⟨rfl, hname.name, hvalue⟩, trivial⟩
  | _, .varDeclaration, _, ⟨_, hname, _, htype, _⟩ => ⟨⟨rfl, hname.name, htype⟩, trivial⟩
  | _, .procDeclaration, _, ⟨_, hname, _, hformals, _, _, hbody, _⟩ =>
    ⟨⟨rfl, hname.name, hformals, hbody⟩, trivial⟩
  | _, .funcDeclaration, _, ⟨_, hname, _, hformals, _, _, hresult, _, hbody, _⟩ =>
    ⟨⟨rfl, hname.name, hformals, hresult, hbody⟩, trivial⟩
  | _, .typeDeclaration, _, ⟨_, hname, _, htype, _⟩ => ⟨⟨rfl, hname.name, htype⟩, trivial⟩
  | _, .noFormals, _, _ => trivial
  | _, .formals, _, ⟨hall, _⟩ => hall.1
  | _, .someFormals, _, ⟨hfirst, hrest, _⟩ => hrest _ hfirst
  | _, .lastFormal, _, _ => fun _ hfirst => ⟨hfirst, trivial⟩
  | _, .moreFormals, _, ⟨_, hothers, _⟩ => fun _ hfirst => ⟨⟨hfirst, hothers⟩, trivial⟩
  | _, .constFormal, _, ⟨hname, _, htype, _⟩ => ⟨rfl, hname.name, htype⟩
  | _, .varFormal, _, ⟨_, hname, _, htype, _⟩ => ⟨rfl, hname.name, htype⟩
  | _, .procFormal, _, ⟨_, hname, _, hformals, _⟩ => ⟨rfl, hname.name, hformals⟩
  | _, .funcFormal, _, ⟨_, hname, _, hformals, _, _, hresult, _⟩ =>
    ⟨rfl, hname.name, hformals, hresult⟩
  | _, .noActuals, _, _ => trivial
  | _, .actuals, _, ⟨hall, _⟩ => hall.1
  | _, .someActuals, _, ⟨hfirst, hrest, _⟩ => hrest _ hfirst
  | _, .lastActual, _, _ => fun _ hfirst => ⟨hfirst, trivial⟩
  | _, .moreActuals, _, ⟨_, hothers, _⟩ => fun _ hfirst => ⟨⟨hfirst, hothers⟩, trivial⟩
  | _, .constActual, _, ⟨hvalue, _⟩ => hvalue
  | _, .varActual, _, ⟨_, hname, hpath, _⟩ => hpath _ ⟨rfl, rfl, hname.name⟩
  | _, .procActual, _, ⟨_, hname, _⟩ => hname.name
  | _, .funcActual, _, ⟨_, hname, _⟩ => hname.name
  | _, .namedType, _, ⟨hname, _⟩ => hname.name
  | _, .arrayType, _, ⟨_, hlength, _, helement, _⟩ => ⟨hlength.integerLiteral, helement⟩
  | _, .recordType, _, ⟨_, hfields, _⟩ => hfields
  | _, .fields, _, ⟨hname, _, htype, hrest, _⟩ => hrest _ _ hname.name htype
  | _, .lastField, _, _ => fun _ _ hname htype => ⟨hname, htype⟩
  | _, .moreFields, _, ⟨_, hothers, _⟩ => fun _ _ hname htype => ⟨hname, htype, hothers⟩

/-- The end of the text is no part of a phrase. -/
theorem Rule.endOfText_notMem {N : Nonterminal} (rule : Rule N) :
    .token .endOfText ∉ rule.body := by
  cases rule <;> decide

/-- What is derived from lexemes is producible. -/
theorem Derivation.produced {pieces : List Piece} (d : Derivation pieces)
    (h : ∀ token ∈ d.tokens, token.kind ≠ .endOfText →
      Scan.IsLexeme token.kind token.spelling.toList)
    (hends : .token .endOfText ∉ pieces) : Produced pieces d.values := by
  induction d with
  | done => trivial
  | @token kind pieces t stands rest ih =>
    rw [List.mem_cons, not_or] at hends
    have hkind : t.kind ≠ .endOfText := fun heq => hends.1 (by rw [← stands.1, heq])
    have hlexeme := h t List.mem_cons_self hkind
    rw [stands.1] at hlexeme
    exact ⟨⟨hlexeme, stands⟩, ih (fun t' hmem => h t' (List.mem_cons_of_mem _ hmem)) hends.2⟩
  | @phrase N pieces rule inner rest ihinner ihrest =>
    rw [List.mem_cons, not_or] at hends
    have hinner := ihinner (fun t hmem => h t (List.mem_append_left _ hmem))
      rule.endOfText_notMem
    exact ⟨rule.produces _ hinner,
      ihrest (fun t hmem => h t (List.mem_append_right _ hmem)) hends.2⟩

end Parsing

/-- The tree of a text is producible, positions aside. -/
theorem Program.producible_of_parse {text : String} {program : Program}
    (h : Program.parse text = .ok program) : program.command.bare.Producible := by
  obtain ⟨parsed, d, hok, hderives, htree⟩ | ⟨e, herror, -⟩ := Parsing.parse_cases text
  · rw [h] at hok
    cases hok
    rw [htree]
    obtain ⟨head, rest, rfl⟩ := d.exists_cons
    have htokens : ∀ token ∈ head.tokens, token ∈ tokenize text := by
      intro token hmem
      rw [← hderives.tokens, Parsing.Derivation.tokens_cons]
      exact List.mem_append_left _ hmem
    have hproduced := head.produced
      (fun token hmem => Scan.isLexeme_of_tokenize (htokens token hmem)) (by decide)
    rw [Parsing.Derivation.tree, Parsing.Derivation.values_cons]
    exact hproduced.1
  · rw [h] at herror
    cases herror

end TriangleTam
