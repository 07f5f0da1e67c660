import TriangleTam.Proofs.Folding.Chains
import TriangleTam.Proofs.Printing.RoundTrip
import TriangleTam.Proofs.Typing.Exact

/-! # Arithmetic on literals, from the text on

  A program that assigns a sequence of operations on literals to an integer
  variable is parsed to a chain, checked without a report, and folded from
  the left for as long as the machine has the results.
-/

namespace TriangleTam

open Arithmetic

/-! ## The text -/

namespace Arithmetic

def Literal.printed (literal : Literal) : Token := ⟨.intLiteral, literal.spelling, .nowhere⟩

def Operation.printed (operation : Operation) : List Token :=
  [⟨.operator, operation.operator, .nowhere⟩, operation.literal.printed]

open TokenKind in
/-- The tokens of `let var v: Integer in v := n₀ ⊕₁ n₁ … ⊕ₖ nₖ`. -/
def assignment (name : String) (first : Literal) (operations : List Operation) : List Token :=
  letWord.printed :: varWord.printed :: ⟨.identifier, name, .nowhere⟩ :: colon.printed ::
    ⟨.identifier, "Integer", .nowhere⟩ :: inWord.printed :: ⟨.identifier, name, .nowhere⟩ ::
    becomes.printed :: first.printed :: operations.flatMap Operation.printed

/-- The literal as it is parsed. -/
def Literal.parsed (literal : Literal) : Expression :=
  .integer .nowhere none ⟨literal.spelling, .nowhere⟩

/-- The operation as it is parsed. -/
def Operation.parsed (operation : Operation) : Expression.Step :=
  ⟨.nowhere, none, ⟨operation.operator, .nowhere, none⟩, operation.literal.parsed⟩

end Arithmetic

/-! ## Parsing -/

namespace Parsing

open Spells

theorem says_literal {literal : Literal}
    (h : Scan.IsLexeme .intLiteral literal.spelling.toList) :
    Says .primary [literal.printed] literal.parsed := by
  have hword : (Numeral.toWord? literal.spelling).isSome := by
    rw [literal.word]
    rfl
  have hproper : Proper literal.printed .intLiteral := ⟨⟨h, rfl, fun _ => hword⟩, nofun⟩
  exact rule .integer (fun _ => rfl) (token hproper done)

/-- More operations make a chain of what was built before. -/
theorem says_operations : (operations : List Operation) →
    (∀ token ∈ operations.flatMap Operation.printed,
      Scan.IsLexeme token.kind token.spelling.toList) →
    Says .operations (operations.flatMap Operation.printed)
      fun before => before.chain (operations.map Operation.parsed)
  | [], _ => rule .noOperations (fun _ => rfl) done
  | operation :: others, h => by
    obtain ⟨hoperator, h⟩ := List.forall_mem_cons.1 h
    obtain ⟨hliteral, h⟩ := List.forall_mem_cons.1 h
    have hproper : Proper ⟨.operator, operation.operator, .nowhere⟩ .operator :=
      ⟨⟨hoperator, rfl, nofun⟩, nofun⟩
    exact rule .moreOperations (fun _ => rfl) <| token hproper <|
      phrase (says_literal hliteral) (says_operations others h)

/-- The tokens are the command that declares the variable and assigns the chain to it. -/
theorem says_assignment {name : String} {first : Literal} {operations : List Operation}
    (h : ∀ token ∈ assignment name first operations,
      Scan.IsLexeme token.kind token.spelling.toList) :
    SaysCommand (assignment name first operations)
      (.letIn .nowhere (.var .nowhere false ⟨name, .nowhere, none⟩
          (.named .nowhere ⟨"Integer", .nowhere, none⟩))
        (.assign .nowhere (.simple .nowhere none false ⟨name, .nowhere, none⟩)
          (first.parsed.chain (operations.map Operation.parsed)))) := by
  -- bottom up: the tokens, the value, the target and the declaration, then the command
  have hname : Proper ⟨.identifier, name, .nowhere⟩ .identifier :=
    ⟨⟨h ⟨.identifier, name, .nowhere⟩ (by simp [assignment]), rfl, nofun⟩, nofun⟩
  have htype : Proper ⟨.identifier, "Integer", .nowhere⟩ .identifier :=
    ⟨⟨h ⟨.identifier, "Integer", .nowhere⟩ (by simp [assignment]), rfl, nofun⟩, nofun⟩
  have hfirst := says_literal (h first.printed (by simp [assignment]))
  have hothers := says_operations operations fun token hmem =>
    h token (by simp [assignment, List.mem_flatMap.1 hmem])
  have hvalue : Says .expression (first.printed :: operations.flatMap Operation.printed)
      (first.parsed.chain (operations.map Operation.parsed)) :=
    rule .operation (fun _ => rfl) <| phrase hfirst hothers
  have hvname : SaysVname [⟨.identifier, name, .nowhere⟩]
      (.simple .nowhere none false ⟨name, .nowhere, none⟩) :=
    ⟨_, [], id, rfl, hname, rule .noPath (fun _ => rfl) done, rfl⟩
  have hdeclared : Says .singleDeclaration [TokenKind.varWord.printed,
      ⟨.identifier, name, .nowhere⟩, TokenKind.colon.printed, ⟨.identifier, "Integer", .nowhere⟩]
      (.var .nowhere false ⟨name, .nowhere, none⟩
        (.named .nowhere ⟨"Integer", .nowhere, none⟩)) :=
    rule .varDeclaration (fun _ => rfl) <| mark (by decide) <| token hname <|
      mark (by decide) <| rule .namedType (fun _ => rfl) <| token htype done
  exact Says.command <| rule .letCommand (fun _ => rfl) <| mark (by decide) <|
    phrase hdeclared.single.declaration <| mark (by decide) <| hvname.assign hvalue

theorem lexemes_same {found tokens : List Token} (h : List.Forall₂ Token.Same found tokens)
    (hfound : ∀ token ∈ found, Scan.IsLexeme token.kind token.spelling.toList) :
    ∀ token ∈ tokens, Scan.IsLexeme token.kind token.spelling.toList := by
  induction h with
  | nil => nofun
  | cons hsame _ ih =>
    obtain ⟨hfirst, hothers⟩ := List.forall_mem_cons.1 hfound
    rw [hsame.kind, hsame.spelling] at hfirst
    exact List.forall_mem_cons.2 ⟨hfirst, ih hothers⟩

/-- A text with the tokens of an assignment is parsed to the command. -/
theorem parse_assignment {text name : String} {first : Literal} {operations : List Operation}
    (h : List.Forall₂ Token.Same (tokenize text).dropLast (assignment name first operations)) :
    ∃ parsed, Program.parse text = .ok parsed ∧ parsed.command.bare =
      .letIn .nowhere (.var .nowhere false ⟨name, .nowhere, none⟩
          (.named .nowhere ⟨"Integer", .nowhere, none⟩))
        (.assign .nowhere (.simple .nowhere none false ⟨name, .nowhere, none⟩)
          (first.parsed.chain (operations.map Operation.parsed))) ∧
      Scan.IsLexeme .identifier name.toList := by
  obtain ⟨found, ending, htokenize, hending, hproper⟩ := (Scan.Cursor.ofText text).tokens_eq
  have htokenize : tokenize text = found ++ [ending] := htokenize
  rw [htokenize, List.dropLast_concat] at h
  -- what a text has for tokens are lexemes
  have hlexemes : ∀ token ∈ assignment name first operations,
      Scan.IsLexeme token.kind token.spelling.toList := by
    have hfound : ∀ token ∈ found, Scan.IsLexeme token.kind token.spelling.toList := by
      intro token hmem
      have hin : token ∈ tokenize text := by
        rw [htokenize]
        exact List.mem_append_left _ hmem
      exact Scan.isLexeme_of_tokenize hin (hproper token hmem)
    exact lexemes_same h hfound
  obtain ⟨-, d, hd, hvalues, hallowed⟩ := says_assignment hlexemes
  rw [← hd] at h
  obtain ⟨d', hderives, htree⟩ := d.exists_derives htokenize hending h fun after hends =>
    hallowed after (by rw [hends]; decide)
  obtain ⟨parsed, hok, hbare⟩ := hderives.parse
  exact ⟨parsed, hok, hbare.trans (htree.trans (congrArg Prod.fst hvalues)),
    hlexemes ⟨.identifier, name, .nowhere⟩ (by simp [assignment])⟩

end Parsing

/-! ## Checking -/

/-- The standard environment has the operators under their bindings. -/
theorem Env.find?_operator {operator : String} (h : operator ∈ ["+", "-", "*", "/", "//"]) :
    ∃ id declaration, Env.standard.find? operator =
        some (id, .binary .integer .integer .integer) ∧
      Standard.declaration? id = some declaration ∧ declaration.name = operator := by
  simp only [List.mem_cons, List.not_mem_nil, or_false] at h
  rcases h with rfl | rfl | rfl | rfl | rfl
  · exact ⟨10, _, rfl, rfl, rfl⟩
  · exact ⟨11, _, rfl, rfl, rfl⟩
  · exact ⟨12, _, rfl, rfl, rfl⟩
  · exact ⟨13, _, rfl, rfl, rfl⟩
  · exact ⟨14, _, rfl, rfl, rfl⟩

/-- A tree that is a chain, positions aside, has integers for its values, and the decoration is a
    chain of the same operations. -/
theorem Expression.chain_typed {Γ : Env} {s : Supply} {e : Expression} {first : Literal}
    {operations : List Operation}
    (hΓ : ∀ operation ∈ operations, Γ.find? operation.operator =
      Env.standard.find? operation.operator)
    (h : e.bare = first.parsed.chain (operations.map Operation.parsed)) :
    ∃ span literal steps, literal.spelling = first.spelling ∧
      List.Forall₂ Step.Links steps operations ∧
      Expression.Typed Γ s e
        ((Expression.integer span (some .integer) literal).chain steps) .integer s := by
  -- the chain associates to the left, so that its last operation is the root
  induction operations using List.reverseRecOn generalizing e with
  | nil =>
    cases e with
    | integer span type literal =>
      obtain ⟨-, -, hliteral⟩ := Expression.integer.inj h
      exact ⟨span, literal, [], congrArg IntegerLiteral.spelling hliteral, .nil, .integer⟩
    | _ => cases h
  | append_singleton operations operation ih =>
    rw [List.map_append, List.map_singleton, chain_concat] at h
    cases e with
    | binary span type left operator right =>
      obtain ⟨-, -, hleft, hoperator, hright⟩ := Expression.binary.inj h
      obtain ⟨first', literal', steps, hfirst, hsteps, htyped⟩ := ih
        (fun before hmem => hΓ before (List.mem_append_left _ hmem)) hleft
      cases right with
      | integer span' type' literal =>
        obtain ⟨-, -, hliteral⟩ := Expression.integer.inj hright
        obtain ⟨id, declaration, hfind, hat, hname⟩ := Env.find?_operator operation.listed
        have hspelling : operator.spelling = operation.operator :=
          congrArg Name.spelling hoperator
        -- the operator is found as in the standard environment
        rw [← hΓ operation (by simp), ← hspelling] at hfind
        refine ⟨first', literal', steps ++ [⟨span, some .integer, operator.link id,
          .integer span' (some .integer) literal⟩], hfirst, ?_, ?_⟩
        · refine List.rel_append hsteps (.cons ⟨hspelling, ?_, ?_⟩ .nil)
          · exact ⟨id, declaration, rfl, hat, hname⟩
          · exact ⟨span', _, literal, rfl, congrArg IntegerLiteral.spelling hliteral⟩
        · rw [chain_concat]
          exact .binary htyped .integer hfind rfl rfl
      | _ => cases hright
    | _ => cases h

theorem Env.find?_enter_of_ne {Γ : Env} {name other : String} (h : other ≠ name)
    (id : BindingId) (kind : BindingKind) :
    (Γ.enter name id kind).find? other = Γ.find? other := by
  unfold Env.find? Env.enter
  rw [List.findSome?_cons, List.findSome?_cons, List.lookup_cons, beq_false_of_ne h]

theorem Env.find?_enter_self (Γ : Env) (name : String) (id : BindingId) (kind : BindingKind) :
    (Γ.enter name id kind).find? name = some (id, kind) := by
  unfold Env.find? Env.enter
  rw [List.findSome?_cons, List.lookup_cons, BEq.rfl]

/-- No operator is an identifier. -/
theorem operator_ne_identifier {name operator : String}
    (h : Scan.IsLexeme .identifier name.toList) (hlisted : operator ∈ ["+", "-", "*", "/", "//"]) :
    operator ≠ name := by
  rintro rfl
  have hclass : ∀ operator ∈ ["+", "-", "*", "/", "//"],
      Scan.classAlone operator.toList = some .operator := by decide
  have hboth := h.classAlone.symm.trans (hclass operator hlisted)
  cases hboth

/-- Positions aside, there is one such command. -/
theorem Command.exists_assignment {command : Command} {name : String} {value : Expression}
    (h : command.bare =
      .letIn .nowhere (.var .nowhere false ⟨name, .nowhere, none⟩
          (.named .nowhere ⟨"Integer", .nowhere, none⟩))
        (.assign .nowhere (.simple .nowhere none false ⟨name, .nowhere, none⟩) value)) :
    ∃ spanLet spanVar duplicated variableName spanType typeName spanAssign spanTarget type
      isVariable targetName assigned,
      command = .letIn spanLet (.var spanVar duplicated variableName (.named spanType typeName))
        (.assign spanAssign (.simple spanTarget type isVariable targetName) assigned) ∧
      variableName.spelling = name ∧ typeName.spelling = "Integer" ∧
      targetName.spelling = name ∧ assigned.bare = value := by
  -- positions and decorations aside, the constructors are fixed one below the other
  cases command with
  | letIn spanLet declared body =>
    obtain ⟨-, hdeclared, hbody⟩ := Command.letIn.inj h
    cases declared with
    | var spanVar duplicated variableName type =>
      obtain ⟨-, -, hvariable, htype⟩ := Declaration.var.inj hdeclared
      cases body with
      | assign spanAssign target assigned =>
        obtain ⟨-, htarget, hassigned⟩ := Command.assign.inj hbody
        cases type with
        | named spanType typeName =>
          cases target with
          | simple spanTarget type isVariable targetName =>
            exact ⟨_, _, _, _, _, _, _, _, _, _, _, _, rfl, congrArg Name.spelling hvariable,
              congrArg Name.spelling (TypeDenoter.named.inj htype).2,
              congrArg Name.spelling (Vname.simple.inj htarget).2.2.2, hassigned⟩
          | _ => cases htarget
        | _ => cases htype
      | _ => cases hbody
    | _ => cases hdeclared
  | _ => cases h

/-- A command that assigns a chain to an integer variable has a decoration. -/
theorem Command.assignment_typed {command : Command} {name : String} {first : Literal}
    {operations : List Operation} (hname : Scan.IsLexeme .identifier name.toList)
    (h : command.bare =
      .letIn .nowhere (.var .nowhere false ⟨name, .nowhere, none⟩
          (.named .nowhere ⟨"Integer", .nowhere, none⟩))
        (.assign .nowhere (.simple .nowhere none false ⟨name, .nowhere, none⟩)
          (first.parsed.chain (operations.map Operation.parsed)))) (s : Supply) :
    ∃ spanLet spanVar declared spanAssign spanTarget target span literal steps,
      Command.Typed Env.standard s command (.letIn spanLet (.var spanVar false declared .integer)
        (.assign spanAssign (.simple spanTarget (some .integer) true target)
          ((Expression.integer span (some .integer) literal).chain steps))) s.bind ∧
      literal.spelling = first.spelling ∧
      List.Forall₂ Expression.Step.Links steps operations := by
  obtain ⟨spanLet, spanVar, duplicated, variableName, spanType, typeName, spanAssign, spanTarget,
    type, isVariable, targetName, assigned, rfl, hvariable, htype, htarget, hassigned⟩ :=
    Command.exists_assignment h
  -- the body sees the standard names, and inside of them the variable
  let Γ : Env := Env.standard.enclose.enter variableName.spelling s.bindings (.var .integer)
  have hoperators : ∀ operation ∈ operations, Γ.find? operation.operator =
      Env.standard.find? operation.operator := by
    intro operation _
    have hne := operator_ne_identifier hname operation.listed
    rw [← hvariable] at hne
    exact Env.find?_enter_of_ne hne _ _
  have hfound : Γ.find? targetName.spelling = some (s.bindings, .var .integer) := by
    rw [htarget, ← hvariable]
    exact Env.find?_enter_self ..
  have hinteger : Env.standard.enclose.find? typeName.spelling = some (2, .type .integer) := by
    rw [htype]
    rfl
  obtain ⟨span, literal, steps, hfirst, hsteps, htyped⟩ :=
    Expression.chain_typed (s := s.bind) hoperators hassigned
  have hdeclared : Declaration.Typed Env.standard.enclose s
      (.var spanVar duplicated variableName (.named spanType typeName))
      (.var spanVar false (variableName.link s.bindings) .integer) Γ s.bind :=
    .var (.named hinteger) nofun
  exact ⟨spanLet, spanVar, _, spanAssign, spanTarget, _, span, literal, steps,
    .letIn hdeclared (.assign (.var hfound) htyped rfl rfl), hfirst, hsteps⟩

/-! ## Folding -/

/-- Only the value that is assigned is folded. -/
theorem Fold.command_assignment {spanLet spanVar spanAssign spanTarget : Span} {name target : Name}
    {value folded : Expression} {m : Nat} (h : (Fold.expression value).run 0 = (folded, m)) :
    (Fold.command (.letIn spanLet (.var spanVar false name .integer)
      (.assign spanAssign (.simple spanTarget (some .integer) true target) value))).run 0 =
      (.letIn spanLet (.var spanVar false name .integer)
        (.assign spanAssign (.simple spanTarget (some .integer) true target) folded), m) := by
  show (Command.letIn _ _ (.assign _ _ ((Fold.expression value).run 0).1),
    ((Fold.expression value).run 0).2) = _
  rw [h]

theorem Compiler.parse_ok (c : Compiler) {text : String} {program : Program}
    (h : Program.parse text = .ok program) :
    (c.parse text).1 = some program ∧ (c.parse text).2.diagnostics = c.diagnostics := by
  unfold parse
  rw [h]
  exact ⟨rfl, rfl⟩

/-- A compilation without reports checks a well-typed program without one. -/
theorem Compiler.check_typed {c : Compiler} (hclean : c.clean = true)
    {program decorated : Program} (h : program.Typed decorated) :
    (c.check program).1 = decorated ∧ (c.check program).2.diagnostics = c.diagnostics := by
  unfold check
  rw [if_pos hclean]
  exact h.check_eq _

theorem Compiler.fold_clean {c : Compiler} (hclean : c.clean = true) (program : Program) :
    (c.fold program).1 = (program.fold c.journal).program ∧
      (c.fold program).2.1 = (program.fold c.journal).folds ∧
      (c.fold program).2.2.diagnostics = c.diagnostics := by
  unfold fold
  rw [if_pos hclean]
  exact ⟨rfl, rfl, rfl⟩

/-- A text that assigns operations on literals to an integer variable is parsed and checked without
    a report, to a chain of these operations. Folding evaluates the chain from the left: as many
    operations as have results, one after the other, that are defined and in the range of the
    machine, are replaced by the literal of their value. The rest of the chain stays as it is. -/
theorem Compiler.fold_left_to_right (c : Compiler) (hclean : c.clean = true) {text name : String}
    {first : Literal} {operations : List Operation}
    (htokens : List.Forall₂ Token.Same (tokenize text).dropLast
      (assignment name first operations)) :
    ∃ parsed, (c.parse text).1 = some parsed ∧
      let checked := (c.parse text).2.check parsed
      let folded := checked.2.fold checked.1
      folded.2.2.diagnostics = c.diagnostics ∧
      IsGreatest {m | m ≤ operations.length ∧
        ∃ v, LeftToRight first.value (operations.take m) v} folded.2.1 ∧
      ∃ v, LeftToRight first.value (operations.take folded.2.1) v ∧
      ∃ spanLet spanVar declared spanAssign spanTarget target span literal steps,
        literal.spelling = first.spelling ∧
        List.Forall₂ Expression.Step.Links steps operations ∧
        checked.1.command = .letIn spanLet (.var spanVar false declared .integer)
          (.assign spanAssign (.simple spanTarget (some .integer) true target)
            ((Expression.integer span (some .integer) literal).chain steps)) ∧
        folded.1.command = .letIn spanLet (.var spanVar false declared .integer)
          (.assign spanAssign (.simple spanTarget (some .integer) true target)
            ((if folded.2.1 = 0 then .integer span (some .integer) literal
              else Fold.literal span v).chain (steps.drop folded.2.1))) := by
  obtain ⟨⟨command, spanProgram, serials⟩, hok, hbare, hname⟩ :=
    Parsing.parse_assignment htokens
  obtain ⟨spanLet, spanVar, declared, spanAssign, spanTarget, target, span, literal, steps,
    htyped, hfirst, hsteps⟩ :=
    Command.assignment_typed hname hbare (Program.supply ⟨command, spanProgram, serials⟩)
  have hvalue : (Expression.integer span (some .integer) literal).integerValue? =
      some first.value := by
    rw [Expression.integerValue?, IntegerLiteral.value, hfirst, first.word]
    rfl
  obtain ⟨m, v, hreaches, hfolds⟩ := Fold.chain_folds hvalue hsteps
  -- nothing is reported on the way
  obtain ⟨hparsed, hparses⟩ := c.parse_ok hok
  have hclean' : (c.parse text).2.clean = true :=
    (congrArg Array.isEmpty hparses).trans hclean
  obtain ⟨hchecked, hchecks⟩ := Compiler.check_typed hclean' (Program.Typed.command htyped)
  refine ⟨_, hparsed, ?_⟩
  intro checked folded
  have hclean'' : checked.2.clean = true := (congrArg Array.isEmpty hchecks).trans hclean'
  obtain ⟨hprogram, hcount, hreports⟩ := Compiler.fold_clean hclean'' checked.1
  have hcommand := congrArg Program.command hchecked
  have hrun : (Fold.command checked.1.command).run 0 =
      (.letIn spanLet (.var spanVar false declared .integer)
        (.assign spanAssign (.simple spanTarget (some .integer) true target)
          ((Fold.front (.integer span (some .integer) literal) m v).chain (steps.drop m))), m) := by
    have hassigned := hfolds 0
    rw [Nat.zero_add] at hassigned
    rw [hcommand]
    exact Fold.command_assignment hassigned
  have hfolded : folded.2.1 = m := by
    rw [hcount, Program.fold, hrun]
  have hleft := congrArg Program.command hprogram
  rw [Program.fold, hrun] at hleft
  refine ⟨hreports.trans (hchecks.trans hparses), ?_, v, ?_, spanLet, spanVar, declared,
    spanAssign, spanTarget, target, span, literal, steps, hfirst, hsteps, hcommand, ?_⟩
  · rw [hfolded]
    exact hreaches.isGreatest
  · rw [hfolded]
    exact hreaches.value
  · rw [hfolded]
    exact hleft

private def chainText : String := "let var n: Integer in n := 2147483647 - 2147450880 * 2 + 01"

private def chainFirst : Literal := ⟨"2147483647", 2147483647, by decide⟩

private def chainOperations : List Operation :=
  [⟨"-", by decide, ⟨"2147450880", 2147450880, by decide⟩⟩,
   ⟨"*", by decide, ⟨"2", 2, by decide⟩⟩,
   ⟨"+", by decide, ⟨"01", 1, by decide⟩⟩]

/-- The difference of the sample is the greatest value of the machine. It is folded, and the product
    is not. -/
theorem Compiler.fold_left_to_right_sample : (Compiler.new {}).clean = true ∧
    List.Forall₂ Token.Same (tokenize chainText).dropLast
      (assignment "n" chainFirst chainOperations) ∧
    ∃ parsed, ((Compiler.new {}).parse chainText).1 = some parsed ∧
      let checked := ((Compiler.new {}).parse chainText).2.check parsed
      (checked.2.fold checked.1).2.1 = 1 := by
  have htokens : List.Forall₂ Token.Same (tokenize chainText).dropLast
      (assignment "n" chainFirst chainOperations) := by
    decide +kernel
  refine ⟨rfl, htokens, ?_⟩
  obtain ⟨parsed, hparsed, -, ⟨⟨-, v, hvalue⟩, hmost⟩, -⟩ :=
    (Compiler.new {}).fold_left_to_right rfl htokens
  refine ⟨parsed, hparsed, Nat.le_antisymm ?_ ?_⟩
  · by_contra hmore
    -- the product would be in the range of the machine
    obtain ⟨c, htwo⟩ := hvalue.take 2
    rw [List.take_take, Nat.min_eq_left (by omega)] at htwo
    cases htwo with
    | step computes range behind =>
      obtain rfl := computes.unique (.sub _ _)
      cases behind with
      | step computes range behind =>
        obtain rfl := computes.unique (.mult _ _)
        revert range
        decide
  · exact hmost ⟨by decide, _, .step (.sub _ _) (by decide) (.done _)⟩

end TriangleTam
