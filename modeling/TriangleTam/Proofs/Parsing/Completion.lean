import TriangleTam.Proofs.Printing.Derived

/-! # Phrases that were begun can be completed

  Every phrase of the grammar has a sentence, and one that may stand anywhere:
  the shortest productions lead to it. So what was read of a phrase up to a
  halt can be **completed**. The phrases that are still open are filled with
  such sentences.

  An empty command at the end of what was read is the only obstacle. It is
  allowed by the token behind it, which the completion does not have, so a
  sentence that may stand anywhere takes its place.
-/

namespace TriangleTam.Parsing

/-! ## Completions -/

/-- The tokens `taken`, with lexemes behind them, are derived from the pieces wherever they
    stand. -/
def Completable (pieces : List Piece) (taken : List Token) : Prop :=
  ∃ (d : Derivation pieces) (more : List Token), d.tokens = taken ++ more ∧
    (∀ token ∈ more, Proper token token.kind) ∧ ∀ after, d.Allowed after

/-- An empty production is the only one that is not allowed everywhere. -/
theorem Rule.allows_or_empty {N : Nonterminal} (rule : Rule N) :
    (∀ next, rule.allows next = true) ∨ rule.body = [] := by
  cases rule with
  | emptyCommand => exact .inr rfl
  | _ => exact .inl fun _ => rfl

namespace Completable

variable {pieces : List Piece} {taken : List Token}

theorem done : Completable [] [] := ⟨.done, [], rfl, nofun, fun _ => trivial⟩

theorem token {kind : TokenKind} {token : Token} (hproper : Proper token kind)
    (h : Completable pieces []) : Completable (.token kind :: pieces) [] := by
  obtain ⟨d, more, hmore, hlexemes, hallowed⟩ := h
  obtain rfl : token.kind = kind := hproper.lexical.2.1
  refine ⟨.token token hproper.lexical.2 d, token :: more, ?_, ?_, hallowed⟩
  · rw [Derivation.tokens, hmore]
    rfl
  · exact List.forall_mem_cons.2 ⟨hproper, hlexemes⟩

/-- The halt was inside of the first phrase, and the others are filled. -/
theorem phrase {N : Nonterminal} (rule : Rule N) (hallows : ∀ next, rule.allows next = true)
    (hinner : Completable rule.body taken) (h : Completable pieces []) :
    Completable (.phrase N :: pieces) taken := by
  obtain ⟨inner, more, hmore, hlexemes, hallowed⟩ := hinner
  obtain ⟨rest, more', hmore', hlexemes', hallowed'⟩ := h
  refine ⟨.phrase rule inner rest, more ++ more', ?_, ?_, ?_⟩
  · rw [Derivation.tokens, hmore, hmore', List.nil_append, List.append_assoc]
  · exact List.forall_mem_append.2 ⟨hlexemes, hlexemes'⟩
  · intro after
    exact ⟨hallows _, hallowed _, hallowed' after⟩

end Completable

/-! ## Short sentences -/

/-- A token of the class. -/
def specimen : TokenKind → Token
  | .intLiteral => ⟨.intLiteral, "0", .nowhere⟩
  | .charLiteral => ⟨.charLiteral, "'0'", .nowhere⟩
  | .identifier => ⟨.identifier, "x", .nowhere⟩
  | .operator => ⟨.operator, "+", .nowhere⟩
  | kind => kind.printed

/-- The piece is a phrase, or a token of a class that has lexemes. -/
def Piece.genuine : Piece → Bool
  | .token kind => kind ∉ [.endOfText, .error]
  | .phrase _ => true

theorem Rule.genuine_body {N : Nonterminal} (rule : Rule N) :
    ∀ piece ∈ rule.body, piece.genuine = true := by
  cases rule <;> decide

theorem proper_specimen {kind : TokenKind} (h : (Piece.token kind).genuine = true) :
    Proper (specimen kind) kind := by
  have hzero : Scan.IsLexeme .intLiteral "0".toList :=
    .intLiteral (List.all_iff_forall_prop.1 rfl)
  have hname : Scan.IsLexeme .identifier "x".toList :=
    .identifier ⟨'x', [], rfl, rfl, nofun⟩ (by decide)
  have hplus : Scan.IsLexeme .operator "+".toList :=
    .operator (List.all_iff_forall_prop.1 rfl) (by decide)
  cases kind with
  | intLiteral => exact ⟨⟨hzero, rfl, fun _ => by decide⟩, nofun⟩
  | charLiteral => exact ⟨⟨.charLiteral '0', rfl, nofun⟩, nofun⟩
  | identifier => exact ⟨⟨hname, rfl, nofun⟩, nofun⟩
  | operator => exact ⟨⟨hplus, rfl, nofun⟩, nofun⟩
  | doubleOperator => exact ⟨⟨.doubleOperator, rfl, nofun⟩, nofun⟩
  | endOfText | error => cases h
  | _ => exact proper_printed (by decide)

namespace Nonterminal

/-- A production of the phrase that leads to a short sentence. -/
def shortest : (N : Nonterminal) → Rule N
  | command => .command
  -- a call, since an empty command may not stand everywhere
  | singleCommand => .ledCommand
  | expression => .operation
  | primary => .integer
  | declaration => .declaration
  | singleDeclaration => .typeDeclaration
  | formals => .noFormals
  | someFormals => .someFormals
  | formal => .constFormal
  | actuals => .noActuals
  | someActuals => .someActuals
  | actual => .procActual
  | type => .namedType
  | fields => .fields
  | elements => .elements
  | fieldValues => .fieldValues
  | commands => .noMoreCommands
  | ledCommand => .callCommand
  | assignment => .doubling
  | path => .noPath
  | operations => .noOperations
  | ledPrimary => .vname
  | declarations => .noMoreDeclarations
  | formalsRest => .lastFormal
  | actualsRest => .lastActual
  | fieldsRest => .lastField
  | elementsRest => .lastElement
  | fieldValuesRest => .lastFieldValue

/-- How many productions deep the short sentence is. -/
def depth : Nonterminal → Nat
  | command => 4
  | singleCommand | declaration | someFormals | elements | fieldValues => 3
  | ledCommand | expression | ledPrimary | singleDeclaration | formal | someActuals | fields => 2
  | _ => 1

theorem allows_shortest (N : Nonterminal) (next : TokenKind) :
    N.shortest.allows next = true := by
  cases N <;> rfl

end Nonterminal

/-- How many productions deep the short sentence of the piece is. -/
def Piece.depth : Piece → Nat
  | .token _ => 0
  | .phrase N => N.depth

theorem Nonterminal.depth_shortest (N : Nonterminal) :
    ∀ piece ∈ N.shortest.body, piece.depth < N.depth := by
  cases N <;> decide

/-- Pieces are filled by short sentences. The induction is on how deep these are. -/
theorem completable_nil (pieces : List Piece) (h : ∀ piece ∈ pieces, piece.genuine = true) :
    Completable pieces [] := by
  have hall : ∀ n, ∀ pieces : List Piece, (∀ piece ∈ pieces, piece.genuine = true) →
      (∀ piece ∈ pieces, piece.depth < n) → Completable pieces [] := by
    intro n
    induction n with
    | zero =>
      intro pieces _ hdepth
      cases pieces with
      | nil => exact .done
      | cons piece others => exact absurd (hdepth piece List.mem_cons_self) (Nat.not_lt_zero _)
    | succ n ihn =>
      intro pieces hgenuine hdepth
      induction pieces with
      | nil => exact .done
      | cons piece others ih =>
        obtain ⟨hpiece, hothers⟩ := List.forall_mem_cons.1 hgenuine
        obtain ⟨hlow, hlows⟩ := List.forall_mem_cons.1 hdepth
        have hfilled : Completable others [] := ih hothers hlows
        cases piece with
        | token kind => exact hfilled.token (proper_specimen hpiece)
        | phrase N =>
          refine .phrase N.shortest N.allows_shortest ?_ hfilled
          apply ihn _ N.shortest.genuine_body
          intro piece hmem
          exact Nat.lt_of_lt_of_le (N.depth_shortest piece hmem) (Nat.le_of_lt_succ hlow)
  -- no piece is deeper than a command
  refine hall 5 pieces h fun piece _ => ?_
  cases piece with
  | token kind => exact Nat.zero_lt_succ 4
  | phrase N => cases N <;> decide

/-! ## Completions behind what was read -/

/-- The sentence of a single phrase that may stand anywhere. -/
theorem exists_anywhere (N : Nonterminal) : Completable [.phrase N] [] := by
  refine completable_nil _ fun piece hmem => ?_
  rw [List.mem_singleton.1 hmem]
  rfl

/-- What was derived in its place can be completed to what may stand anywhere. -/
theorem Derivation.completable {pieces : List Piece} (d : Derivation pieces) {after : List Token}
    (h : d.Allowed after) : Completable pieces d.tokens := by
  induction d generalizing after with
  | done => exact .done
  | token t stands rest ih =>
    obtain ⟨rest', more, hmore, hlexemes, hallowed⟩ := ih h
    refine ⟨.token t stands rest', more, ?_, hlexemes, hallowed⟩
    rw [tokens, hmore]
    rfl
  | @phrase N pieces rule inner rest ihinner ihrest =>
    obtain ⟨hallows, hinner, hrest⟩ := h
    obtain ⟨rest', more, hmore, hlexemes, hallowed⟩ := ihrest hrest
    rw [tokens]
    cases hbehind : rest.tokens with
    | cons t others =>
      -- the same token comes behind the phrase, which can stay as it is
      have hnext (tokens : List Token) :
          lookahead (rest.tokens ++ after) = lookahead (rest'.tokens ++ tokens) := by
        rw [hmore, hbehind]
        rfl
      refine ⟨.phrase rule inner rest', more, ?_, hlexemes, fun tokens => ⟨?_, ?_, hallowed tokens⟩⟩
      · rw [Derivation.tokens, hmore, hbehind, List.append_assoc]
      · rw [← lookahead_congr inner.tokens (hnext tokens)]
        exact hallows
      · exact hinner.congr (hnext tokens)
    | nil =>
      rw [hbehind, List.nil_append] at hmore
      rw [List.append_nil]
      -- nothing comes behind the phrase, which has to be completed itself
      have hphrase : Completable [.phrase N] inner.tokens := by
        rcases rule.allows_or_empty with heverywhere | hempty
        · exact .phrase rule heverywhere (ihinner hinner) .done
        · have hnone : inner.tokens = [] := by
            clear ihinner hinner hallows
            revert inner
            rw [hempty]
            intro inner
            cases inner
            rfl
          rw [hnone]
          exact exists_anywhere N
      obtain ⟨first, more', hmore', hlexemes', hallowed'⟩ := hphrase
      refine ⟨first.cons rest', more' ++ more, ?_, ?_, fun tokens => ?_⟩
      · rw [tokens_cons, hmore, hmore', List.append_assoc]
      · exact List.forall_mem_append.2 ⟨hlexemes', hlexemes⟩
      · exact (allowed_cons first rest' tokens).2 ⟨hallowed' _, hallowed tokens⟩

/-- What was read up to a halt can be completed. -/
theorem Halts.completable {pieces : List Piece} {taken : List Token} {token : Token}
    (h : Halts pieces taken token) (hgenuine : ∀ piece ∈ pieces, piece.genuine = true) :
    Completable pieces taken := by
  induction h with
  | token wrong => exact completable_nil _ hgenuine
  | untold untold => exact completable_nil _ hgenuine
  | @inside N pieces taken token rule told inner ih =>
    have hfilled := completable_nil pieces (List.forall_mem_cons.1 hgenuine).2
    refine .phrase rule ?_ (ih rule.genuine_body) hfilled
    rcases rule.allows_or_empty with heverywhere | hempty
    · exact heverywhere
    · -- reading no pieces at all halts nowhere
      rw [hempty] at inner
      cases inner
  | @behind piece pieces taken token d predicted rest ih =>
    obtain ⟨others, more, hmore, hlexemes, hallowed⟩ := ih (List.forall_mem_cons.1 hgenuine).2
    cases taken with
    | cons t tokens =>
      -- the first piece has the same token behind it as it had
      refine ⟨d.cons others, more, ?_, hlexemes, fun after => ?_⟩
      · rw [Derivation.tokens_cons, hmore, List.append_assoc]
      · refine (d.allowed_cons others after).2 ⟨predicted.allowed.congr ?_, hallowed after⟩
        rw [hmore]
        rfl
    | nil =>
      obtain ⟨first, more', hmore', hlexemes', hallowed'⟩ := d.completable predicted.allowed
      rw [List.append_nil]
      refine ⟨first.cons others, more' ++ more, ?_, ?_, fun after => ?_⟩
      · rw [Derivation.tokens_cons, hmore, hmore', List.nil_append, List.append_assoc]
      · exact List.forall_mem_append.2 ⟨hlexemes', hlexemes⟩
      · exact (first.allowed_cons others after).2 ⟨hallowed' _, hallowed after⟩

end TriangleTam.Parsing
