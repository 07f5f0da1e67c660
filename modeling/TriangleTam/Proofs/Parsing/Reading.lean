import TriangleTam.Proofs.Parsing.Halting
import TriangleTam.Tree.Grammar

/-! # What the parsers read

  A parser **reads** pieces if the tokens that it takes have a predicted
  derivation from the pieces and it returns what that builds, and if it fails
  where reading the pieces halts, with a complaint about the token there.
  Since predicted derivations are unique, parsers that read one after the
  other read one piece after the other. Every function of the recursive
  descent reads its phrase.
-/

namespace TriangleTam

/-- The tokens still to come, with the end marker. -/
def Stream.tokens (s : Stream) : List Token := s.pending ++ [s.ending]

namespace Parsing

theorem lookahead_tokens (s : Stream) : lookahead s.tokens = s.kind := by
  unfold Stream.tokens Stream.kind Stream.current
  cases s.pending <;> rfl

/-- The next token comes first. -/
theorem exists_tokens (s : Stream) : ∃ after, s.tokens = s.current :: after := by
  unfold Stream.tokens Stream.current
  cases s.pending with
  | nil => exact ⟨[], rfl⟩
  | cons token others => exact ⟨others ++ [s.ending], rfl⟩

/-- Reading the pieces halts in the stream, and the diagnostic is about the token there. -/
def HaltsIn (pieces : List Piece) (s : Stream) (d : Diagnostic) : Prop :=
  ∃ taken token after, s.tokens = taken ++ token :: after ∧ Halts pieces taken token ∧
    d.span = token.span

/-- What the parser takes off a stream that ends with an end marker is derived from the pieces,
    and `P` relates what these build to what it returns. Where it fails, it complains about the
    token at which reading the pieces halts. -/
def ReadsAll (pieces : List Piece) (s : Stream) {α : Type} {bound : Nat} (m : Parse α bound)
    (P : Values pieces → α → Prop) : Prop :=
  s.ending.kind = .endOfText →
    match m with
    | .ok parsed => ∃ d : Derivation pieces, s.tokens = d.tokens ++ parsed.rest.tokens ∧
        d.Predicted parsed.rest.tokens ∧ parsed.rest.ending = s.ending ∧ P d.values parsed.value
    | .error e => HaltsIn pieces s e

/-- The parser reads a single piece. -/
def Reads (piece : Piece) (s : Stream) {α : Type} {bound : Nat} (m : Parse α bound)
    (P : piece.Value → α → Prop) : Prop :=
  ReadsAll [piece] s m fun vs a => P vs.1 a

section

variable {α β : Type} {bound bound' : Nat} {s : Stream}

namespace ReadsAll

theorem done {a : α} {h : s.size < bound} {P : Values [] → α → Prop} (hP : P () a) :
    ReadsAll [] s (pure ⟨a, s, h⟩) P :=
  fun _ => ⟨.done, rfl, trivial, rfl, hP⟩

/-- A number for a type denoter is no token. -/
theorem numbered {a : α} {h : s.numbered.size < bound} {P : Values [] → α → Prop}
    (hP : P () a) : ReadsAll [] s (pure ⟨a, s.numbered, h⟩) P :=
  fun _ => ⟨.done, rfl, trivial, rfl, hP⟩

end ReadsAll

namespace Reads

/-- The parsers for the first piece and for the others read the pieces one after the other. -/
theorem andThen {piece : Piece} {pieces : List Piece} {m : Parse α bound}
    {f : Parsed α bound → Parse β bound'} {P : piece.Value → α → Prop}
    {Q : Values (piece :: pieces) → β → Prop} (hm : Reads piece s m P)
    (hf : ∀ a rest shorter v, P v a →
      ReadsAll pieces rest (f ⟨a, rest, shorter⟩) fun vs b => Q (v, vs) b) :
    ReadsAll (piece :: pieces) s (m >>= f) Q := by
  intro hs
  have hm := hm hs
  cases hok : m with
  | error e =>
    rw [hok] at hm
    obtain ⟨taken, token, after, htokens, hhalts, hspan⟩ := hm
    exact ⟨taken, token, after, htokens, hhalts.widen pieces, hspan⟩
  | ok parsed =>
    rw [hok] at hm
    obtain ⟨head, htokens, hpredicted, hending, hP⟩ := hm
    have hf := hf parsed.value parsed.rest parsed.shorter head.values.1 hP (hending ▸ hs)
    show match f parsed with
      | .ok parsed' => _
      | .error _ => _
    cases hok' : f parsed with
    | ok parsed' =>
      rw [hok'] at hf
      obtain ⟨rest, htokens', hpredicted', hending', hQ⟩ := hf
      refine ⟨head.cons rest, ?_, ?_, hending'.trans hending, ?_⟩
      · rw [htokens, htokens', Derivation.tokens_cons, List.append_assoc]
      · rw [Derivation.predicted_cons, ← htokens']
        exact ⟨hpredicted, hpredicted'⟩
      · rw [Derivation.values_cons]
        exact hQ
    | error e =>
      rw [hok'] at hf
      -- the second parser halts behind what the first one took
      obtain ⟨taken, token, after, htokens', hhalts, hspan⟩ := hf
      rw [htokens'] at htokens hpredicted
      refine ⟨head.tokens ++ taken, token, after, ?_, .behind head ?_ hhalts, hspan⟩
      · rw [htokens, List.append_assoc]
      · exact hpredicted.congr (lookahead_congr taken rfl)

/-- A parser for the production that the next token tells reads the phrase. -/
theorem phrase {N : Nonterminal} (rule : Rule N) {m : Parse α bound} {P : N.Value → α → Prop}
    (hpredict : predict N s.kind = some rule)
    (h : ReadsAll rule.body s m fun vs a => P (rule.build vs) a) : Reads (.phrase N) s m P := by
  intro hs
  have h := h hs
  rw [← lookahead_tokens] at hpredict
  cases hok : m with
  | ok parsed =>
    rw [hok] at h
    obtain ⟨d, htokens, hpredicted, hending, hP⟩ := h
    refine ⟨.phrase rule d .done, ?_, ⟨?_, hpredicted, trivial⟩, hending, hP⟩
    · rw [htokens, Derivation.tokens, Derivation.tokens, List.append_nil]
    · rw [htokens] at hpredict
      exact hpredict
  | error e =>
    rw [hok] at h
    obtain ⟨taken, token, after, htokens, hhalts, hspan⟩ := h
    refine ⟨taken, token, after, htokens, .inside rule ?_ hhalts, hspan⟩
    rw [← hpredict, htokens]
    exact congrArg (predict N) (lookahead_congr taken rfl)

/-- Reading a phrase halts where the next token tells no production. -/
theorem stuck {N : Nonterminal} {cause : SyntacticCause} {P : N.Value → α → Prop}
    (hpredict : predict N s.kind = none) :
    Reads (.phrase N) s (throw (s.unexpected cause) : Parse α bound) P := by
  intro _
  obtain ⟨after, htokens⟩ := exists_tokens s
  exact ⟨[], s.current, after, htokens, .untold hpredict, rfl⟩

end Reads

end

/-! ## Terminals -/

/-- A token is taken if it is of the kind. -/
theorem take_cases (s : Stream) (kind : TokenKind) (otherwise : Diagnostic) :
    (∃ token others h, s.pending = token :: others ∧ token.kind = kind ∧
      s.take kind otherwise =
        .ok ⟨token, { s with pending := others, lastFinish := token.span.finish }, h⟩) ∨
    (∀ token others, s.pending = token :: others → token.kind ≠ kind) ∧
      s.take kind otherwise = .error otherwise := by
  obtain ⟨pending, ending, lastFinish, serials⟩ := s
  cases pending with
  | nil => exact .inr ⟨nofun, rfl⟩
  | cons token others =>
    by_cases hkind : token.kind = kind
    · exact .inl ⟨token, others, Nat.lt_succ_self _, rfl, hkind, if_pos hkind⟩
    · refine .inr ⟨fun _ _ heq => ?_, if_neg hkind⟩
      rw [← (List.cons.inj heq).1]
      exact hkind

/-- Reading a token halts where none of the kind comes next. -/
theorem haltsIn_token {s : Stream} {kind : TokenKind} (hkind : kind ≠ .endOfText)
    (hs : s.ending.kind = .endOfText)
    (hnone : ∀ token others, s.pending = token :: others → token.kind ≠ kind)
    (cause : SyntacticCause) (spelling : String) :
    HaltsIn [.token kind] s (s.fault cause spelling) := by
  obtain ⟨after, htokens⟩ := exists_tokens s
  refine ⟨[], s.current, after, htokens, .token fun hstands => ?_, rfl⟩
  -- the next token is the end marker, or one of another kind
  cases hpending : s.pending with
  | nil =>
    rw [Stream.current, hpending] at hstands
    exact hkind (hstands.1.symm.trans hs)
  | cons token others =>
    rw [Stream.current, hpending] at hstands
    exact hnone token others hpending hstands.1

theorem take_reads (s : Stream) {kind : TokenKind} (hkind : kind ≠ .endOfText ∧ kind ≠ .intLiteral)
    (cause : SyntacticCause) (spelling : String) :
    Reads (.token kind) s (s.take kind (s.fault cause spelling)) fun v token => v = token := by
  intro hs
  rcases take_cases s kind (s.fault cause spelling) with
    ⟨token, others, h, hpending, heq, hok⟩ | ⟨hnone, herror⟩
  · rw [hok]
    refine ⟨.token token ⟨heq, fun hint => absurd hint hkind.2⟩ .done, ?_, trivial, rfl, rfl⟩
    rw [Stream.tokens, hpending]
    rfl
  · rw [herror]
    exact haltsIn_token hkind.1 hs hnone cause spelling

theorem expect_reads (s : Stream) (kind : TokenKind)
    (hkind : kind ≠ .endOfText ∧ kind ≠ .intLiteral) :
    Reads (.token kind) s (s.expect kind) fun v token => v = token :=
  take_reads s hkind _ _

theorem identifier_reads (s : Stream) :
    Reads (.token .identifier) s (Grammar.identifier s) fun v id => id.bare = name v :=
  (take_reads s (by decide) _ _).andThen fun _ _ _ _ h => .done (congrArg name h.symm)

theorem operator_reads (s : Stream) :
    Reads (.token .operator) s (Grammar.operator s) fun v op => op.bare = name v :=
  (take_reads s (by decide) _ _).andThen fun _ _ _ _ h => .done (congrArg name h.symm)

theorem characterLiteral_reads (s : Stream) :
    Reads (.token .charLiteral) s (Grammar.characterLiteral s) fun v literal =>
      literal.bare = characterLiteral v :=
  (take_reads s (by decide) _ _).andThen fun _ _ _ _ h => .done (congrArg characterLiteral h.symm)

/-- An integer literal of no word is refused. -/
theorem integerLiteral_reads (s : Stream) :
    Reads (.token .intLiteral) s (Grammar.integerLiteral s) fun v literal =>
      literal.bare = integerLiteral v := by
  intro hs
  unfold Grammar.integerLiteral
  rcases take_cases s .intLiteral (s.fault .integerLiteralExpected "") with
    ⟨token, others, h, hpending, heq, hok⟩ | ⟨hnone, herror⟩
  · rw [hok]
    have htokens : s.tokens = token :: (others ++ [s.ending]) := by
      rw [Stream.tokens, hpending]
      rfl
    by_cases hword : (Numeral.toWord? token.spelling).isNone = true
    · simp only [bind, Except.bind, hword, if_true]
      have hcurrent : s.current = token := by
        rw [Stream.current, hpending]
        rfl
      refine ⟨[], token, _, htokens, .token fun hstands => ?_, congrArg Token.span hcurrent⟩
      have hsome := hstands.2 rfl
      rw [Option.isNone_iff_eq_none] at hword
      rw [hword] at hsome
      cases hsome
    · simp only [bind, Except.bind, hword]
      have hstands : token.Stands .intLiteral :=
        ⟨heq, fun _ => by simpa [Option.isSome_iff_ne_none] using hword⟩
      exact ⟨.token token hstands .done, htokens, trivial, rfl, rfl⟩
  · rw [herror]
    exact haltsIn_token (by decide) hs hnone _ _

section

variable {β : Type} {bound : Nat} {s : Stream} {pieces : List Piece}

/-- A token that has to stand there comes first. -/
theorem expecting {kind : TokenKind} (hkind : kind ≠ .endOfText ∧ kind ≠ .intLiteral)
    {f : Parsed Token s.size → Parse β bound} {Q : Values (.token kind :: pieces) → β → Prop}
    (hf : ∀ token rest shorter v,
      ReadsAll pieces rest (f ⟨token, rest, shorter⟩) fun vs b => Q (v, vs) b) :
    ReadsAll (.token kind :: pieces) s (s.expect kind >>= f) Q :=
  (expect_reads s kind hkind).andThen fun token rest shorter v _ => hf token rest shorter v

end

/-! ## Type denoters -/

mutual

theorem typeDenoter_reads (s : Stream) :
    Reads (.phrase .type) s (Grammar.typeDenoter s) fun v type => type.bare = v := by
  rw [Grammar.typeDenoter]
  split
  · next hkind =>
    refine .phrase .namedType (by rw [hkind]; rfl) ?_
    refine (identifier_reads s).andThen fun name _ _ _ hname => .done ?_
    rw [TypeDenoter.bare, hname]
    rfl
  · next hkind =>
    refine .phrase .arrayType (by rw [hkind]; rfl) ?_
    refine expecting (by decide) fun _ s1 _ _ => ?_
    refine (integerLiteral_reads s1).andThen fun length s2 _ _ hlength => ?_
    refine expecting (by decide) fun _ s3 _ _ => ?_
    refine (typeDenoter_reads s3).andThen ?_
    rintro element _ _ _ rfl
    exact .numbered (by rw [TypeDenoter.bare, hlength]; rfl)
  · next hkind =>
    refine .phrase .recordType (by rw [hkind]; rfl) ?_
    refine expecting (by decide) fun _ s1 _ _ => ?_
    refine (fieldTypes_reads s1).andThen ?_
    rintro fields s2 _ _ rfl
    exact expecting (by decide) fun _ s3 _ _ => .numbered rfl
  · exact .stuck (by simp only [predict])
termination_by s.size
decreasing_by all_goals omega

theorem fieldTypes_reads (s : Stream) :
    Reads (.phrase .fields) s (Grammar.fieldTypes s) fun v fields => fields.bare = v := by
  rw [Grammar.fieldTypes]
  refine .phrase .fields rfl ?_
  refine (identifier_reads s).andThen fun id s1 _ token hid => ?_
  refine expecting (by decide) fun _ s2 _ _ => ?_
  refine (typeDenoter_reads s2).andThen ?_
  rintro type s3 _ _ rfl
  show Reads (.phrase .fieldsRest) s3 _ fun v (fields : Fields) =>
    fields.bare = v (name token) type.bare
  rw [← hid]
  dsimp only
  split
  · next hcomma =>
    refine .phrase .moreFields (by simp [predict, hcomma]) ?_
    refine expecting (by decide) fun _ s4 _ _ => (fieldTypes_reads s4).andThen ?_
    rintro rest _ _ _ rfl
    exact .done rfl
  · next hcomma =>
    exact .phrase .lastField (by simp [predict, hcomma]) (.done rfl)
termination_by s.size
decreasing_by all_goals omega

end

/-! ## Formal parameters -/

mutual

theorem formals_reads (s : Stream) :
    Reads (.phrase .formals) s (Grammar.formals s) fun v formals => formals.bare = v := by
  rw [Grammar.formals]
  split
  · next hparen => exact .phrase .noFormals (by simp [predict, hparen]) (.done rfl)
  · next hparen =>
    refine .phrase .formals (by simp [predict, hparen]) ((someFormals_reads s).andThen ?_)
    rintro all _ _ _ rfl
    exact .done rfl
termination_by 4 * s.size + 2
decreasing_by all_goals omega

theorem someFormals_reads (s : Stream) :
    Reads (.phrase .someFormals) s (Grammar.someFormals s) fun v formals =>
      formals.bare = v := by
  rw [Grammar.someFormals]
  refine .phrase .someFormals rfl ((formal_reads s).andThen ?_)
  rintro first s1 _ _ rfl
  show Reads (.phrase .formalsRest) s1 _ fun v (formals : Formals) =>
    formals.bare = v first.bare
  dsimp only
  split
  · next hcomma =>
    refine .phrase .moreFormals (by simp [predict, hcomma]) ?_
    refine expecting (by decide) fun _ s2 _ _ => (someFormals_reads s2).andThen ?_
    rintro rest _ _ _ rfl
    exact .done rfl
  · next hcomma => exact .phrase .lastFormal (by simp [predict, hcomma]) (.done rfl)
termination_by 4 * s.size + 1
decreasing_by all_goals omega

theorem formal_reads (s : Stream) :
    Reads (.phrase .formal) s (Grammar.formal s) fun v formal => formal.bare = v := by
  rw [Grammar.formal]
  split
  · next hkind =>
    refine .phrase .constFormal (by rw [hkind]; rfl) ?_
    refine (identifier_reads s).andThen fun id s1 _ _ hid => ?_
    refine expecting (by decide) fun _ s2 _ _ => (typeDenoter_reads s2).andThen ?_
    rintro type _ _ _ rfl
    exact .done (by rw [Formal.bare, hid]; rfl)
  · next hkind =>
    refine .phrase .varFormal (by rw [hkind]; rfl) ?_
    refine expecting (by decide) fun _ s1 _ _ => ?_
    refine (identifier_reads s1).andThen fun id s2 _ _ hid => ?_
    refine expecting (by decide) fun _ s3 _ _ => (typeDenoter_reads s3).andThen ?_
    rintro type _ _ _ rfl
    exact .done (by rw [Formal.bare, hid]; rfl)
  · next hkind =>
    refine .phrase .procFormal (by rw [hkind]; rfl) ?_
    refine expecting (by decide) fun _ s1 _ _ => ?_
    refine (identifier_reads s1).andThen fun id s2 _ _ hid => ?_
    refine expecting (by decide) fun _ s3 _ _ => (formals_reads s3).andThen ?_
    rintro inner s4 _ _ rfl
    exact expecting (by decide) fun _ _ _ _ => .done (by rw [Formal.bare, hid]; rfl)
  · next hkind =>
    refine .phrase .funcFormal (by rw [hkind]; rfl) ?_
    refine expecting (by decide) fun _ s1 _ _ => ?_
    refine (identifier_reads s1).andThen fun id s2 _ _ hid => ?_
    refine expecting (by decide) fun _ s3 _ _ => (formals_reads s3).andThen ?_
    rintro inner s4 _ _ rfl
    refine expecting (by decide) fun _ s5 _ _ => expecting (by decide) fun _ s6 _ _ => ?_
    refine (typeDenoter_reads s6).andThen ?_
    rintro result _ _ _ rfl
    exact .done (by rw [Formal.bare, hid]; rfl)
  · exact .stuck (by simp only [predict])
termination_by 4 * s.size
decreasing_by all_goals omega

end

/-! ## Commands, expressions and declarations -/

mutual

theorem command_reads (s : Stream) :
    Reads (.phrase .command) s (Grammar.command s) fun v command => command.bare = v := by
  rw [Grammar.command]
  refine .phrase .command rfl ((singleCommand_reads s).andThen ?_)
  rintro first s1 _ _ rfl
  refine (commandsAfter_reads s.start first s1).andThen fun all _ _ _ hall => .done ?_
  exact hall
termination_by 8 * s.size + 1
decreasing_by all_goals omega

theorem commandsAfter_reads (start : Nat) (before : Command) (s : Stream) :
    Reads (.phrase .commands) s (Grammar.commandsAfter start before s) fun v all =>
      all.bare = v before.bare := by
  rw [Grammar.commandsAfter]
  split
  · next hsemicolon =>
    refine .phrase .moreCommands (by simp [predict, hsemicolon]) ?_
    refine expecting (by decide) fun _ s1 _ _ => (singleCommand_reads s1).andThen ?_
    rintro second s2 _ _ rfl
    exact (commandsAfter_reads _ _ s2).andThen fun all _ _ _ hall => .done hall
  · next hsemicolon =>
    exact .phrase .noMoreCommands (by simp [predict, hsemicolon]) (.done rfl)
termination_by 8 * s.size
decreasing_by all_goals omega

theorem singleCommand_reads (s : Stream) :
    Reads (.phrase .singleCommand) s (Grammar.singleCommand s) fun v command =>
      command.bare = v := by
  rw [Grammar.singleCommand]
  split
  · next hkind =>
    refine .phrase .ledCommand (by rw [hkind]; rfl) ?_
    refine (identifier_reads s).andThen fun id s1 _ token hid => ?_
    show Reads (.phrase .ledCommand) s1 _ fun v (command : Command) =>
      command.bare = v (name token)
    rw [← hid]
    dsimp only
    split
    · next hparen =>
      refine .phrase .callCommand (by simp [predict, hparen]) ?_
      refine expecting (by decide) fun _ s2 _ _ => (actuals_reads s2).andThen ?_
      rintro args s3 _ _ rfl
      exact expecting (by decide) fun _ _ _ _ => .done rfl
    · next hparen =>
      refine .phrase .change (by simp [predict, hparen]) ?_
      refine (vnameAfter_reads s.start (.simple id.span none false id) s1).andThen
        fun target s2 _ path htarget => ?_
      show Reads (.phrase .assignment) s2 _ fun v (command : Command) =>
        command.bare = v (path (Vname.simple id.span none false id).bare)
      rw [← htarget]
      dsimp only
      split
      · next hdouble =>
        refine .phrase .doubling (by simp [predict, hdouble]) ?_
        exact expecting (by decide) fun _ _ _ _ => .done rfl
      · next hdouble =>
        refine .phrase .becomes (by simp [predict, hdouble]) ?_
        refine expecting (by decide) fun _ s3 _ _ => (expression_reads s3).andThen ?_
        rintro value _ _ _ rfl
        exact .done rfl
  · next hkind =>
    refine .phrase .beginEnd (by rw [hkind]; rfl) ?_
    refine expecting (by decide) fun _ s1 _ _ => ?_
    refine (command_reads s1).andThen fun inner s2 _ _ hinner => ?_
    exact expecting (by decide) fun _ _ _ _ => .done hinner
  · next hkind =>
    refine .phrase .braces (by rw [hkind]; rfl) ?_
    refine expecting (by decide) fun _ s1 _ _ => ?_
    refine (command_reads s1).andThen fun inner s2 _ _ hinner => ?_
    exact expecting (by decide) fun _ _ _ _ => .done hinner
  · next hkind =>
    refine .phrase .letCommand (by rw [hkind]; rfl) ?_
    refine expecting (by decide) fun _ s1 _ _ => (declaration_reads s1).andThen ?_
    rintro declared s2 _ _ rfl
    refine expecting (by decide) fun _ s3 _ _ => (singleCommand_reads s3).andThen ?_
    rintro body _ _ _ rfl
    exact .done rfl
  · next hkind =>
    refine .phrase .ifCommand (by rw [hkind]; rfl) ?_
    refine expecting (by decide) fun _ s1 _ _ => (expression_reads s1).andThen ?_
    rintro condition s2 _ _ rfl
    refine expecting (by decide) fun _ s3 _ _ => (singleCommand_reads s3).andThen ?_
    rintro thenBranch s4 _ _ rfl
    refine expecting (by decide) fun _ s5 _ _ => (singleCommand_reads s5).andThen ?_
    rintro elseBranch _ _ _ rfl
    exact .done rfl
  · next hkind =>
    refine .phrase .whileCommand (by rw [hkind]; rfl) ?_
    refine expecting (by decide) fun _ s1 _ _ => (expression_reads s1).andThen ?_
    rintro condition s2 _ _ rfl
    refine expecting (by decide) fun _ s3 _ _ => (singleCommand_reads s3).andThen ?_
    rintro body _ _ _ rfl
    exact .done rfl
  · next hkind =>
    refine .phrase .repeatCommand (by rw [hkind]; rfl) ?_
    refine expecting (by decide) fun _ s1 _ _ => (singleCommand_reads s1).andThen ?_
    rintro body s2 _ _ rfl
    refine expecting (by decide) fun _ s3 _ _ => (expression_reads s3).andThen ?_
    rintro condition _ _ _ rfl
    exact .done rfl
  · next hkind =>
    refine .phrase .loopCommand (by rw [hkind]; rfl) ?_
    refine expecting (by decide) fun _ s1 _ _ => (singleCommand_reads s1).andThen ?_
    rintro body s2 _ _ rfl
    refine expecting (by decide) fun _ s3 _ _ => (expression_reads s3).andThen ?_
    rintro condition s4 _ _ rfl
    refine expecting (by decide) fun _ s5 _ _ => (singleCommand_reads s5).andThen ?_
    rintro tail _ _ _ rfl
    exact .done rfl
  -- the tokens that can end an empty command
  iterate 6
    next hkind => exact .phrase .emptyCommand (by rw [hkind]; rfl) (.done rfl)
  · exact .stuck (by simp only [predict])
termination_by 8 * s.size
decreasing_by all_goals omega

theorem expression_reads (s : Stream) :
    Reads (.phrase .expression) s (Grammar.expression s) fun v e => e.bare = v := by
  rw [Grammar.expression]
  split
  · next hkind =>
    refine .phrase .letExpression (by rw [hkind]; rfl) ?_
    refine expecting (by decide) fun _ s1 _ _ => (declaration_reads s1).andThen ?_
    rintro declared s2 _ _ rfl
    refine expecting (by decide) fun _ s3 _ _ => (expression_reads s3).andThen ?_
    rintro body _ _ _ rfl
    exact .done rfl
  · next hkind =>
    refine .phrase .ifExpression (by rw [hkind]; rfl) ?_
    refine expecting (by decide) fun _ s1 _ _ => (expression_reads s1).andThen ?_
    rintro condition s2 _ _ rfl
    refine expecting (by decide) fun _ s3 _ _ => (expression_reads s3).andThen ?_
    rintro thenBranch s4 _ _ rfl
    refine expecting (by decide) fun _ s5 _ _ => (expression_reads s5).andThen ?_
    rintro elseBranch _ _ _ rfl
    exact .done rfl
  · refine .phrase .operation (by simp only [predict]) ((primary_reads s).andThen ?_)
    rintro first s1 _ _ rfl
    exact (operationsAfter_reads s.start first s1).andThen fun all _ _ _ hall => .done hall
termination_by 8 * s.size + 1
decreasing_by all_goals omega

theorem operationsAfter_reads (start : Nat) (before : Expression) (s : Stream) :
    Reads (.phrase .operations) s (Grammar.operationsAfter start before s) fun v all =>
      all.bare = v before.bare := by
  rw [Grammar.operationsAfter]
  split
  · next hoperator =>
    refine .phrase .moreOperations (by simp [predict, hoperator]) ?_
    refine (operator_reads s).andThen fun op s1 _ token hop => (primary_reads s1).andThen ?_
    rintro right s2 _ _ rfl
    refine (operationsAfter_reads _ _ s2).andThen fun all _ _ _ hall => .done ?_
    rw [hall, Expression.bare, hop]
    rfl
  · next hoperator =>
    exact .phrase .noOperations (by simp [predict, hoperator]) (.done rfl)
termination_by 8 * s.size
decreasing_by all_goals omega

theorem primary_reads (s : Stream) :
    Reads (.phrase .primary) s (Grammar.primary s) fun v e => e.bare = v := by
  rw [Grammar.primary]
  split
  · next hkind =>
    refine .phrase .integer (by rw [hkind]; rfl) ?_
    refine (integerLiteral_reads s).andThen fun literal _ _ _ hliteral => .done ?_
    rw [Expression.bare, hliteral]
    rfl
  · next hkind =>
    refine .phrase .character (by rw [hkind]; rfl) ?_
    refine (characterLiteral_reads s).andThen fun literal _ _ _ hliteral => .done ?_
    rw [Expression.bare, hliteral]
    rfl
  · next hkind =>
    refine .phrase .array (by rw [hkind]; rfl) ?_
    refine expecting (by decide) fun _ s1 _ _ => (arrayAggregate_reads s1).andThen ?_
    rintro elements s2 _ _ rfl
    exact expecting (by decide) fun _ _ _ _ => .done rfl
  · next hkind =>
    refine .phrase .record (by rw [hkind]; rfl) ?_
    refine expecting (by decide) fun _ s1 _ _ => (recordAggregate_reads s1).andThen ?_
    rintro fields s2 _ _ rfl
    exact expecting (by decide) fun _ _ _ _ => .done rfl
  · next hkind =>
    refine .phrase .ledPrimary (by rw [hkind]; rfl) ?_
    refine (identifier_reads s).andThen fun id s1 _ token hid => ?_
    show Reads (.phrase .ledPrimary) s1 _ fun v (e : Expression) => e.bare = v (name token)
    rw [← hid]
    dsimp only
    split
    · next hparen =>
      refine .phrase .callExpression (by simp [predict, hparen]) ?_
      refine expecting (by decide) fun _ s2 _ _ => (actuals_reads s2).andThen ?_
      rintro args s3 _ _ rfl
      exact expecting (by decide) fun _ _ _ _ => .done rfl
    · next hparen =>
      refine .phrase .vname (by simp [predict, hparen]) ?_
      refine (vnameAfter_reads s.start (.simple id.span none false id) s1).andThen
        fun found _ _ _ hfound => .done ?_
      rw [Expression.bare, hfound]
      rfl
  · next hkind =>
    refine .phrase .unary (by rw [hkind]; rfl) ?_
    refine (operator_reads s).andThen fun op s1 _ _ hop => (primary_reads s1).andThen ?_
    rintro operand _ _ _ rfl
    exact .done (by rw [Expression.bare, hop]; rfl)
  · next hkind =>
    refine .phrase .parentheses (by rw [hkind]; rfl) ?_
    refine expecting (by decide) fun _ s1 _ _ => ?_
    refine (expression_reads s1).andThen fun inner s2 _ _ hinner => ?_
    exact expecting (by decide) fun _ _ _ _ => .done hinner
  · exact .stuck (by simp only [predict])
termination_by 8 * s.size
decreasing_by all_goals omega

theorem arrayAggregate_reads (s : Stream) :
    Reads (.phrase .elements) s (Grammar.arrayAggregate s) fun v elements =>
      elements.bare = v := by
  rw [Grammar.arrayAggregate]
  refine .phrase .elements rfl ((expression_reads s).andThen ?_)
  rintro element s1 _ _ rfl
  show Reads (.phrase .elementsRest) s1 _ fun v (elements : ArrayAggregate) =>
    elements.bare = v element.bare
  dsimp only
  split
  · next hcomma =>
    refine .phrase .moreElements (by simp [predict, hcomma]) ?_
    refine expecting (by decide) fun _ s2 _ _ => (arrayAggregate_reads s2).andThen ?_
    rintro rest _ _ _ rfl
    exact .done rfl
  · next hcomma => exact .phrase .lastElement (by simp [predict, hcomma]) (.done rfl)
termination_by 8 * s.size + 2
decreasing_by all_goals omega

theorem recordAggregate_reads (s : Stream) :
    Reads (.phrase .fieldValues) s (Grammar.recordAggregate s) fun v fields =>
      fields.bare = v := by
  rw [Grammar.recordAggregate]
  refine .phrase .fieldValues rfl ?_
  refine (identifier_reads s).andThen fun id s1 _ token hid => ?_
  refine expecting (by decide) fun _ s2 _ _ => (expression_reads s2).andThen ?_
  rintro value s3 _ _ rfl
  show Reads (.phrase .fieldValuesRest) s3 _ fun v (fields : RecordAggregate) =>
    fields.bare = v (name token) value.bare
  rw [← hid]
  dsimp only
  split
  · next hcomma =>
    refine .phrase .moreFieldValues (by simp [predict, hcomma]) ?_
    refine expecting (by decide) fun _ s4 _ _ => (recordAggregate_reads s4).andThen ?_
    rintro rest _ _ _ rfl
    exact .done rfl
  · next hcomma => exact .phrase .lastFieldValue (by simp [predict, hcomma]) (.done rfl)
termination_by 8 * s.size
decreasing_by all_goals omega

theorem vnameAfter_reads (start : Nat) (before : Vname) (s : Stream) :
    Reads (.phrase .path) s (Grammar.vnameAfter start before s) fun v all =>
      all.bare = v before.bare := by
  rw [Grammar.vnameAfter]
  split
  · next hkind =>
    refine .phrase .dot (by rw [hkind]; rfl) ?_
    refine expecting (by decide) fun _ s1 _ _ => ?_
    refine (identifier_reads s1).andThen fun field s2 _ _ hfield => ?_
    refine (vnameAfter_reads _ _ s2).andThen fun all _ _ _ hall => .done ?_
    rw [hall, Vname.bare, hfield]
    rfl
  · next hkind =>
    refine .phrase .subscript (by rw [hkind]; rfl) ?_
    refine expecting (by decide) fun _ s1 _ _ => (expression_reads s1).andThen ?_
    rintro index s2 _ _ rfl
    refine expecting (by decide) fun _ s3 _ _ => ?_
    exact (vnameAfter_reads _ _ s3).andThen fun all _ _ _ hall => .done hall
  · exact .phrase .noPath (by simp only [predict]) (.done rfl)
termination_by 8 * s.size
decreasing_by all_goals omega

theorem declaration_reads (s : Stream) :
    Reads (.phrase .declaration) s (Grammar.declaration s) fun v d => d.bare = v := by
  rw [Grammar.declaration]
  refine .phrase .declaration rfl ((singleDeclaration_reads s).andThen ?_)
  rintro first s1 _ _ rfl
  exact (declarationsAfter_reads s.start first s1).andThen fun all _ _ _ hall => .done hall
termination_by 8 * s.size + 1
decreasing_by all_goals omega

theorem declarationsAfter_reads (start : Nat) (before : Declaration) (s : Stream) :
    Reads (.phrase .declarations) s (Grammar.declarationsAfter start before s) fun v all =>
      all.bare = v before.bare := by
  rw [Grammar.declarationsAfter]
  split
  · next hsemicolon =>
    refine .phrase .moreDeclarations (by simp [predict, hsemicolon]) ?_
    refine expecting (by decide) fun _ s1 _ _ => (singleDeclaration_reads s1).andThen ?_
    rintro second s2 _ _ rfl
    exact (declarationsAfter_reads _ _ s2).andThen fun all _ _ _ hall => .done hall
  · next hsemicolon =>
    exact .phrase .noMoreDeclarations (by simp [predict, hsemicolon]) (.done rfl)
termination_by 8 * s.size
decreasing_by all_goals omega

theorem singleDeclaration_reads (s : Stream) :
    Reads (.phrase .singleDeclaration) s (Grammar.singleDeclaration s) fun v d => d.bare = v := by
  rw [Grammar.singleDeclaration]
  split
  · next hkind =>
    refine .phrase .constDeclaration (by rw [hkind]; rfl) ?_
    refine expecting (by decide) fun _ s1 _ _ => ?_
    refine (identifier_reads s1).andThen fun id s2 _ _ hid => ?_
    refine expecting (by decide) fun _ s3 _ _ => (expression_reads s3).andThen ?_
    rintro value _ _ _ rfl
    exact .done (by rw [Declaration.bare, hid]; rfl)
  · next hkind =>
    refine .phrase .varDeclaration (by rw [hkind]; rfl) ?_
    refine expecting (by decide) fun _ s1 _ _ => ?_
    refine (identifier_reads s1).andThen fun id s2 _ _ hid => ?_
    refine expecting (by decide) fun _ s3 _ _ => (typeDenoter_reads s3).andThen ?_
    rintro type _ _ _ rfl
    exact .done (by rw [Declaration.bare, hid]; rfl)
  · next hkind =>
    refine .phrase .procDeclaration (by rw [hkind]; rfl) ?_
    refine expecting (by decide) fun _ s1 _ _ => ?_
    refine (identifier_reads s1).andThen fun id s2 _ _ hid => ?_
    refine expecting (by decide) fun _ s3 _ _ => (formals_reads s3).andThen ?_
    rintro parameters s4 _ _ rfl
    refine expecting (by decide) fun _ s5 _ _ => expecting (by decide) fun _ s6 _ _ => ?_
    refine (singleCommand_reads s6).andThen ?_
    rintro body _ _ _ rfl
    exact .done (by rw [Declaration.bare, hid]; rfl)
  · next hkind =>
    refine .phrase .funcDeclaration (by rw [hkind]; rfl) ?_
    refine expecting (by decide) fun _ s1 _ _ => ?_
    refine (identifier_reads s1).andThen fun id s2 _ _ hid => ?_
    refine expecting (by decide) fun _ s3 _ _ => (formals_reads s3).andThen ?_
    rintro parameters s4 _ _ rfl
    refine expecting (by decide) fun _ s5 _ _ => expecting (by decide) fun _ s6 _ _ => ?_
    refine (typeDenoter_reads s6).andThen ?_
    rintro result s7 _ _ rfl
    refine expecting (by decide) fun _ s8 _ _ => (expression_reads s8).andThen ?_
    rintro body _ _ _ rfl
    exact .done (by rw [Declaration.bare, hid]; rfl)
  · next hkind =>
    refine .phrase .typeDeclaration (by rw [hkind]; rfl) ?_
    refine expecting (by decide) fun _ s1 _ _ => ?_
    refine (identifier_reads s1).andThen fun id s2 _ _ hid => ?_
    refine expecting (by decide) fun _ s3 _ _ => (typeDenoter_reads s3).andThen ?_
    rintro type _ _ _ rfl
    exact .done (by rw [Declaration.bare, hid]; rfl)
  · exact .stuck (by simp only [predict])
termination_by 8 * s.size
decreasing_by all_goals omega

theorem actuals_reads (s : Stream) :
    Reads (.phrase .actuals) s (Grammar.actuals s) fun v args => args.bare = v := by
  rw [Grammar.actuals]
  split
  · next hparen => exact .phrase .noActuals (by simp [predict, hparen]) (.done rfl)
  · next hparen =>
    refine .phrase .actuals (by simp [predict, hparen]) ((someActuals_reads s).andThen ?_)
    rintro all _ _ _ rfl
    exact .done rfl
termination_by 8 * s.size + 4
decreasing_by all_goals omega

theorem someActuals_reads (s : Stream) :
    Reads (.phrase .someActuals) s (Grammar.someActuals s) fun v args => args.bare = v := by
  rw [Grammar.someActuals]
  refine .phrase .someActuals rfl ((actual_reads s).andThen ?_)
  rintro first s1 _ _ rfl
  show Reads (.phrase .actualsRest) s1 _ fun v (args : Actuals) => args.bare = v first.bare
  dsimp only
  split
  · next hcomma =>
    refine .phrase .moreActuals (by simp [predict, hcomma]) ?_
    refine expecting (by decide) fun _ s2 _ _ => (someActuals_reads s2).andThen ?_
    rintro rest _ _ _ rfl
    exact .done rfl
  · next hcomma => exact .phrase .lastActual (by simp [predict, hcomma]) (.done rfl)
termination_by 8 * s.size + 3
decreasing_by all_goals omega

theorem actual_reads (s : Stream) :
    Reads (.phrase .actual) s (Grammar.actual s) fun v arg => arg.bare = v := by
  rw [Grammar.actual]
  split
  -- the tokens that can start an expression
  iterate 9
    next hkind =>
      refine .phrase .constActual (by rw [hkind]; rfl) ((expression_reads s).andThen ?_)
      rintro value _ _ _ rfl
      exact .done rfl
  · next hkind =>
    refine .phrase .varActual (by rw [hkind]; rfl) ?_
    refine expecting (by decide) fun _ s1 _ _ => ?_
    refine (identifier_reads s1).andThen fun id s2 _ _ hid => ?_
    refine (vnameAfter_reads s1.start (.simple id.span none false id) s2).andThen
      fun found _ _ _ hfound => .done ?_
    rw [Actual.bare, hfound, Vname.bare, hid]
    rfl
  · next hkind =>
    refine .phrase .procActual (by rw [hkind]; rfl) ?_
    refine expecting (by decide) fun _ s1 _ _ => ?_
    refine (identifier_reads s1).andThen fun id _ _ _ hid => .done ?_
    rw [Actual.bare, hid]
    rfl
  · next hkind =>
    refine .phrase .funcActual (by rw [hkind]; rfl) ?_
    refine expecting (by decide) fun _ s1 _ _ => ?_
    refine (identifier_reads s1).andThen fun id _ _ _ hid => .done ?_
    rw [Actual.bare, hid]
    rfl
  · exact .stuck (by simp only [predict])
termination_by 8 * s.size + 2
decreasing_by all_goals omega

end

end Parsing

end TriangleTam
