import TriangleTam.Proofs.Parsing.Reading
import TriangleTam.Proofs.Spans.Cover

/-! # The spans that parsers give

  A parser that comes from one stream to another has taken tokens on the way,
  and remembers where the last of them finished. So the span from its start to
  that line is the cover of these tokens. Every function of the recursive
  descent gives its nodes the spans that they are to have.
-/

namespace TriangleTam.Spans

/-! ## Streams -/

/-- The tokens were taken on the way from one stream to the other. -/
structure Leads (s : Stream) (taken : List Token) (s' : Stream) : Prop where
  pending : s.pending = taken ++ s'.pending
  ending  : s'.ending = s.ending
  finish  : s'.lastFinish = finishAfter s.lastFinish taken

/-- All tokens still to come are in order. -/
def Ordered (s : Stream) : Prop := InOrder s.lastFinish s.tokens

namespace Leads

variable {s s' s'' : Stream} {taken taken' : List Token}

theorem refl (s : Stream) : Leads s [] s := ⟨rfl, rfl, rfl⟩

theorem trans (h : Leads s taken s') (h' : Leads s' taken' s'') :
    Leads s (taken ++ taken') s'' where
  pending := by rw [h.pending, h'.pending, List.append_assoc]
  ending  := h'.ending.trans h.ending
  finish  := by rw [h'.finish, h.finish, finishAfter_append]

theorem numbered (h : Leads s taken s') : Leads s taken s'.numbered :=
  ⟨h.pending, h.ending, h.finish⟩

theorem current (h : Leads s taken s') : s.current = ahead taken s'.current := by
  unfold Stream.current
  rw [h.pending, ← h.ending]
  exact ahead_append ..

theorem size (h : Leads s taken s') : s.size = taken.length + s'.size := by
  rw [Stream.size, h.pending, List.length_append]
  rfl

theorem tokens (h : Leads s taken s') : s.tokens = taken ++ s'.tokens := by
  rw [Stream.tokens, Stream.tokens, h.pending, h.ending, List.append_assoc]

theorem ordered (h : Leads s taken s') (hs : Ordered s) : Ordered s' := by
  unfold Ordered at hs ⊢
  rw [h.tokens] at hs
  rw [h.finish]
  exact (inOrder_append.1 hs).2

/-- The span from the start to the last token taken is the cover of the tokens taken. -/
theorem since (h : Leads s taken s') (hs : Ordered s) :
    s'.since s.start = cover taken s'.current := by
  have hstart : s.start = (ahead taken s'.current).span.start := by rw [Stream.start, h.current]
  cases taken with
  | nil =>
    -- the last token in front does not finish behind the next one
    obtain ⟨after, htokens⟩ := Parsing.exists_tokens s
    unfold Ordered at hs
    rw [htokens] at hs
    have hle : s'.lastFinish ≤ s.start := h.finish ▸ hs.1
    rw [Stream.since, Nat.max_eq_right hle, hstart]
    rfl
  | cons token others =>
    have hline := h.ordered hs
    unfold Ordered at hs
    rw [h.tokens] at hs
    obtain ⟨-, hfinish, hothers⟩ := hs
    have hle : s.start ≤ s'.lastFinish := by
      rw [hstart, h.finish]
      exact Nat.le_trans hfinish (InOrder.le_finishAfter (inOrder_append.1 hothers).1)
    rw [Stream.since, Nat.max_eq_left hle, hstart, h.finish]
    rfl

end Leads

/-! ## What parsers give -/

/-- What the parser returns and the stream that it leaves are related, if it returns anything. -/
def Gives {α : Type} {bound : Nat} (m : Parse α bound) (Q : α → Stream → Prop) : Prop :=
  ∀ parsed, m = .ok parsed → Q parsed.value parsed.rest

section Gives

variable {α β : Type} {bound bound' : Nat}

theorem Gives.bind {m : Parse α bound} {f : Parsed α bound → Parse β bound'}
    {P : α → Stream → Prop} {Q : β → Stream → Prop} (hm : Gives m P)
    (hf : ∀ a rest shorter, P a rest → Gives (f ⟨a, rest, shorter⟩) Q) : Gives (m >>= f) Q := by
  intro parsed hok
  cases hfirst : m with
  | error e =>
    rw [hfirst] at hok
    cases hok
  | ok first =>
    rw [hfirst] at hok
    exact hf first.value first.rest first.shorter (hm first hfirst) parsed hok

theorem Gives.pure {a : α} {s : Stream} {h : s.size < bound} {Q : α → Stream → Prop}
    (hQ : Q a s) : Gives (pure ⟨a, s, h⟩ : Parse α bound) Q := by
  intro parsed hok
  cases hok
  exact hQ

theorem Gives.throw {d : Diagnostic} {Q : α → Stream → Prop} :
    Gives (throw d : Parse α bound) Q := nofun

theorem take_gives (s : Stream) (kind : TokenKind) (otherwise : Diagnostic) :
    Gives (s.take kind otherwise) fun token rest => token.kind = kind ∧ Leads s [token] rest := by
  intro parsed hok
  rcases Parsing.take_cases s kind otherwise with ⟨token, others, h, hpending, hkind, htake⟩ |
    ⟨-, htake⟩
  · rw [htake] at hok
    cases hok
    exact ⟨hkind, hpending, rfl, rfl⟩
  · rw [htake] at hok
    cases hok

end Gives

/-- Between the two streams the parts were taken. -/
structure Takes (s : Stream) (parts : List Part) (s' : Stream) : Prop where
  ordered : Ordered s
  taken   : ∃ taken, Leads s taken s' ∧ Spanned parts taken s'.current

/-- The parser takes a node, if the tokens are in order. -/
def Parses {α : Type} {bound : Nat} (s : Stream) (node : α → Node) (m : Parse α bound) : Prop :=
  Ordered s → Gives m fun a rest => Takes s [.node (node a)] rest

/-- Between the two streams the list of parameters was taken, perhaps an empty one. -/
structure Lists (s : Stream) (node : Node) (s' : Stream) : Prop where
  ordered : Ordered s
  taken   : ∃ taken, Leads s taken s' ∧ Spanned node.parts taken s'.current ∧
    node.span = cover taken s'.current

namespace Takes

variable {s s' s'' : Stream} {parts parts' : List Part} {found : Node}

theorem refl (hs : Ordered s) : Takes s [] s := ⟨hs, [], .refl s, .done⟩

theorem left (h : Takes s parts s') : Ordered s' := by
  obtain ⟨taken, hleads, -⟩ := h.taken
  exact hleads.ordered h.ordered

theorem size_le (h : Takes s parts s') : s'.size ≤ s.size := by
  obtain ⟨taken, hleads, -⟩ := h.taken
  have hsize := hleads.size
  omega

theorem trans (h : Takes s parts s') (h' : Takes s' parts' s'') :
    Takes s (parts ++ parts') s'' := by
  obtain ⟨hs, taken, hleads, hspanned⟩ := h
  obtain ⟨-, taken', hleads', hspanned'⟩ := h'
  refine ⟨hs, taken ++ taken', hleads.trans hleads', ?_⟩
  rw [hleads'.current] at hspanned
  exact hspanned.append hspanned'

/-- A number for a type denoter is no token. -/
theorem numbered (h : Takes s parts s') : Takes s parts s'.numbered := by
  obtain ⟨hs, taken, hleads, hspanned⟩ := h
  exact ⟨hs, taken, hleads.numbered, hspanned⟩

/-- The parts of a node were taken, and its span reaches from their start up to here. -/
theorem whole (h : Takes s parts s') (hparts : parts = found.parts)
    (hspan : found.span = s'.since s.start) (hless : s'.size < s.size) :
    Takes s [.node found] s' := by
  obtain ⟨hs, taken, hleads, hspanned⟩ := h
  have hsize := hleads.size
  have hsome : taken ≠ [] := by
    rintro rfl
    rw [List.length_nil] at hsize
    omega
  rw [hparts] at hspanned
  exact ⟨hs, taken, hleads, .single hspanned (hspan.trans (hleads.since hs)) (.inr hsome)⟩

/-- A node was taken together with brackets around it. -/
theorem grouped {opener closer : TokenKind} (brackets : found.Grouped opener closer)
    (h : Takes s [.mark opener, .node found, .mark closer] s') : Takes s [.node found] s' := by
  obtain ⟨hs, taken, hleads, hspanned⟩ := h
  have hnode : Spanned [.node found] (taken ++ []) s'.current := .grouped brackets hspanned .done
  rw [List.append_nil] at hnode
  exact ⟨hs, taken, hleads, hnode⟩

/-- An empty command was taken with no token. -/
theorem empty (hs : Ordered s) : Takes s [.node (.command (.empty (s.since s.start)))] s :=
  ⟨hs, [], .refl s, .single .done ((Leads.refl s).since hs) (.inl ⟨_, rfl⟩)⟩

/-- A node with one token of its own was taken. -/
theorem leaf {token : Token} {kind : TokenKind} {spelling : String} (hs : Ordered s)
    (hleads : Leads s [token] s') (hparts : found.parts = [.word kind spelling])
    (htoken : token.kind = kind ∧ token.spelling = spelling) (hspan : found.span = token.span) :
    Takes s [.node found] s' := by
  have hword : Spanned found.parts [token] s'.current := hparts ▸ .token htoken .done
  exact ⟨hs, [token], hleads, .single hword hspan (.inr (List.cons_ne_nil _ _))⟩

/-- A doubling was taken: the variable and its mark. -/
theorem doubling {target : Vname} {mark : Token} (h : Takes s [.node (.vname target)] s')
    (stands : mark.kind = .doubleOperator) (hmark : Leads s' [mark] s'') :
    Takes s [.node (.command (Grammar.doubling (s''.since s.start) target mark.span))] s'' := by
  obtain ⟨hs, taken, hleads, hspanned⟩ := h
  rw [hmark.current] at hspanned
  have hwhole := hleads.trans hmark
  exact ⟨hs, taken ++ [mark], hwhole, .doubling hspanned stands (hwhole.since hs) .done⟩

/-- The node is the one that was taken, a list of parameters in particular. -/
theorem lists (h : Takes s [.node found] s')
    (hplain : ∀ opener closer, ¬ found.Grouped opener closer) : Lists s found s' := by
  obtain ⟨hs, taken, hleads, hspanned⟩ := h
  exact ⟨hs, taken, hleads, hspanned.ungrouped hplain⟩

variable {α β : Type} {bound bound' : Nat}

/-- A token is taken next. -/
theorem expect (h : Takes s parts s') {kind : TokenKind} {f : Parsed Token s'.size → Parse β bound}
    {Q : β → Stream → Prop}
    (hf : ∀ token rest shorter, token.kind = kind → Leads s' [token] rest →
      Takes s (parts ++ [.mark kind]) rest → Gives (f ⟨token, rest, shorter⟩) Q) :
    Gives (s'.expect kind >>= f) Q := by
  refine (take_gives s' kind _).bind fun token rest shorter ⟨hkind, hleads⟩ => ?_
  have htoken : Takes s' [.mark kind] rest := ⟨h.left, [token], hleads, .token hkind .done⟩
  exact hf token rest shorter hkind hleads (h.trans htoken)

/-- A node is taken next. -/
theorem child (h : Takes s parts s') {m : Parse α bound} {node : α → Node}
    {f : Parsed α bound → Parse β bound'} {Q : β → Stream → Prop} (hm : Parses s' node m)
    (hf : ∀ a rest shorter, Takes s (parts ++ [.node (node a)]) rest →
      Gives (f ⟨a, rest, shorter⟩) Q) : Gives (m >>= f) Q :=
  (hm h.left).bind fun a rest shorter hnode => hf a rest shorter (h.trans hnode)

/-- The parenthesis behind a list of parameters is taken next. -/
theorem close (h : Takes s parts s') (hlists : Lists s' found s'')
    {f : Parsed Token s''.size → Parse β bound} {Q : β → Stream → Prop}
    (hf : ∀ token rest shorter, Takes s (parts ++ [.parameters found]) rest →
      Gives (f ⟨token, rest, shorter⟩) Q) : Gives (s''.expect .rightParen >>= f) Q := by
  refine (take_gives s'' .rightParen _).bind fun token rest shorter ⟨hkind, hleads⟩ => ?_
  obtain ⟨hs', taken, htaken, hspanned, hspan⟩ := hlists
  rw [hleads.current] at hspanned hspan
  have hparameters : Takes s' [.parameters found] rest :=
    ⟨hs', taken ++ [token], htaken.trans hleads, .parameters hspanned hspan hkind .done⟩
  exact hf token rest shorter (h.trans hparameters)

end Takes

theorem Lists.none {s : Stream} {node : Node} (hs : Ordered s) (hparts : node.parts = [])
    (hspan : node.span = ⟨s.start, s.start⟩) : Lists s node s :=
  ⟨hs, [], .refl s, hparts ▸ .done, hspan⟩

/-! ## Terminals -/

theorem identifier_parses (s : Stream) : Parses s .identifier (Grammar.identifier s) :=
  fun hs => (take_gives s _ _).bind fun _ _ _ ⟨hkind, hleads⟩ =>
    .pure (.leaf hs hleads rfl ⟨hkind, rfl⟩ rfl)

theorem operator_parses (s : Stream) : Parses s (.name .operator) (Grammar.operator s) :=
  fun hs => (take_gives s _ _).bind fun _ _ _ ⟨hkind, hleads⟩ =>
    .pure (.leaf hs hleads rfl ⟨hkind, rfl⟩ rfl)

theorem characterLiteral_parses (s : Stream) :
    Parses s .character (Grammar.characterLiteral s) :=
  fun hs => (take_gives s _ _).bind fun _ _ _ ⟨hkind, hleads⟩ =>
    .pure (.leaf hs hleads rfl ⟨hkind, rfl⟩ rfl)

theorem integerLiteral_parses (s : Stream) : Parses s .integer (Grammar.integerLiteral s) := by
  refine fun hs => (take_gives s _ _).bind fun _ _ _ ⟨hkind, hleads⟩ => ?_
  dsimp only
  split
  · exact .throw
  · exact .pure (.leaf hs hleads rfl ⟨hkind, rfl⟩ rfl)

/-! ## Type denoters -/

mutual

theorem typeDenoter_parses (s : Stream) : Parses s .type (Grammar.typeDenoter s) := by
  intro hs
  rw [Grammar.typeDenoter]
  split
  · -- a name
    refine (Takes.refl hs).child (identifier_parses s) fun name _ _ htakes => ?_
    exact .pure (htakes.whole rfl rfl (by omega))
  · -- an array type
    refine (Takes.refl hs).expect fun _ s1 _ _ _ htakes => ?_
    refine htakes.child (integerLiteral_parses s1) fun length _ _ htakes => ?_
    refine htakes.expect fun _ s3 _ _ _ htakes => ?_
    refine htakes.child (typeDenoter_parses s3) fun element s4 _ htakes => ?_
    exact .pure (htakes.numbered.whole rfl rfl (by rw [s4.size_numbered]; omega))
  · -- a record type
    refine (Takes.refl hs).expect fun _ s1 _ _ _ htakes => ?_
    refine htakes.child (fieldTypes_parses s1) fun fields _ _ htakes => ?_
    refine htakes.expect fun _ s3 _ _ _ htakes => ?_
    exact .pure (htakes.numbered.whole rfl rfl (by rw [s3.size_numbered]; omega))
  · -- no type denoter
    exact .throw
termination_by s.size
decreasing_by all_goals omega

theorem fieldTypes_parses (s : Stream) : Parses s .fields (Grammar.fieldTypes s) := by
  intro hs
  rw [Grammar.fieldTypes]
  refine (Takes.refl hs).child (identifier_parses s) fun name _ _ htakes => ?_
  refine htakes.expect fun _ s2 _ _ _ htakes => ?_
  refine htakes.child (typeDenoter_parses s2) fun type s3 _ htakes => ?_
  dsimp only
  split
  · refine htakes.expect fun _ s4 _ _ _ htakes => ?_
    dsimp only
    refine htakes.child (fieldTypes_parses s4) fun rest _ _ htakes => ?_
    exact .pure (htakes.whole rfl rfl (by omega))
  · exact .pure (htakes.whole rfl rfl (by omega))
termination_by s.size
decreasing_by all_goals omega

end

/-! ## Formal parameters -/

mutual

theorem formals_lists (s : Stream) (hs : Ordered s) :
    Gives (Grammar.formals s) fun formals rest => Lists s (.formals formals) rest := by
  rw [Grammar.formals]
  split
  · exact .pure (.none hs rfl rfl)
  · refine (someFormals_parses s hs).bind fun _ _ _ htakes => .pure (htakes.lists ?_)
    exact fun _ _ brackets => nomatch brackets
termination_by 4 * s.size + 2
decreasing_by all_goals omega

theorem someFormals_parses (s : Stream) : Parses s .formals (Grammar.someFormals s) := by
  intro hs
  rw [Grammar.someFormals]
  refine (Takes.refl hs).child (formal_parses s) fun first s1 _ htakes => ?_
  dsimp only
  split
  · refine htakes.expect fun _ s2 _ _ _ htakes => ?_
    dsimp only
    refine htakes.child (someFormals_parses s2) fun rest _ _ htakes => ?_
    exact .pure (htakes.whole rfl rfl (by omega))
  · exact .pure (htakes.whole rfl rfl (by omega))
termination_by 4 * s.size + 1
decreasing_by all_goals omega

theorem formal_parses (s : Stream) : Parses s .formal (Grammar.formal s) := by
  intro hs
  rw [Grammar.formal]
  split
  · -- a constant
    refine (Takes.refl hs).child (identifier_parses s) fun name _ _ htakes => ?_
    refine htakes.expect fun _ s2 _ _ _ htakes => ?_
    refine htakes.child (typeDenoter_parses s2) fun type _ _ htakes => ?_
    exact .pure (htakes.whole rfl rfl (by omega))
  · -- a variable
    refine (Takes.refl hs).expect fun _ s1 _ _ _ htakes => ?_
    refine htakes.child (identifier_parses s1) fun name _ _ htakes => ?_
    refine htakes.expect fun _ s3 _ _ _ htakes => ?_
    refine htakes.child (typeDenoter_parses s3) fun type _ _ htakes => ?_
    exact .pure (htakes.whole rfl rfl (by omega))
  · -- a procedure
    refine (Takes.refl hs).expect fun _ s1 _ _ _ htakes => ?_
    refine htakes.child (identifier_parses s1) fun name _ _ htakes => ?_
    refine htakes.expect fun _ s3 _ _ _ htakes => ?_
    refine (formals_lists s3 htakes.left).bind fun inner _ _ hlists => ?_
    refine htakes.close hlists fun _ _ _ htakes => ?_
    exact .pure (htakes.whole rfl rfl (by omega))
  · -- a function
    refine (Takes.refl hs).expect fun _ s1 _ _ _ htakes => ?_
    refine htakes.child (identifier_parses s1) fun name _ _ htakes => ?_
    refine htakes.expect fun _ s3 _ _ _ htakes => ?_
    refine (formals_lists s3 htakes.left).bind fun inner _ _ hlists => ?_
    refine htakes.close hlists fun _ _ _ htakes => ?_
    refine htakes.expect fun _ s6 _ _ _ htakes => ?_
    refine htakes.child (typeDenoter_parses s6) fun result _ _ htakes => ?_
    exact .pure (htakes.whole rfl rfl (by omega))
  · -- no parameter
    exact .throw
termination_by 4 * s.size
decreasing_by all_goals omega

end

/-! ## Commands, expressions and declarations -/

/-- A name alone is a vname with the same span. -/
theorem Takes.simple {s s' : Stream} {name : Name} (h : Takes s [.node (.identifier name)] s') :
    Takes s [.node (.vname (.simple name.span none false name))] s' := by
  obtain ⟨hs, taken, hleads, hspanned⟩ := h
  obtain ⟨hinner, hspan⟩ := hspanned.ungrouped fun _ _ brackets => nomatch brackets
  have hsome : taken ≠ [] := by
    rintro rfl
    cases hinner
  exact ⟨hs, taken, hleads, .single hspanned hspan (.inr hsome)⟩

mutual

theorem command_parses (s : Stream) : Parses s .command (Grammar.command s) := by
  intro hs
  rw [Grammar.command]
  refine (singleCommand_parses s hs).bind fun first s1 _ hfirst => ?_
  exact (commandsAfter_takes hfirst).bind fun _ _ _ htakes => .pure htakes
termination_by 8 * s.size + 1
decreasing_by all_goals omega

theorem commandsAfter_takes {s s' : Stream} {before : Command}
    (h : Takes s [.node (.command before)] s') :
    Gives (Grammar.commandsAfter s.start before s') fun all rest =>
      Takes s [.node (.command all)] rest := by
  have hle := h.size_le
  rw [Grammar.commandsAfter]
  split
  · refine h.expect fun _ s1 _ _ _ htakes => ?_
    refine htakes.child (singleCommand_parses s1) fun second s2 _ htakes => ?_
    -- the chain starts where the first command does, in front of what is taken here
    have hsequence :
        Takes s [.node (.command (.sequence (s2.since s.start) before second))] s2 :=
      htakes.whole rfl rfl (by omega)
    exact (commandsAfter_takes hsequence).bind fun _ _ _ htakes => .pure htakes
  · exact .pure h
termination_by 8 * s'.size
decreasing_by all_goals omega

theorem singleCommand_parses (s : Stream) : Parses s .command (Grammar.singleCommand s) := by
  intro hs
  rw [Grammar.singleCommand]
  split
  · -- a call or an assignment
    refine (Takes.refl hs).child (identifier_parses s) fun name s1 _ htakes => ?_
    dsimp only
    split
    · refine htakes.expect fun _ s2 _ _ _ htakes => ?_
      refine (actuals_lists s2 htakes.left).bind fun args _ _ hlists => ?_
      refine htakes.close hlists fun _ _ _ htakes => ?_
      exact .pure (htakes.whole rfl rfl (by omega))
    · refine (vnameAfter_takes htakes.simple).bind fun target s2 _ htakes => ?_
      dsimp only
      split
      · refine htakes.expect fun mark _ _ hkind hleads _ => ?_
        exact .pure (htakes.doubling hkind hleads)
      · refine htakes.expect fun _ s3 _ _ _ htakes => ?_
        dsimp only
        refine htakes.child (expression_parses s3) fun value _ _ htakes => ?_
        exact .pure (htakes.whole rfl rfl (by omega))
  · -- a block
    refine (Takes.refl hs).expect fun _ s1 _ _ _ htakes => ?_
    refine htakes.child (command_parses s1) fun inner _ _ htakes => ?_
    exact htakes.expect fun _ _ _ _ _ htakes => .pure (htakes.grouped (.block inner))
  · -- a command in braces
    refine (Takes.refl hs).expect fun _ s1 _ _ _ htakes => ?_
    refine htakes.child (command_parses s1) fun inner _ _ htakes => ?_
    exact htakes.expect fun _ _ _ _ _ htakes => .pure (htakes.grouped (.braces inner))
  · -- a declaration with its scope
    refine (Takes.refl hs).expect fun _ s1 _ _ _ htakes => ?_
    refine htakes.child (declaration_parses s1) fun declared _ _ htakes => ?_
    refine htakes.expect fun _ s3 _ _ _ htakes => ?_
    refine htakes.child (singleCommand_parses s3) fun body _ _ htakes => ?_
    exact .pure (htakes.whole rfl rfl (by omega))
  · -- a conditional
    refine (Takes.refl hs).expect fun _ s1 _ _ _ htakes => ?_
    refine htakes.child (expression_parses s1) fun condition _ _ htakes => ?_
    refine htakes.expect fun _ s3 _ _ _ htakes => ?_
    refine htakes.child (singleCommand_parses s3) fun thenBranch _ _ htakes => ?_
    refine htakes.expect fun _ s5 _ _ _ htakes => ?_
    refine htakes.child (singleCommand_parses s5) fun elseBranch _ _ htakes => ?_
    exact .pure (htakes.whole rfl rfl (by omega))
  · -- a loop with its condition in front
    refine (Takes.refl hs).expect fun _ s1 _ _ _ htakes => ?_
    refine htakes.child (expression_parses s1) fun condition _ _ htakes => ?_
    refine htakes.expect fun _ s3 _ _ _ htakes => ?_
    refine htakes.child (singleCommand_parses s3) fun body _ _ htakes => ?_
    exact .pure (htakes.whole rfl rfl (by omega))
  · -- a loop with its condition behind
    refine (Takes.refl hs).expect fun _ s1 _ _ _ htakes => ?_
    refine htakes.child (singleCommand_parses s1) fun body _ _ htakes => ?_
    refine htakes.expect fun _ s3 _ _ _ htakes => ?_
    refine htakes.child (expression_parses s3) fun condition _ _ htakes => ?_
    exact .pure (htakes.whole rfl rfl (by omega))
  · -- a loop with its condition in the middle
    refine (Takes.refl hs).expect fun _ s1 _ _ _ htakes => ?_
    refine htakes.child (singleCommand_parses s1) fun body _ _ htakes => ?_
    refine htakes.expect fun _ s3 _ _ _ htakes => ?_
    refine htakes.child (expression_parses s3) fun condition _ _ htakes => ?_
    refine htakes.expect fun _ s5 _ _ _ htakes => ?_
    refine htakes.child (singleCommand_parses s5) fun tail _ _ htakes => ?_
    exact .pure (htakes.whole rfl rfl (by omega))
  -- the tokens that can follow an empty command
  iterate 6
    next => exact .pure (.empty hs)
  · -- no command
    exact .throw
termination_by 8 * s.size
decreasing_by all_goals omega

theorem expression_parses (s : Stream) : Parses s .expression (Grammar.expression s) := by
  intro hs
  rw [Grammar.expression]
  split
  · -- a declaration with its scope
    refine (Takes.refl hs).expect fun _ s1 _ _ _ htakes => ?_
    refine htakes.child (declaration_parses s1) fun declared _ _ htakes => ?_
    refine htakes.expect fun _ s3 _ _ _ htakes => ?_
    refine htakes.child (expression_parses s3) fun body _ _ htakes => ?_
    exact .pure (htakes.whole rfl rfl (by omega))
  · -- a conditional
    refine (Takes.refl hs).expect fun _ s1 _ _ _ htakes => ?_
    refine htakes.child (expression_parses s1) fun condition _ _ htakes => ?_
    refine htakes.expect fun _ s3 _ _ _ htakes => ?_
    refine htakes.child (expression_parses s3) fun thenBranch _ _ htakes => ?_
    refine htakes.expect fun _ s5 _ _ _ htakes => ?_
    refine htakes.child (expression_parses s5) fun elseBranch _ _ htakes => ?_
    exact .pure (htakes.whole rfl rfl (by omega))
  · -- operations, if there are any
    refine (primary_parses s hs).bind fun first s1 _ hfirst => ?_
    exact (operationsAfter_takes hfirst).bind fun _ _ _ htakes => .pure htakes
termination_by 8 * s.size + 1
decreasing_by all_goals omega

theorem operationsAfter_takes {s s' : Stream} {before : Expression}
    (h : Takes s [.node (.expression before)] s') :
    Gives (Grammar.operationsAfter s.start before s') fun all rest =>
      Takes s [.node (.expression all)] rest := by
  have hle := h.size_le
  rw [Grammar.operationsAfter]
  split
  · refine h.child (operator_parses s') fun op s1 _ htakes => ?_
    refine htakes.child (primary_parses s1) fun right s2 _ htakes => ?_
    -- the operation starts where its first operand does, in front of what is taken here
    have hbinary :
        Takes s [.node (.expression (.binary (s2.since s.start) none before op right))] s2 :=
      htakes.whole rfl rfl (by omega)
    exact (operationsAfter_takes hbinary).bind fun _ _ _ htakes => .pure htakes
  · exact .pure h
termination_by 8 * s'.size
decreasing_by all_goals omega

theorem primary_parses (s : Stream) : Parses s .expression (Grammar.primary s) := by
  intro hs
  rw [Grammar.primary]
  split
  · -- an integer literal
    refine (Takes.refl hs).child (integerLiteral_parses s) fun literal _ _ htakes => ?_
    exact .pure (htakes.whole rfl rfl (by omega))
  · -- a character literal
    refine (Takes.refl hs).child (characterLiteral_parses s) fun literal _ _ htakes => ?_
    exact .pure (htakes.whole rfl rfl (by omega))
  · -- an array aggregate
    refine (Takes.refl hs).expect fun _ s1 _ _ _ htakes => ?_
    refine htakes.child (arrayAggregate_parses s1) fun elements _ _ htakes => ?_
    refine htakes.expect fun _ _ _ _ _ htakes => ?_
    exact .pure (htakes.whole rfl rfl (by omega))
  · -- a record aggregate
    refine (Takes.refl hs).expect fun _ s1 _ _ _ htakes => ?_
    refine htakes.child (recordAggregate_parses s1) fun fields _ _ htakes => ?_
    refine htakes.expect fun _ _ _ _ _ htakes => ?_
    exact .pure (htakes.whole rfl rfl (by omega))
  · -- a call or a vname
    refine (Takes.refl hs).child (identifier_parses s) fun name s1 _ htakes => ?_
    dsimp only
    split
    · refine htakes.expect fun _ s2 _ _ _ htakes => ?_
      refine (actuals_lists s2 htakes.left).bind fun args _ _ hlists => ?_
      refine htakes.close hlists fun _ _ _ htakes => ?_
      exact .pure (htakes.whole rfl rfl (by omega))
    · refine (vnameAfter_takes htakes.simple).bind fun found _ _ htakes => ?_
      exact .pure (htakes.whole rfl rfl (by omega))
  · -- a unary operator
    refine (Takes.refl hs).child (operator_parses s) fun op s1 _ htakes => ?_
    refine htakes.child (primary_parses s1) fun operand _ _ htakes => ?_
    exact .pure (htakes.whole rfl rfl (by omega))
  · -- an expression in parentheses
    refine (Takes.refl hs).expect fun _ s1 _ _ _ htakes => ?_
    refine htakes.child (expression_parses s1) fun inner _ _ htakes => ?_
    exact htakes.expect fun _ _ _ _ _ htakes => .pure (htakes.grouped (.parentheses inner))
  · -- no expression
    exact .throw
termination_by 8 * s.size
decreasing_by all_goals omega

theorem arrayAggregate_parses (s : Stream) :
    Parses s .elements (Grammar.arrayAggregate s) := by
  intro hs
  rw [Grammar.arrayAggregate]
  refine (Takes.refl hs).child (expression_parses s) fun element s1 _ htakes => ?_
  dsimp only
  split
  · refine htakes.expect fun _ s2 _ _ _ htakes => ?_
    dsimp only
    refine htakes.child (arrayAggregate_parses s2) fun rest _ _ htakes => ?_
    exact .pure (htakes.whole rfl rfl (by omega))
  · exact .pure (htakes.whole rfl rfl (by omega))
termination_by 8 * s.size + 2
decreasing_by all_goals omega

theorem recordAggregate_parses (s : Stream) :
    Parses s .values (Grammar.recordAggregate s) := by
  intro hs
  rw [Grammar.recordAggregate]
  refine (Takes.refl hs).child (identifier_parses s) fun field _ _ htakes => ?_
  refine htakes.expect fun _ s2 _ _ _ htakes => ?_
  refine htakes.child (expression_parses s2) fun value s3 _ htakes => ?_
  dsimp only
  split
  · refine htakes.expect fun _ s4 _ _ _ htakes => ?_
    dsimp only
    refine htakes.child (recordAggregate_parses s4) fun rest _ _ htakes => ?_
    exact .pure (htakes.whole rfl rfl (by omega))
  · exact .pure (htakes.whole rfl rfl (by omega))
termination_by 8 * s.size
decreasing_by all_goals omega

theorem vnameAfter_takes {s s' : Stream} {before : Vname}
    (h : Takes s [.node (.vname before)] s') :
    Gives (Grammar.vnameAfter s.start before s') fun all rest =>
      Takes s [.node (.vname all)] rest := by
  have hle := h.size_le
  rw [Grammar.vnameAfter]
  split
  · refine h.expect fun _ s1 _ _ _ htakes => ?_
    refine htakes.child (identifier_parses s1) fun field s2 _ htakes => ?_
    have hdot : Takes s [.node (.vname (.dot (s2.since s.start) none false before field))] s2 :=
      htakes.whole rfl rfl (by omega)
    exact (vnameAfter_takes hdot).bind fun _ _ _ htakes => .pure htakes
  · refine h.expect fun _ s1 _ _ _ htakes => ?_
    refine htakes.child (expression_parses s1) fun index _ _ htakes => ?_
    refine htakes.expect fun _ s3 _ _ _ htakes => ?_
    have hsubscript :
        Takes s [.node (.vname (.subscript (s3.since s.start) none false before index))] s3 :=
      htakes.whole rfl rfl (by omega)
    exact (vnameAfter_takes hsubscript).bind fun _ _ _ htakes => .pure htakes
  · exact .pure h
termination_by 8 * s'.size
decreasing_by all_goals omega

theorem declaration_parses (s : Stream) : Parses s .declaration (Grammar.declaration s) := by
  intro hs
  rw [Grammar.declaration]
  refine (singleDeclaration_parses s hs).bind fun first s1 _ hfirst => ?_
  exact (declarationsAfter_takes hfirst).bind fun _ _ _ htakes => .pure htakes
termination_by 8 * s.size + 1
decreasing_by all_goals omega

theorem declarationsAfter_takes {s s' : Stream} {before : Declaration}
    (h : Takes s [.node (.declaration before)] s') :
    Gives (Grammar.declarationsAfter s.start before s') fun all rest =>
      Takes s [.node (.declaration all)] rest := by
  have hle := h.size_le
  rw [Grammar.declarationsAfter]
  split
  · refine h.expect fun _ s1 _ _ _ htakes => ?_
    refine htakes.child (singleDeclaration_parses s1) fun second s2 _ htakes => ?_
    have hsequence :
        Takes s [.node (.declaration (.sequence (s2.since s.start) before second))] s2 :=
      htakes.whole rfl rfl (by omega)
    exact (declarationsAfter_takes hsequence).bind fun _ _ _ htakes => .pure htakes
  · exact .pure h
termination_by 8 * s'.size
decreasing_by all_goals omega

theorem singleDeclaration_parses (s : Stream) :
    Parses s .declaration (Grammar.singleDeclaration s) := by
  intro hs
  rw [Grammar.singleDeclaration]
  split
  · -- a constant
    refine (Takes.refl hs).expect fun _ s1 _ _ _ htakes => ?_
    refine htakes.child (identifier_parses s1) fun name _ _ htakes => ?_
    refine htakes.expect fun _ s3 _ _ _ htakes => ?_
    refine htakes.child (expression_parses s3) fun value _ _ htakes => ?_
    exact .pure (htakes.whole rfl rfl (by omega))
  · -- a variable
    refine (Takes.refl hs).expect fun _ s1 _ _ _ htakes => ?_
    refine htakes.child (identifier_parses s1) fun name _ _ htakes => ?_
    refine htakes.expect fun _ s3 _ _ _ htakes => ?_
    refine htakes.child (typeDenoter_parses s3) fun type _ _ htakes => ?_
    exact .pure (htakes.whole rfl rfl (by omega))
  · -- a procedure
    refine (Takes.refl hs).expect fun _ s1 _ _ _ htakes => ?_
    refine htakes.child (identifier_parses s1) fun name _ _ htakes => ?_
    refine htakes.expect fun _ s3 _ _ _ htakes => ?_
    refine (formals_lists s3 htakes.left).bind fun parameters _ _ hlists => ?_
    refine htakes.close hlists fun _ _ _ htakes => ?_
    refine htakes.expect fun _ s6 _ _ _ htakes => ?_
    refine htakes.child (singleCommand_parses s6) fun body _ _ htakes => ?_
    exact .pure (htakes.whole rfl rfl (by omega))
  · -- a function
    refine (Takes.refl hs).expect fun _ s1 _ _ _ htakes => ?_
    refine htakes.child (identifier_parses s1) fun name _ _ htakes => ?_
    refine htakes.expect fun _ s3 _ _ _ htakes => ?_
    refine (formals_lists s3 htakes.left).bind fun parameters _ _ hlists => ?_
    refine htakes.close hlists fun _ _ _ htakes => ?_
    refine htakes.expect fun _ s6 _ _ _ htakes => ?_
    refine htakes.child (typeDenoter_parses s6) fun result _ _ htakes => ?_
    refine htakes.expect fun _ s8 _ _ _ htakes => ?_
    refine htakes.child (expression_parses s8) fun body _ _ htakes => ?_
    exact .pure (htakes.whole rfl rfl (by omega))
  · -- a type
    refine (Takes.refl hs).expect fun _ s1 _ _ _ htakes => ?_
    refine htakes.child (identifier_parses s1) fun name _ _ htakes => ?_
    refine htakes.expect fun _ s3 _ _ _ htakes => ?_
    refine htakes.child (typeDenoter_parses s3) fun type _ _ htakes => ?_
    exact .pure (htakes.whole rfl rfl (by omega))
  · -- no declaration
    exact .throw
termination_by 8 * s.size
decreasing_by all_goals omega

theorem actuals_lists (s : Stream) (hs : Ordered s) :
    Gives (Grammar.actuals s) fun actuals rest => Lists s (.actuals actuals) rest := by
  rw [Grammar.actuals]
  split
  · exact .pure (.none hs rfl rfl)
  · refine (someActuals_parses s hs).bind fun _ _ _ htakes => .pure (htakes.lists ?_)
    exact fun _ _ brackets => nomatch brackets
termination_by 8 * s.size + 4
decreasing_by all_goals omega

theorem someActuals_parses (s : Stream) : Parses s .actuals (Grammar.someActuals s) := by
  intro hs
  rw [Grammar.someActuals]
  refine (Takes.refl hs).child (actual_parses s) fun first s1 _ htakes => ?_
  dsimp only
  split
  · refine htakes.expect fun _ s2 _ _ _ htakes => ?_
    dsimp only
    refine htakes.child (someActuals_parses s2) fun rest _ _ htakes => ?_
    exact .pure (htakes.whole rfl rfl (by omega))
  · exact .pure (htakes.whole rfl rfl (by omega))
termination_by 8 * s.size + 3
decreasing_by all_goals omega

theorem actual_parses (s : Stream) : Parses s .actual (Grammar.actual s) := by
  intro hs
  rw [Grammar.actual]
  split
  -- the tokens that can start an expression
  iterate 9
    next =>
      refine (Takes.refl hs).child (expression_parses s) fun value _ _ htakes => ?_
      exact .pure (htakes.whole rfl rfl (by omega))
  · refine (Takes.refl hs).expect fun _ s1 _ _ hleads htakes => ?_
    refine (identifier_parses s1 htakes.left).bind fun name s2 _ hname => ?_
    refine (vnameAfter_takes hname.simple).bind fun found _ _ hfound => ?_
    exact .pure ((htakes.trans hfound).whole rfl rfl (by omega))
  · refine (Takes.refl hs).expect fun _ s1 _ _ _ htakes => ?_
    refine htakes.child (identifier_parses s1) fun name _ _ htakes => ?_
    exact .pure (htakes.whole rfl rfl (by omega))
  · refine (Takes.refl hs).expect fun _ s1 _ _ _ htakes => ?_
    refine htakes.child (identifier_parses s1) fun name _ _ htakes => ?_
    exact .pure (htakes.whole rfl rfl (by omega))
  · exact .throw
termination_by 8 * s.size + 2
decreasing_by all_goals omega

end

end TriangleTam.Spans
