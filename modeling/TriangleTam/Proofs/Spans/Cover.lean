import TriangleTam.Proofs.Spans.Lines
import TriangleTam.Proofs.Spans.Nodes

/-! # Spans and tokens

  A node is written with a run of tokens and **covers** them: its span reaches
  from the line on which the first one starts to the line on which the last one
  finishes. Its parts share the tokens out among themselves, in order. So
  whatever is known of the lines of tokens is known of the spans of nodes too,
  for all nodes by one induction.

  Three kinds of nodes are written otherwise. An empty command and an empty
  list of parameters have no tokens, and stand where the next token starts. A
  node in brackets covers what is between them. A doubling covers its variable
  and its mark, which are all that its other nodes are made from.
-/

namespace TriangleTam.Spans

/-! ## The tokens of nodes -/

/-- The token is one that the part is written with. A node has tokens of its own. -/
def Part.Takes : Part → Token → Prop
  | .mark kind, token => token.kind = kind
  | .word kind spelling, token => token.kind = kind ∧ token.spelling = spelling
  | .node _, _ | .parameters _, _ => False

/-- Brackets that group a command or an expression. -/
inductive Node.Grouped : Node → TokenKind → TokenKind → Prop
  | block (found : Command) : Grouped (.command found) .beginWord .endWord
  | braces (found : Command) : Grouped (.command found) .leftCurly .rightCurly
  | parentheses (found : Expression) : Grouped (.expression found) .leftParen .rightParen

/-- The parts are written with the tokens, `next` is the token behind them, and all nodes have the
    spans of what they are written with. -/
inductive Spanned : List Part → List Token → Token → Prop
  | done {next : Token} : Spanned [] [] next
  | token {part : Part} {parts : List Part} {token : Token} {others : List Token} {next : Token}
      (takes : part.Takes token) (behind : Spanned parts others next) :
      Spanned (part :: parts) (token :: others) next
  /-- A node covers the tokens of its parts, one or more unless it is an empty command. -/
  | node {node : Node} {parts : List Part} {own others : List Token} {next : Token}
      (inner : Spanned node.parts own (ahead others next))
      (span : node.span = cover own (ahead others next))
      (written : node.IsEmptyCommand ∨ own ≠ []) (behind : Spanned parts others next) :
      Spanned (.node node :: parts) (own ++ others) next
  /-- Parameters cover their tokens too, and may have none before the parenthesis. -/
  | parameters {node : Node} {parts : List Part} {own others : List Token} {closer next : Token}
      (inner : Spanned node.parts own closer) (span : node.span = cover own closer)
      (closes : closer.kind = .rightParen) (behind : Spanned parts others next) :
      Spanned (.parameters node :: parts) (own ++ closer :: others) next
  /-- Brackets around a node are its tokens, but it does not cover them. -/
  | grouped {node : Node} {opener closer : TokenKind} {parts : List Part}
      {own others : List Token} {next : Token} (brackets : node.Grouped opener closer)
      (inner : Spanned [.mark opener, .node node, .mark closer] own (ahead others next))
      (behind : Spanned parts others next) : Spanned (.node node :: parts) (own ++ others) next
  /-- A doubling covers its variable and its mark. -/
  | doubling {target : Vname} {span : Span} {parts : List Part} {own others : List Token}
      {mark next : Token} (inner : Spanned [.node (.vname target)] own mark)
      (stands : mark.kind = .doubleOperator)
      (covers : span = cover (own ++ [mark]) (ahead others next))
      (behind : Spanned parts others next) :
      Spanned (.node (.command (Grammar.doubling span target mark.span)) :: parts)
        (own ++ mark :: others) next

/-- What is written one after the other is written together. -/
theorem Spanned.append {parts parts' : List Part} {tokens others : List Token} {next : Token}
    (h : Spanned parts tokens (ahead others next)) (h' : Spanned parts' others next) :
    Spanned (parts ++ parts') (tokens ++ others) next := by
  -- by induction on what is written first: the token behind a piece of it is the same
  generalize hnext : ahead others next = between at h
  induction h with
  | done => exact h'
  | token takes _ ih => exact .token takes (ih hnext)
  | node inner span written _ _ ih =>
    subst hnext
    rw [List.append_assoc]
    rw [← ahead_append] at inner span
    exact .node inner span written (ih rfl)
  | parameters inner span closes _ _ ih =>
    rw [List.append_assoc]
    exact .parameters inner span closes (ih hnext)
  | grouped brackets inner _ _ ih =>
    subst hnext
    rw [List.append_assoc]
    rw [← ahead_append] at inner
    exact .grouped brackets inner (ih rfl)
  | doubling inner stands covers _ _ ih =>
    subst hnext
    rw [List.append_assoc]
    rw [← ahead_append] at covers
    exact .doubling inner stands covers (ih rfl)

/-! ## Spans in order -/

/-- The node lies on the lines from `first` to `last`, its children lie on its own lines unless
    they are empty commands, and no child starts before the one in front of it. -/
structure Node.Nested (first last : Nat) (node : Node) : Prop where
  start    : first ≤ node.span.start
  ordered  : node.span.start ≤ node.span.finish
  finish   : node.span.finish ≤ last
  inside   : ∀ child ∈ node.children, ¬ child.IsEmptyCommand →
    node.span.start ≤ child.span.start ∧ child.span.finish ≤ node.span.finish
  siblings : node.children.Pairwise fun child other => child.span.start ≤ other.span.start

theorem Node.Nested.mono {first first' last last' : Nat} {node : Node}
    (h : node.Nested first last) (hfirst : first' ≤ first) (hlast : last ≤ last') :
    node.Nested first' last' :=
  ⟨Nat.le_trans hfirst h.start, h.ordered, Nat.le_trans h.finish hlast, h.inside, h.siblings⟩

/-- The node and all nodes below it lie as they should, on lines of the tokens. -/
structure Node.Placed (line : Nat) (tokens : List Token) (next : Token) (node : Node) : Prop where
  nested : ∀ inner, node.Has inner → inner.Nested line next.span.finish
  start  : (ahead tokens next).span.start ≤ node.span.start
  finish : node.span.finish ≤ next.span.start
  within : node.IsEmptyCommand ∨ ∃ token ∈ tokens, node.span.finish ≤ token.span.finish

namespace Node.Placed

variable {line : Nat} {tokens others : List Token} {next token : Token} {node : Node}

/-- More tokens may follow. -/
theorem before (h : node.Placed line tokens (ahead others next))
    (horder : InOrder line (tokens ++ (others ++ [next]))) :
    node.Placed line (tokens ++ others) next := by
  obtain ⟨hstart, hfinish⟩ := (inOrder_append.1 horder).2.ahead_start_le
  refine ⟨fun inner hhas => (h.nested inner hhas).mono (Nat.le_refl _) hfinish, ?_,
    Nat.le_trans h.finish hstart, ?_⟩
  · rw [ahead_append]
    exact h.start
  · exact h.within.imp_right fun ⟨token, hmem, hle⟩ =>
      ⟨token, List.mem_append_left _ hmem, hle⟩

/-- More tokens may come first. -/
theorem behind (h : node.Placed (finishAfter line tokens) others next)
    (horder : InOrder line (tokens ++ (others ++ [next]))) :
    node.Placed line (tokens ++ others) next := by
  obtain ⟨htokens, hothers⟩ := inOrder_append.1 horder
  refine ⟨fun inner hhas => (h.nested inner hhas).mono htokens.le_finishAfter (Nat.le_refl _), ?_,
    h.finish, ?_⟩
  · rw [ahead_append]
    exact Nat.le_trans horder.ahead_of_append.ahead_start_le.1 h.start
  · exact h.within.imp_right fun ⟨token, hmem, hle⟩ =>
      ⟨token, List.mem_append_right _ hmem, hle⟩

end Node.Placed

/-- What is below a node is the node itself, or below one of its children. -/
theorem Node.Has.cases_children {node inner : Node} {P : Node → Prop} (h : node.Has inner)
    (hroot : P node) (hchildren : ∀ child ∈ node.children, ∀ inner, child.Has inner → P inner) :
    P inner := by
  cases h with
  | root => exact hroot
  | inside below has => exact hchildren _ below _ has

/-- The nodes are placed, and none starts before the one in front of it. -/
structure Arranged (line : Nat) (nodes : List Node) (tokens : List Token) (next : Token) :
    Prop where
  placed : ∀ node ∈ nodes, node.Placed line tokens next
  order  : nodes.Pairwise fun node other => node.span.start ≤ other.span.start

/-- The lines of a node that covers its tokens. -/
theorem Arranged.nested {line : Nat} {node : Node} {tokens : List Token} {next : Token}
    (h : Arranged line node.children tokens next) (hspan : node.span = cover tokens next)
    (horder : InOrder line (tokens ++ [next])) :
    ∀ inner, node.Has inner → inner.Nested line next.span.finish := by
  obtain ⟨hstart, hordered, hfinish⟩ := horder.cover
  refine fun inner hhas => hhas.cases_children ?_ fun child hmem => (h.placed child hmem).nested
  rw [← hspan] at hstart hordered hfinish
  refine ⟨hstart, hordered, Nat.le_trans hfinish horder.finish_next.2, ?_, h.order⟩
  intro child hmem hproper
  obtain ⟨-, hchild, -, hwithin⟩ := h.placed child hmem
  obtain ⟨token, htoken, hle⟩ := hwithin.resolve_left hproper
  rw [hspan, cover_start]
  exact ⟨hchild, Nat.le_trans hle (horder.finish_le_cover htoken)⟩

/-- A node comes first, and the other nodes are arranged behind it. -/
theorem Arranged.cons {line : Nat} {node : Node} {nodes : List Node} {tokens others : List Token}
    {next : Token} (hnode : node.Placed line tokens (ahead others next))
    (hnodes : Arranged (finishAfter line tokens) nodes others next)
    (horder : InOrder line (tokens ++ (others ++ [next]))) :
    Arranged line (node :: nodes) (tokens ++ others) next := by
  refine ⟨?_, List.pairwise_cons.2 ⟨fun other hmem => ?_, hnodes.order⟩⟩
  · intro other hmem
    cases hmem with
    | head => exact hnode.before horder
    | tail _ hmem => exact (hnodes.placed other hmem).behind horder
  · -- the first node finishes before the other one starts
    have hordered := (hnode.nested node (.root node)).ordered
    have hother := (hnodes.placed other hmem).start
    exact Nat.le_trans hordered (Nat.le_trans hnode.finish hother)

section Doubling

variable {line last : Nat} {node : Node}

/-- All nodes of a tree lie as they should if its root does and those of its branches do. -/
private theorem nested_node {nodes : List Node} (hchildren : node.children = nodes)
    (hspan : line ≤ node.span.start ∧ node.span.start ≤ node.span.finish ∧
      node.span.finish ≤ last)
    (hinside : ∀ child ∈ nodes,
      node.span.start ≤ child.span.start ∧ child.span.finish ≤ node.span.finish)
    (hsiblings : nodes.Pairwise fun child other => child.span.start ≤ other.span.start)
    (hbelow : ∀ child ∈ nodes, ∀ inner, child.Has inner → inner.Nested line last) :
    ∀ inner, node.Has inner → inner.Nested line last := by
  subst hchildren
  obtain ⟨hstart, hordered, hfinish⟩ := hspan
  exact fun inner hhas => hhas.cases_children
    ⟨hstart, hordered, hfinish, fun child hmem _ => hinside child hmem, hsiblings⟩ hbelow

/-- The nodes that stand for a doubling lie on the lines of the variable and the mark. -/
theorem nested_doubling {target : Vname} {span : Span} {own : List Token} {mark : Token}
    (htarget : (Node.vname target).Placed line own mark) (hcover : target.span = cover own mark)
    (hspan : span = ⟨(ahead own mark).span.start, mark.span.finish⟩)
    (horder : InOrder line (own ++ [mark])) (hlast : mark.span.finish ≤ last) :
    ∀ inner, (Node.command (Grammar.doubling span target mark.span)).Has inner →
      inner.Nested line last := by
  obtain ⟨hnested, -, hfinish, -⟩ := htarget
  have hline := horder.start_ahead
  have hmark := horder.finish_next.2
  have hordered : target.span.start ≤ target.span.finish := (hnested _ (.root _)).ordered
  have hbelow : ∀ inner, (Node.vname target).Has inner → inner.Nested line last :=
    fun inner hhas => (hnested inner hhas).mono (Nat.le_refl line) hlast
  have hfirst : span.start = (ahead own mark).span.start := by rw [hspan]
  have hends : span.finish = mark.span.finish := by rw [hspan]
  have hstart : target.span.start = (ahead own mark).span.start := by rw [hcover, cover_start]
  replace hfinish : target.span.finish ≤ mark.span.start := hfinish
  -- the lines of the three spans that there are
  have hwhole : line ≤ span.start ∧ span.start ≤ span.finish ∧ span.finish ≤ last := by omega
  have hleft : line ≤ target.span.start ∧ target.span.start ≤ target.span.finish ∧
      target.span.finish ≤ last := by omega
  have hright : line ≤ mark.span.start ∧ mark.span.start ≤ mark.span.finish ∧
      mark.span.finish ≤ last := by omega
  -- from the leaves up
  have hliteral : ∀ inner, (Node.integer ⟨"2", mark.span⟩).Has inner →
      inner.Nested line last :=
    nested_node rfl hright (List.forall_mem_nil _) .nil (List.forall_mem_nil _)
  have htimes : ∀ inner, (Node.name .operator ⟨"*", mark.span, none⟩).Has inner →
      inner.Nested line last :=
    nested_node rfl hright (List.forall_mem_nil _) .nil (List.forall_mem_nil _)
  have htwo : ∀ inner,
      (Node.expression (.integer mark.span none ⟨"2", mark.span⟩)).Has inner →
        inner.Nested line last :=
    nested_node rfl hright (List.forall_mem_singleton.2 ⟨Nat.le_refl _, Nat.le_refl _⟩)
      (List.pairwise_singleton ..) (List.forall_mem_singleton.2 hliteral)
  have hoperand : ∀ inner, (Node.expression (.vname target.span none target)).Has inner →
      inner.Nested line last :=
    nested_node rfl hleft (List.forall_mem_singleton.2 ⟨Nat.le_refl _, Nat.le_refl _⟩)
      (List.pairwise_singleton ..) (List.forall_mem_singleton.2 hbelow)
  have hproduct : ∀ inner, (Node.expression (.binary span none (.vname target.span none target)
      ⟨"*", mark.span, none⟩ (.integer mark.span none ⟨"2", mark.span⟩))).Has inner →
        inner.Nested line last := by
    refine nested_node (show _ = [Node.expression (.vname target.span none target),
      .name .operator ⟨"*", mark.span, none⟩,
      .expression (.integer mark.span none ⟨"2", mark.span⟩)] from rfl) hwhole ?_ ?_ ?_
    · simp only [List.mem_cons, List.not_mem_nil, or_false, forall_eq_or_imp, forall_eq,
        Node.span, Expression.span]
      omega
    · simp only [List.pairwise_cons, List.mem_cons, List.not_mem_nil, or_false,
        forall_eq_or_imp, forall_eq, Node.span, Expression.span]
      refine ⟨⟨?_, ?_⟩, Nat.le_refl _, fun _ hmem => hmem.elim, .nil⟩ <;> omega
    · exact List.forall_mem_cons.2 ⟨hoperand, List.forall_mem_cons.2 ⟨htimes,
        List.forall_mem_singleton.2 htwo⟩⟩
  refine nested_node (show _ = [Node.vname target, .expression (.binary span none
    (.vname target.span none target) ⟨"*", mark.span, none⟩
    (.integer mark.span none ⟨"2", mark.span⟩))] from rfl) hwhole ?_ ?_ ?_
  · simp only [List.mem_cons, List.not_mem_nil, or_false, forall_eq_or_imp, forall_eq,
      Node.span, Expression.span, Grammar.doubling, Command.span]
    omega
  · simp only [List.pairwise_cons, List.mem_cons, List.not_mem_nil, or_false,
      forall_eq, Node.span, Expression.span]
    refine ⟨?_, fun _ hmem => hmem.elim, .nil⟩
    omega
  · exact List.forall_mem_cons.2 ⟨hbelow, List.forall_mem_singleton.2 hproduct⟩

end Doubling

/-- A node alone. -/
theorem Spanned.single {node : Node} {tokens : List Token} {next : Token}
    (inner : Spanned node.parts tokens next) (span : node.span = cover tokens next)
    (written : node.IsEmptyCommand ∨ tokens ≠ []) : Spanned [.node node] tokens next := by
  have hnode : Spanned [.node node] (tokens ++ []) next := .node inner span written .done
  rwa [List.append_nil] at hnode

/-- A node of a kind that is never grouped covers its tokens. -/
theorem Spanned.ungrouped {node : Node} {tokens : List Token} {next : Token}
    (h : Spanned [.node node] tokens next)
    (hplain : ∀ opener closer, ¬ node.Grouped opener closer) :
    Spanned node.parts tokens next ∧ node.span = cover tokens next := by
  cases h with
  | token takes _ => exact takes.elim
  | node inner span written behind =>
    cases behind
    rw [List.append_nil]
    exact ⟨inner, span⟩
  | grouped brackets inner behind => exact absurd brackets (hplain _ _)
  | doubling inner stands covers behind => exact absurd (.block _) (hplain _ _)

/-- Where tokens are in order, so are the spans of the nodes that are written with them. -/
theorem Spanned.arranged {parts : List Part} {tokens : List Token} {next : Token}
    (h : Spanned parts tokens next) {line : Nat} (horder : InOrder line (tokens ++ [next])) :
    Arranged line (Part.nodes parts) tokens next := by
  induction h generalizing line with
  | done => exact ⟨List.forall_mem_nil _, .nil⟩
  | @token part parts token others next takes behind ih =>
    have hothers := ih horder.2.2
    -- a token is no node
    have hnodes : Part.nodes (part :: parts) = Part.nodes parts := by
      cases part with
      | mark kind => rfl
      | word kind spelling => rfl
      | node node => exact takes.elim
      | parameters node => exact takes.elim
    rw [hnodes]
    refine ⟨fun node hmem => ?_, hothers.order⟩
    have hbehind : node.Placed (finishAfter line [token]) others next := hothers.placed node hmem
    exact hbehind.behind horder
  | @node node parts own others next inner span written behind ihinner ihbehind =>
    -- the node covers its own tokens, and what is behind it comes later
    rw [List.append_assoc] at horder
    have hown := horder.ahead_of_append
    have harranged : Arranged line node.children own (ahead others next) := ihinner hown
    refine .cons ⟨harranged.nested span hown, ?_, ?_, ?_⟩ (ihbehind (inOrder_append.1 horder).2)
      horder
    · rw [span, cover_start]
    · rw [span]
      exact hown.cover.2.2
    · rw [span]
      exact written.imp_right exists_finish
  | @parameters node parts own others closer next inner span closes behind ihinner ihbehind =>
    -- parameters end no later than the parenthesis behind them starts
    rw [List.append_cons own closer others] at horder ⊢
    -- brackets lie outside of the span of the node in them
    rw [List.append_assoc] at horder
    have hcloser := horder.ahead_of_append
    obtain ⟨hown, hbehind⟩ := inOrder_concat hcloser
    have harranged : Arranged line node.children own closer := ihinner hown
    obtain ⟨-, -, hfinish⟩ := hown.cover
    rw [← span] at hfinish
    have hcloses := hown.finish_next.2
    refine .cons ⟨?_, ?_, ?_, .inr ⟨closer, by simp, ?_⟩⟩ (ihbehind (inOrder_append.1 horder).2)
      horder
    · exact fun inner hhas =>
        (harranged.nested span hown inner hhas).mono (Nat.le_refl _) (by omega)
    · rw [ahead_append, span, cover_start]
      rfl
    · omega
    · omega
  | @grouped node opener closer parts own others next brackets inner behind ihinner ihbehind =>
    rw [List.append_assoc] at horder
    have hown := horder.ahead_of_append
    exact .cons ((ihinner hown).placed node (by simp [Part.nodes]))
      (ihbehind (inOrder_append.1 horder).2) horder
  | @doubling target span parts own others mark next inner stands covers behind ihinner ihbehind =>
    -- the tree for `v **` has the span of its tokens, with the mark
    rw [List.append_cons own mark others] at horder ⊢
    rw [List.append_assoc] at horder
    have hmark := horder.ahead_of_append
    obtain ⟨hown, hbehind⟩ := inOrder_concat hmark
    have htarget := (ihinner hown).placed (.vname target) (by simp [Part.nodes])
    rw [cover_concat] at covers
    refine .cons ⟨?_, ?_, ?_, .inr ⟨mark, by simp, ?_⟩⟩ (ihbehind (inOrder_append.1 horder).2)
      horder
    · -- the vname is written in no brackets
      have hplain := inner.ungrouped fun _ _ brackets => nomatch brackets
      exact nested_doubling htarget hplain.2 covers hown (by omega)
    · rw [ahead_append]
      show _ ≤ span.start
      rw [covers]
      rfl
    · show span.finish ≤ _
      rw [covers]
      exact hbehind.1
    · show span.finish ≤ _
      rw [covers]

end TriangleTam.Spans
