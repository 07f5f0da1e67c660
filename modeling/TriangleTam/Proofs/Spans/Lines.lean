import TriangleTam.Proofs.Scanning.Exact

/-! # Lines of tokens

  Tokens are **in order** if none starts before the one in front of it
  finishes. A run of such tokens **covers** the lines from the one on which its
  first token starts to the one on which its last finishes. Where the run is
  empty, that is the line on which the next token starts.
-/

namespace TriangleTam.Spans

/-- The line on which the last of the tokens finishes. Without tokens that is `line`. -/
def finishAfter (line : Nat) (tokens : List Token) : Nat :=
  tokens.foldl (fun _ token => token.span.finish) line

/-- From `line` on, no token finishes before it starts, or starts before the one in front of it
    finishes. -/
def InOrder : Nat → List Token → Prop
  | _, [] => True
  | line, token :: others =>
    line ≤ token.span.start ∧ token.span.start ≤ token.span.finish ∧
      InOrder token.span.finish others

/-- The token that comes first, where `next` is behind the tokens. -/
def ahead (tokens : List Token) (next : Token) : Token := tokens.headD next

/-- The span of what is written with the tokens, where `next` is behind them. -/
def cover : List Token → Token → Span
  | [], next => ⟨next.span.start, next.span.start⟩
  | token :: others, _ => ⟨token.span.start, finishAfter token.span.finish others⟩

section Lines

variable {line line' : Nat} {tokens others : List Token} {next token : Token}

@[simp] theorem finishAfter_nil (line : Nat) : finishAfter line [] = line := rfl

@[simp] theorem finishAfter_cons (line : Nat) (token : Token) (others : List Token) :
    finishAfter line (token :: others) = finishAfter token.span.finish others := rfl

@[simp] theorem finishAfter_append (line : Nat) (tokens others : List Token) :
    finishAfter line (tokens ++ others) = finishAfter (finishAfter line tokens) others :=
  List.foldl_append

@[simp] theorem ahead_nil (next : Token) : ahead [] next = next := rfl

@[simp] theorem ahead_cons (token : Token) (others : List Token) (next : Token) :
    ahead (token :: others) next = token := rfl

@[simp] theorem ahead_append (tokens others : List Token) (next : Token) :
    ahead (tokens ++ others) next = ahead tokens (ahead others next) := by
  cases tokens <;> rfl

theorem cover_start (tokens : List Token) (next : Token) :
    (cover tokens next).start = (ahead tokens next).span.start := by
  cases tokens <;> rfl

theorem cover_concat (tokens : List Token) (token next : Token) :
    cover (tokens ++ [token]) next = ⟨(ahead tokens token).span.start, token.span.finish⟩ := by
  cases tokens with
  | nil => rfl
  | cons first others => simp [cover]

theorem InOrder.mono (h : InOrder line tokens) (hle : line' ≤ line) : InOrder line' tokens := by
  cases tokens with
  | nil => trivial
  | cons token others => exact ⟨Nat.le_trans hle h.1, h.2⟩

theorem inOrder_append : InOrder line (tokens ++ others) ↔
    InOrder line tokens ∧ InOrder (finishAfter line tokens) others := by
  induction tokens generalizing line with
  | nil => simp [InOrder]
  | cons token rest ih => simp [InOrder, ih, and_assoc]

theorem InOrder.le_finishAfter (h : InOrder line tokens) : line ≤ finishAfter line tokens := by
  induction tokens generalizing line with
  | nil => exact Nat.le_refl line
  | cons token others ih =>
    obtain ⟨hstart, hfinish, hothers⟩ := h
    exact Nat.le_trans hstart (Nat.le_trans hfinish (ih hothers))

/-- No token starts before the first line, or finishes behind the last token. -/
theorem InOrder.within (h : InOrder line tokens) (hmem : token ∈ tokens) :
    line ≤ token.span.start ∧ token.span.start ≤ token.span.finish ∧
      token.span.finish ≤ finishAfter line tokens := by
  induction tokens generalizing line with
  | nil => cases hmem
  | cons first others ih =>
    obtain ⟨hstart, hfinish, hothers⟩ := h
    cases hmem with
    | head => exact ⟨hstart, hfinish, hothers.le_finishAfter⟩
    | tail _ hmem =>
      obtain ⟨hbehind, hrest⟩ := ih hothers hmem
      exact ⟨Nat.le_trans hstart (Nat.le_trans hfinish hbehind), hrest⟩

/-- The tokens before one that is in order with them. -/
theorem InOrder.ahead_of_append (h : InOrder line (tokens ++ (others ++ [next]))) :
    InOrder line (tokens ++ [ahead others next]) := by
  rw [inOrder_append] at h ⊢
  refine ⟨h.1, ?_⟩
  cases others with
  | nil => exact h.2
  | cons first rest => exact ⟨h.2.1, h.2.2.1, trivial⟩

theorem InOrder.start_ahead (h : InOrder line (tokens ++ [next])) :
    line ≤ (ahead tokens next).span.start := by
  cases tokens <;> exact h.1

theorem InOrder.finish_next (h : InOrder line (tokens ++ [next])) :
    finishAfter line tokens ≤ next.span.start ∧ next.span.start ≤ next.span.finish :=
  have hlast := (inOrder_append.1 h).2
  ⟨hlast.1, hlast.2.1⟩

/-- The token that comes first does not start behind the next one. -/
theorem InOrder.ahead_start_le (h : InOrder line (tokens ++ [next])) :
    (ahead tokens next).span.start ≤ next.span.start ∧
      (ahead tokens next).span.finish ≤ next.span.finish := by
  cases tokens with
  | nil => exact ⟨Nat.le_refl _, Nat.le_refl _⟩
  | cons token others =>
    obtain ⟨-, hfinish, hothers⟩ := h
    have hle := InOrder.le_finishAfter (inOrder_append.1 hothers).1
    obtain ⟨hnext, hends⟩ := hothers.finish_next
    simp only [ahead_cons]
    omega

/-- A cover starts and finishes between the first token and the next one. -/
theorem InOrder.cover (h : InOrder line (tokens ++ [next])) :
    line ≤ (cover tokens next).start ∧ (cover tokens next).start ≤ (cover tokens next).finish ∧
      (cover tokens next).finish ≤ next.span.start := by
  cases tokens with
  | nil => exact ⟨h.1, Nat.le_refl _, Nat.le_refl _⟩
  | cons token others =>
    obtain ⟨hstart, hfinish, hothers⟩ := h
    have hle := InOrder.le_finishAfter (inOrder_append.1 hothers).1
    exact ⟨hstart, Nat.le_trans hfinish hle, hothers.finish_next.1⟩

/-- The last of the tokens is where their cover finishes. -/
theorem exists_finish (h : tokens ≠ []) :
    ∃ token ∈ tokens, (Spans.cover tokens next).finish ≤ token.span.finish := by
  cases tokens with
  | nil => exact absurd rfl h
  | cons first others =>
    induction others generalizing first with
    | nil => exact ⟨first, List.mem_singleton_self first, Nat.le_refl _⟩
    | cons second rest ih =>
      obtain ⟨token, hmem, hle⟩ := ih second (List.cons_ne_nil _ _)
      exact ⟨token, List.mem_cons_of_mem first hmem, hle⟩

theorem inOrder_concat (h : InOrder line (tokens ++ [token] ++ [next])) :
    InOrder line (tokens ++ [token]) ∧ token.span.finish ≤ next.span.start ∧
      next.span.start ≤ next.span.finish := by
  obtain ⟨htokens, hnext⟩ := inOrder_append.1 h
  rw [finishAfter_append] at hnext
  exact ⟨htokens, hnext.1, hnext.2.1⟩

theorem InOrder.finish_le_cover (h : InOrder line (tokens ++ [next])) (hmem : token ∈ tokens) :
    token.span.finish ≤ (Spans.cover tokens next).finish := by
  cases tokens with
  | nil => cases hmem
  | cons first others => exact ((inOrder_append.1 h).1.within hmem).2.2

end Lines

end TriangleTam.Spans
