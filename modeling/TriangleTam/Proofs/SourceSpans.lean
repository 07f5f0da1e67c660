import TriangleTam.Proofs.Parsing.Exact
import TriangleTam.Proofs.Spans.Parsing

/-! # Source spans

  The tokens of a text are in order of their lines, and the end marker stands
  on the last line. The tree of the text is written with all the tokens before
  the end marker, and every node has the span of those that it is written
  with. So all spans are nested and lie on lines of the text.
-/

namespace TriangleTam

open Spans

/-! ## Tokens of a text -/

theorem Scan.lineAfter_le (before s : List Char) :
    lineAfter before ≤ lineAfter (before ++ s) := by
  rw [lineAfter_append]
  exact Nat.le_add_right ..

theorem Text.newlines_dropLast_le (s : List Char) : newlines s.dropLast ≤ newlines s :=
  (List.dropLast_sublist s).count_le _

/-- Pieces of a text have tokens in order, behind what stands before the text. -/
theorem Scan.Scanned.inOrder {before text : List Char} {pieces : List Scan.Piece}
    (h : Scan.Scanned before text pieces) :
    InOrder (Scan.lineAfter before) (pieces.map Scan.Piece.token) := by
  induction h with
  | ends stretch => exact ⟨Scan.lineAfter_le .., Nat.le_refl _, trivial⟩
  | @token before gap s rest kind others stretch longest behind ih =>
    refine ⟨Scan.lineAfter_le .., Scan.lineAfter_le .., ih.mono ?_⟩
    show Scan.lineAfter (before ++ gap ++ s.dropLast) ≤ Scan.lineAfter (before ++ gap ++ s)
    rw [Scan.lineAfter_append, Scan.lineAfter_append (before ++ gap) s]
    exact Nat.add_le_add_left (Text.newlines_dropLast_le s) _

/-- The tokens of a text are in order, and the last one is on the last line. -/
theorem inOrder_tokenize (text : String) : InOrder 1 (tokenize text) ∧
    finishAfter 1 (tokenize text) = 1 + Text.newlines text.toList := by
  obtain ⟨pieces, hscanned⟩ := Scan.exists_scanned [] text.toList
  have htokens : tokenize text = pieces.map Scan.Piece.token := hscanned.tokens
  refine ⟨htokens ▸ hscanned.inOrder, ?_⟩
  obtain ⟨proper, gap, rfl, -⟩ := hscanned.ending
  rw [htokens, List.map_append, finishAfter_append]
  rfl

/-! ## The tree of a text -/

/-- A program is written with the tokens before the end marker. -/
theorem Program.parse_spanned {text : String} {program : Program}
    (h : Program.parse text = .ok program) :
    ∃ tokens ending, tokenize text = tokens ++ [ending] ∧ ending.kind = .endOfText ∧
      Spanned (Node.program program).parts tokens ending ∧
      program.span = cover tokens ending := by
  obtain ⟨htokens, hending, hproper⟩ := Stream.tokens_ofText text
  have hordered : Ordered (Stream.ofText text) := by
    unfold Ordered
    rw [htokens]
    exact (inOrder_tokenize text).1
  unfold Program.parse at h
  dsimp only at h
  cases hok : Grammar.command (Stream.ofText text) with
  | error e =>
    rw [hok] at h
    cases h
  | ok parsed =>
    rw [hok] at h
    obtain ⟨hs, taken, hleads, hspanned⟩ := command_parses _ hordered _ hok
    obtain ⟨command, s1, _⟩ := parsed
    dsimp only at hleads hspanned
    by_cases hend : s1.kind = .endOfText
    · simp only [bind, Except.bind, hend, ne_eq, not_true_eq_false, if_false] at h
      cases h
      -- an end marker that comes next is the one at the end
      have hpending : s1.pending = [] := by
        cases hs1 : s1.pending with
        | nil => rfl
        | cons token others =>
          have hkind : token.kind = .endOfText := by
            rw [Stream.kind, Stream.current, hs1] at hend
            exact hend
          refine absurd hkind (hproper token ?_)
          rw [hleads.pending, hs1]
          exact List.mem_append_right _ List.mem_cons_self
      have hcurrent : s1.current = s1.ending := by rw [Stream.current, hpending]; rfl
      have hsplit : tokenize text = taken ++ [s1.ending] := by
        rw [← htokens, hleads.tokens, Stream.tokens, hpending, List.nil_append]
      refine ⟨taken, s1.ending, hsplit, hleads.ending ▸ hending, hcurrent ▸ hspanned, ?_⟩
      rw [← hcurrent]
      exact hleads.since hs
    · simp only [bind, Except.bind, ne_eq, hend, not_false_eq_true, if_true] at h
      cases h

/-- All nodes of the tree are nested, on lines of the text. -/
theorem Program.parse_nested {text : String} {program : Program}
    (h : Program.parse text = .ok program) :
    ∀ node, (Node.program program).Has node →
      node.Nested 1 (1 + Text.newlines text.toList) := by
  obtain ⟨tokens, ending, htokens, -, hspanned, hspan⟩ := parse_spanned h
  obtain ⟨hordered, hlast⟩ := inOrder_tokenize text
  rw [htokens] at hordered hlast
  rw [← hlast, finishAfter_append]
  exact (hspanned.arranged hordered).nested hspan hordered

/-- The tree of a text that parses is written with its tokens up to the end marker, and each node
    has the span of those it is written with. The spans lie on lines of the text, those of
    children inside those of their parents and in order, empty commands aside. -/
theorem Program.parse_spans {text : String} {program : Program}
    (h : Program.parse text = .ok program) :
    (∃ tokens ending, tokenize text = tokens ++ [ending] ∧ ending.kind = .endOfText ∧
      Spanned (Node.program program).parts tokens ending ∧
      program.span = cover tokens ending) ∧
    ∀ node, (Node.program program).Has node →
      node.Nested 1 (1 + Text.newlines text.toList) :=
  ⟨parse_spanned h, parse_nested h⟩

/-- A text with a newline in a literal, a doubling, brackets and empty commands, and a comment
    behind it. -/
private def spreadText : String :=
  "\nlet var x: Integer\n in begin\n  x\n **; if '\n' = 'a' then\n  else \x7b \x7d\nend $\n$"

/-- The program ends before the comment does, which is on the last of the lines. -/
theorem Program.parse_spans_sample : ∃ program, Program.parse spreadText = .ok program ∧
    program.span = ⟨2, 8⟩ ∧
    (∃ tokens ending, tokenize spreadText = tokens ++ [ending] ∧ ending.kind = .endOfText ∧
      Spanned (Node.program program).parts tokens ending ∧
      program.span = cover tokens ending) ∧
    ∀ node, (Node.program program).Has node → node.Nested 1 9 := by
  have hspan : (Program.parse spreadText).toOption.any (fun program =>
      program.span = ⟨2, 8⟩) = true := by
    decide +kernel
  have hlines : 1 + Text.newlines spreadText.toList = 9 := by decide +kernel
  cases hok : Program.parse spreadText with
  | error d =>
    rw [hok] at hspan
    cases hspan
  | ok program =>
    rw [hok] at hspan
    obtain ⟨hspanned, hnested⟩ := parse_spans hok
    rw [hlines] at hnested
    exact ⟨program, rfl, of_decide_eq_true hspan, hspanned, hnested⟩

end TriangleTam
