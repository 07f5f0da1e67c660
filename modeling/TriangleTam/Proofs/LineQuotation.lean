import TriangleTam.Proofs.Compilation
import TriangleTam.Proofs.Recast.Checking
import TriangleTam.Proofs.Recast.Moving
import TriangleTam.Proofs.SourceSpans

/-! # The lines that diagnostics quote

  Spans count lines by the newlines before them, while quoting takes the lines
  of a text, which has no line behind its last newline. The two agree on every
  line that a span can be on, except for an empty last one, which is not quoted.

  Parsing reports errors at tokens, and checking at nodes of the tree: whatever
  holds of the spans of all nodes holds of the spans of all reports, since a
  tree that is moved has its reports moved with it. So every error is on lines
  of the text.
-/

namespace TriangleTam

open Spans

/-! ## Lines of a text -/

namespace Text

/-- Line `n` of the text is what stands between two newlines, the second of which starts the rest
    of the text. The first line has no newline before it, and the last one none behind it. -/
def LineAt (text : List Char) (n : Nat) (line after : List Char) : Prop :=
  ∃ before, text = before ++ line ++ after ∧ n = 1 + newlines before ∧
    (before = [] ∨ before.getLast? = some '\n') ∧ '\n' ∉ line ∧
    (after = [] ∨ after.head? = some '\n')

theorem newlines_newline (cs : List Char) : newlines ('\n' :: cs) = 1 + newlines cs := by
  rw [newlines, List.count_cons_self, Nat.add_comm]
  rfl

theorem newlines_cons {c : Char} (hc : c ≠ '\n') (cs : List Char) :
    newlines (c :: cs) = newlines cs :=
  List.count_cons_of_ne hc

theorem lines_newline (cs : List Char) : lines ('\n' :: cs) = [] :: lines cs := by
  simp [lines]

theorem lines_cons {c : Char} (hc : c ≠ '\n') (cs : List Char) :
    lines (c :: cs) = (c :: (lines cs).headD []) :: (lines cs).tail := by
  rw [lines, if_neg hc]
  cases lines cs <;> rfl

section LineAt

variable {c : Char} {cs line after : List Char} {n : Nat}

theorem LineAt.newline (h : LineAt cs n line after) : LineAt ('\n' :: cs) (1 + n) line after := by
  obtain ⟨before, rfl, rfl, hbefore, hline, hafter⟩ := h
  refine ⟨'\n' :: before, rfl, by rw [newlines_newline], .inr ?_, hline, hafter⟩
  rcases hbefore with rfl | hlast
  · rfl
  · rw [List.getLast?_cons, hlast]
    rfl

/-- A line that is not the first one stays where it is if the first one grows. -/
theorem LineAt.later (hc : c ≠ '\n') (hn : 1 < n) (h : LineAt cs n line after) :
    LineAt (c :: cs) n line after := by
  obtain ⟨before, rfl, rfl, hbefore, hline, hafter⟩ := h
  refine ⟨c :: before, rfl, by rw [newlines_cons hc], .inr ?_, hline, hafter⟩
  rcases hbefore with rfl | hlast
  · exact absurd hn (Nat.lt_irrefl 1)
  · rw [List.getLast?_cons, hlast]
    rfl

theorem LineAt.first (hc : c ≠ '\n') (h : LineAt cs 1 line after) :
    LineAt (c :: cs) 1 (c :: line) after := by
  obtain ⟨before, rfl, hcount, hbefore, hline, hafter⟩ := h
  have hnone : newlines before = 0 := by omega
  obtain rfl : before = [] := by
    rcases hbefore with hempty | hlast
    · exact hempty
    · exact absurd (List.mem_of_getLast? hlast) (List.count_eq_zero.1 hnone)
  exact ⟨[], rfl, rfl, .inl rfl, List.not_mem_cons_of_ne_of_not_mem hc.symm hline, hafter⟩

end LineAt

/-- All lines up to the last one are among the lines of the text, but for the last one where it
    is empty. -/
theorem exists_lineAt (text : List Char) {k : Nat} (hk : k ≤ newlines text) :
    ∃ line after, LineAt text (1 + k) line after ∧
      (lines text)[k]? = if line = [] ∧ after = [] then none else some line := by
  induction text generalizing k with
  | nil =>
    obtain rfl : k = 0 := Nat.le_zero.1 hk
    exact ⟨[], [], ⟨[], rfl, rfl, .inl rfl, List.not_mem_nil, .inl rfl⟩, rfl⟩
  | cons c cs ih =>
    by_cases hc : c = '\n'
    · subst hc
      rw [lines_newline]
      cases k with
      | zero =>
        exact ⟨[], '\n' :: cs, ⟨[], rfl, rfl, .inl rfl, List.not_mem_nil, .inr rfl⟩, by simp⟩
      | succ j =>
        rw [newlines_newline] at hk
        obtain ⟨line, after, hat, hget⟩ := ih (show j ≤ newlines cs by omega)
        refine ⟨line, after, ?_, hget⟩
        rw [Nat.add_comm j 1]
        exact hat.newline
    · rw [newlines_cons hc] at hk
      obtain ⟨line, after, hat, hget⟩ := ih hk
      rw [lines_cons hc]
      cases k with
      | zero =>
        refine ⟨c :: line, after, hat.first hc, ?_⟩
        have hhead : (lines cs).headD [] = line := by
          rw [List.headD_eq_head?_getD, List.head?_eq_getElem?, hget]
          split
          · next hempty => exact hempty.1.symm
          · rfl
        rw [hhead]
        rfl
      | succ j =>
        refine ⟨line, after, hat.later hc (by omega), ?_⟩
        rw [List.getElem?_cons_succ, List.getElem?_tail, hget]

end Text

/-! ## Quotations -/

/-- The diagnostic quotes the line of the text on which it starts, without the blanks at its end.
    It quotes nothing if that is an empty line at the end of the text. -/
def Diagnostic.QuotesLine (d : Diagnostic) (text : String) : Prop :=
  ∃ line after, Text.LineAt text.toList d.span.start line after ∧
    d.quoted text =
      if line = [] ∧ after = [] then d.display
      else d.display ++ "\n " ++ Text.padLeft 4 (Numeral.ofNat d.span.start) ++ " | "
        ++ String.ofList (Text.trimEnd line)

/-- The lines of the span are lines of the text. -/
structure Span.LiesOn (span : Span) (text : String) : Prop where
  start   : 1 ≤ span.start
  ordered : span.start ≤ span.finish
  finish  : span.finish ≤ 1 + Text.newlines text.toList

theorem Diagnostic.quotesLine {d : Diagnostic} {text : String} (hkind : d.kind ≠ .restriction)
    (hlies : d.span.LiesOn text) : d.QuotesLine text := by
  obtain ⟨hstart, hordered, hfinish⟩ := hlies
  have hline : d.span.start - 1 ≤ Text.newlines text.toList := by omega
  obtain ⟨line, after, hat, hget⟩ := Text.exists_lineAt text.toList hline
  rw [Nat.add_sub_cancel' hstart] at hat
  refine ⟨line, after, hat, ?_⟩
  rw [quoted, quotedLine?, if_neg (not_or.2 ⟨hkind, Nat.ne_of_gt hstart⟩), hget]
  by_cases hempty : line = [] ∧ after = []
  · rw [if_pos hempty, if_pos hempty]
  · rw [if_neg hempty, if_neg hempty]

theorem Diagnostic.quoted_restriction {d : Diagnostic} (hkind : d.kind = .restriction)
    (text : String) : d.quoted text = d.display := by
  rw [quoted, quotedLine?, if_pos (.inl hkind)]

/-! ## Reports -/

/-- All tokens of a text lie on lines of it. -/
theorem liesOn_of_mem_tokenize {text : String} {token : Token} (h : token ∈ tokenize text) :
    token.span.LiesOn text := by
  obtain ⟨hordered, hlast⟩ := inOrder_tokenize text
  obtain ⟨hstart, hlines, hfinish⟩ := hordered.within h
  exact ⟨hstart, hlines, hlast ▸ hfinish⟩

/-- What holds of the spans of all nodes holds of the spans of all reports about the program. -/
theorem Program.check_spans {program : Program} {P : Span → Prop}
    (h : ∀ node, (Node.program program).Has node → P node.span)
    (hunknown : program.command.All (fun _ => True) fun type => type = none) {journal : Journal}
    (hempty : journal.diagnostics = #[]) :
    ∀ d ∈ (program.check journal).journal.diagnostics, P d.span := by
  classical
  intro d hd
  by_contra hfalse
  -- moving what `P` does not hold of moves no node, and so no report
  let move : Span → Span := fun span => if P span then span else ⟨d.span.start + 1, 0⟩
  have hstays : program.recast (.moving move) = program :=
    Program.recast_moving (fun node hhas => if_pos (h node hhas)) hunknown
  have hjournal : journal.diagnostics =
      journal.diagnostics.map (Diagnostic.recast (.moving move)) := by
    rw [hempty, Array.map_empty]
  obtain ⟨-, hreports⟩ := check_recast (fun _ => rfl) (fun _ _ => rfl) program hjournal
  rw [hstays] at hreports
  obtain ⟨i, hi, hget⟩ := Array.mem_iff_getElem.1 hd
  have hmoved : d = d.recast (.moving move) := by
    have hsame := congrArg (·[i]?) hreports
    simpa [hi, hget] using hsame
  have hstart : d.span.start = d.span.start + 1 := by
    have hspan : d.span = move d.span := congrArg Diagnostic.span hmoved
    rw [show move d.span = ⟨d.span.start + 1, 0⟩ from if_neg hfalse] at hspan
    exact congrArg Span.start hspan
  omega

/-- Errors in programs are on lines of the text. -/
theorem Program.check_liesOn {text : String} {program : Program}
    (h : Program.parse text = .ok program) {journal : Journal}
    (hempty : journal.diagnostics = #[]) :
    ∀ d ∈ (program.check journal).journal.diagnostics, d.span.LiesOn text :=
  check_spans (P := fun span => span.LiesOn text)
    (fun node hhas =>
      have hnested := parse_nested h node hhas
      ⟨hnested.start, hnested.ordered, hnested.finish⟩)
    (unfound_of_parse h) hempty

/-- Nothing but restrictions is reported about a program without errors. -/
theorem kind_of_compile {text : String} {program : Program} {options : Options}
    (h : Program.parse text = .ok program)
    (hclean : (program.check .beforeCheck).journal.clean = true) {diagnostics : Array Diagnostic}
    (herror : compile text options = .error diagnostics) :
    ∀ d ∈ diagnostics, d.kind = .restriction := by
  obtain ⟨journal, hempty, hcompile⟩ := compile_of_check h hclean options
  have hquiet : (program.check .beforeCheck).journal.diagnostics =
      Journal.beforeCheck.diagnostics := Array.isEmpty_iff.1 hclean
  have htyped := Program.typed_of_check (Program.proper_of_parse h) hquiet
  obtain ⟨source, hsource⟩ := htyped.prepared options
  obtain ⟨s', hencoded⟩ :=
    hsource.encoded (Layouts.fresh_standard .empty) options.showTable journal
  dsimp only at hcompile
  rw [herror] at hcompile
  intro d hd
  split at hcompile
  · cases hcompile
  · obtain rfl := Except.error.inj hcompile
    exact hencoded.gains.kind_eq hempty hd

/-- Every error that is reported about a text is on lines of the text and quotes the line on which
    it starts. Restrictions quote nothing. -/
theorem compile_quotes {text : String} {options : Options} {diagnostics : Array Diagnostic}
    (h : compile text options = .error diagnostics) {d : Diagnostic} (hd : d ∈ diagnostics) :
    (d.kind = .syntactic ∨ d.kind = .semantic → d.span.LiesOn text ∧ d.QuotesLine text) ∧
      (d.kind = .restriction → d.quoted text = d.display) := by
  refine ⟨fun hkind => ?_, fun hkind => d.quoted_restriction hkind text⟩
  have hother : d.kind ≠ .restriction := by rcases hkind with hkind | hkind <;> rw [hkind] <;> nofun
  suffices hlies : d.span.LiesOn text from ⟨hlies, d.quotesLine hother hlies⟩
  cases hparse : Program.parse text with
  | error e =>
    obtain rfl : #[e] = diagnostics :=
      Except.error.inj ((compile_of_parse_error hparse options).symm.trans h)
    obtain rfl := Array.mem_singleton.1 hd
    rcases Parsing.parse_outcome text with ⟨_, _, hok, -⟩ |
      ⟨e, taken, token, after, herror, htokens, -, hspan⟩
    · rw [hparse] at hok
      cases hok
    · obtain rfl : d = e := Except.error.inj (hparse.symm.trans herror)
      rw [hspan]
      exact liesOn_of_mem_tokenize (htokens ▸ List.mem_append_right _ List.mem_cons_self)
  | ok program =>
    cases hclean : (program.check .beforeCheck).journal.clean with
    | false =>
      obtain rfl := Except.error.inj ((compile_of_check_error hparse hclean options).symm.trans h)
      exact Program.check_liesOn hparse rfl d hd
    | true => exact absurd (kind_of_compile hparse hclean h d hd) hother

/-- A text that ends on an empty line where a word is missing. -/
private def brokenOffText : String := "if true then\n"

private def elseMissing : Diagnostic := .ofSyntactic .tokenExpected "else" ⟨2, 2⟩

/-- A text with an unknown name on the second line, and carriage returns at the ends of lines. -/
private def unknownNameText : String := "\r\n x := 1 \r\n"

private def nameUnknown : Diagnostic := .ofSemantic .undeclared "x" ⟨2, 2⟩

/-- An error on the empty line at the end of a text quotes nothing. -/
theorem compile_quotes_sample :
    (compile brokenOffText {} = .error #[elseMissing] ∧ elseMissing.span.LiesOn brokenOffText ∧
      elseMissing.QuotesLine brokenOffText ∧
      elseMissing.quoted brokenOffText = "ERROR: \"else\" expected here 2..2") ∧
    compile unknownNameText {} = .error #[nameUnknown] ∧
      nameUnknown.span.LiesOn unknownNameText ∧ nameUnknown.QuotesLine unknownNameText ∧
      nameUnknown.quoted unknownNameText =
        "ERROR: \"x\" is not declared 2..2\n    2 |  x := 1" := by
  have hbroken : compile brokenOffText {} = .error #[elseMissing] := by decide +kernel
  have hunknown : compile unknownNameText {} = .error #[nameUnknown] := by decide +kernel
  obtain ⟨hlies, hquotes⟩ := (compile_quotes hbroken (Array.mem_singleton.2 rfl)).1 (.inl rfl)
  obtain ⟨hlies', hquotes'⟩ := (compile_quotes hunknown (Array.mem_singleton.2 rfl)).1 (.inr rfl)
  exact ⟨⟨hbroken, hlies, hquotes, by decide +kernel⟩, hunknown, hlies', hquotes',
    by decide +kernel⟩

end TriangleTam
