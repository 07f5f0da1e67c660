import TriangleTam.Compiler
import TriangleTam.Proofs.Parsing.Reading
import TriangleTam.Proofs.Typing.Written

/-! # Parsing is exact

  A text parses if and only if its tokens are derived from the grammar. They
  have one derivation then, and the tree is the one that the derivation
  builds, positions aside. Where there is no derivation, there is one report
  of an error of syntax and no tree.
-/

namespace TriangleTam

/-! ## Tokens of a text -/

/-- The end marker is the last token, and no other is one. -/
theorem Scan.Cursor.tokens_eq (cursor : Cursor) :
    ∃ before ending, cursor.tokens = before ++ [ending] ∧ ending.kind = .endOfText ∧
      ∀ token ∈ before, token.kind ≠ .endOfText := by
  induction cursor using Cursor.tokens.induct with
  | case1 cursor hend =>
    rw [Cursor.tokens, dif_pos hend]
    exact ⟨[], _, rfl, hend, nofun⟩
  | case2 cursor hend _ ih =>
    obtain ⟨before, ending, htokens, hending, hbefore⟩ := ih
    rw [Cursor.tokens, dif_neg hend]
    refine ⟨cursor.next.1 :: before, ending, by rw [htokens]; rfl, hending, ?_⟩
    intro token hmem
    rcases List.mem_cons.1 hmem with rfl | hmem
    · exact hend
    · exact hbefore token hmem

/-- A stream starts with the tokens of its text. -/
theorem Stream.tokens_ofText (text : String) :
    (Stream.ofText text).tokens = tokenize text ∧
      (Stream.ofText text).ending.kind = .endOfText ∧
      ∀ token ∈ (Stream.ofText text).pending, token.kind ≠ .endOfText := by
  obtain ⟨before, ending, htokens, hending, hbefore⟩ := (Scan.Cursor.ofText text).tokens_eq
  have htokens : tokenize text = before ++ [ending] := htokens
  unfold Stream.tokens Stream.ofText
  dsimp only
  rw [htokens, List.dropLast_concat, List.getLastD_concat]
  exact ⟨rfl, hending, hbefore⟩

namespace Parsing

/-! ## Programs -/

/-- A program is a command and the end of the text. -/
abbrev program : List Piece := [.phrase .command, .token .endOfText]

/-- The tokens of the text are derived in this way. -/
structure Derivation.Derives (d : Derivation program) (text : String) : Prop where
  tokens  : d.tokens = tokenize text
  allowed : d.Allowed []

/-- The tree that the derivation of a program builds. -/
def Derivation.tree (d : Derivation program) : Command := d.values.1

namespace Derivation.Derives

variable {d d' : Derivation program} {text : String}

theorem predicted (h : d.Derives text) : d.Predicted [] := by
  have hfollows : Follows program [.endOfText] := by decide
  exact h.allowed.predicted hfollows (List.mem_singleton.2 rfl)

/-- The tokens of a text have one derivation at most. -/
theorem unique (h : d.Derives text) (h' : d'.Derives text) : d = d' :=
  (h.predicted.unique h'.predicted (by rw [h.tokens, h'.tokens])).1

end Derivation.Derives

/-- What parsing returns is derived. Where it fails, reading a program halts, and the diagnostic
    is about the token there. -/
theorem parse_outcome (text : String) :
    (∃ parsed, ∃ d : Derivation program, Program.parse text = .ok parsed ∧ d.Derives text ∧
      parsed.command.bare = d.tree) ∨
    ∃ e taken token after, Program.parse text = .error e ∧
      tokenize text = taken ++ token :: after ∧ Halts program taken token ∧
      e.span = token.span := by
  obtain ⟨htokens, hending, hbefore⟩ := Stream.tokens_ofText text
  have hreads := command_reads (Stream.ofText text) hending
  unfold Program.parse
  dsimp only
  cases hok : Grammar.command (Stream.ofText text) with
  | error e =>
    rw [hok] at hreads
    obtain ⟨taken, token, after, hsplit, hhalts, hspan⟩ := hreads
    refine .inr ⟨e, taken, token, after, rfl, ?_, hhalts.widen _, hspan⟩
    rw [← htokens]
    exact hsplit
  | ok parsed =>
    rw [hok] at hreads
    obtain ⟨head, hsplit, hpredicted, hsame, hvalue⟩ := hreads
    obtain ⟨command, s1, _⟩ := parsed
    dsimp only at hsplit hpredicted hsame hvalue
    by_cases hend : s1.kind = .endOfText
    · simp only [bind, Except.bind, hend, ne_eq, not_true_eq_false, if_false]
      -- an end marker that comes next is the one at the end
      have hpending : s1.pending = [] := by
        rw [Stream.tokens, Stream.tokens, hsame, ← List.append_assoc] at hsplit
        have hpending := List.append_cancel_right hsplit
        cases hs1 : s1.pending with
        | nil => rfl
        | cons token others =>
          have hkind : token.kind = .endOfText := by
            rw [Stream.kind, Stream.current, hs1] at hend
            exact hend
          refine absurd hkind (hbefore token ?_)
          rw [hpending, hs1]
          exact List.mem_append_right _ List.mem_cons_self
      have hrest : s1.tokens = [s1.ending] := by rw [Stream.tokens, hpending, List.nil_append]
      have hstands : s1.ending.Stands .endOfText := ⟨hsame ▸ hending, fun h => absurd h (by decide)⟩
      refine .inl ⟨_, head.cons (.token s1.ending hstands .done), rfl, ⟨?_, ?_⟩, ?_⟩
      · rw [Derivation.tokens_cons, ← htokens, hsplit, hrest]
        rfl
      · refine Derivation.Predicted.allowed ((Derivation.predicted_cons _ _ _).2 ⟨?_, trivial⟩)
        rw [hrest] at hpredicted
        exact hpredicted
      · rw [Derivation.tree, Derivation.values_cons]
        exact hvalue
    · simp only [bind, Except.bind, ne_eq, hend, not_false_eq_true, if_true]
      -- the command was read, and the end of the text has to be behind it
      obtain ⟨after, hrest⟩ := exists_tokens s1
      have hwrong : ¬ s1.current.Stands .endOfText := fun hstands => hend hstands.1
      rw [hrest] at hsplit hpredicted
      refine .inr ⟨_, head.tokens ++ [], s1.current, after, rfl, ?_,
        .behind head (hpredicted.congr rfl) (.token hwrong), rfl⟩
      rw [← htokens, hsplit, List.append_nil]

/-- What parsing returns is derived, and where it fails, nothing is. -/
theorem parse_cases (text : String) :
    (∃ parsed, ∃ d : Derivation program, Program.parse text = .ok parsed ∧ d.Derives text ∧
      parsed.command.bare = d.tree) ∨
    ∃ e, Program.parse text = .error e ∧ ∀ d : Derivation program, ¬ d.Derives text := by
  obtain hderived | ⟨e, taken, token, after, herror, htokens, hhalts, -⟩ := parse_outcome text
  · exact .inl hderived
  · refine .inr ⟨e, herror, fun d hd => ?_⟩
    have hsplit : d.tokens ++ [] = taken ++ token :: after := by
      rw [List.append_nil, hd.tokens, htokens]
    exact hhalts.not_predicted d hsplit hd.predicted

/-- A text that is derived parses, to the tree that the derivation builds. -/
theorem Derivation.Derives.parse {d : Derivation program} {text : String} (h : d.Derives text) :
    ∃ parsed, Program.parse text = .ok parsed ∧ parsed.command.bare = d.tree := by
  rcases parse_cases text with ⟨parsed, d', hok, h', htree⟩ | ⟨e, -, hnone⟩
  · rw [h'.unique h] at htree
    exact ⟨parsed, hok, htree⟩
  · exact absurd h (hnone d)

end Parsing

open Parsing in
/-- Parsing a text gives a tree if and only if the tokens of the text are derived from the
    grammar. There is one derivation then, the tree is the one that it builds, positions aside,
    and nothing is reported. Otherwise a single error of syntax is reported. -/
theorem Compiler.parse_exact (c : Compiler) (text : String) :
    ((c.parse text).1.isSome ↔ ∃ d : Derivation program, d.Derives text) ∧
    (∀ d d' : Derivation program, d.Derives text → d'.Derives text → d = d') ∧
    (∀ parsed, (c.parse text).1 = some parsed →
      (∀ d : Derivation program, d.Derives text → parsed.command.bare = d.tree) ∧
        (c.parse text).2.journal.diagnostics = c.journal.diagnostics) ∧
    ((c.parse text).1 = none → ∃ e, e.kind = .syntactic ∧
      (c.parse text).2.journal.diagnostics = c.journal.diagnostics.push e) := by
  unfold Compiler.parse
  rcases parse_cases text with ⟨parsed, d, hok, hd, htree⟩ | ⟨e, herror, hnone⟩
  · rw [hok]
    refine ⟨⟨fun _ => ⟨d, hd⟩, fun _ => rfl⟩, fun _ _ hd hd' => hd.unique hd', ?_, nofun⟩
    intro parsed' heq
    obtain rfl := Option.some.inj heq
    refine ⟨fun d' hd' => ?_, rfl⟩
    rw [hd'.unique hd]
    exact htree
  · rw [herror]
    refine ⟨⟨nofun, fun ⟨d, hd⟩ => absurd hd (hnone d)⟩, fun _ _ hd hd' => hd.unique hd', nofun, ?_⟩
    intro _
    exact ⟨e, Program.kind_of_parse herror, rfl⟩

/-- A text with look-alike openings: a loop whose first body is a loop, braces around a command
    and around a record, and a call next to a vname. -/
private def lookalikeText : String :=
  "loop while a do \x7bp(a[1].b)\x7d while f(x) - - 1 = 2 do begin r := \x7bc ~ (v)\x7d; n **; end"

/-- A text with an empty command where it is not allowed. -/
private def untilText : String := "repeat until true"

open Parsing in
/-- The first text has the tree of its derivation, and the second has no derivation. -/
theorem Compiler.parse_exact_sample :
    (∃ parsed, ∃ d : Derivation program, ((Compiler.new {}).parse lookalikeText).1 = some parsed ∧
      d.Derives lookalikeText ∧ parsed.command.bare = d.tree) ∧
    ¬ ∃ d : Derivation program, d.Derives untilText := by
  obtain ⟨hsome, -, htree, -⟩ := (Compiler.new {}).parse_exact lookalikeText
  obtain ⟨hsome', -, -, -⟩ := (Compiler.new {}).parse_exact untilText
  have hparsed : ((Compiler.new {}).parse lookalikeText).1.isSome = true := by decide +kernel
  have hfailed : ((Compiler.new {}).parse untilText).1.isSome = false := by decide +kernel
  refine ⟨?_, fun hderived => ?_⟩
  · obtain ⟨d, hd⟩ := hsome.1 hparsed
    obtain ⟨parsed, hok⟩ := Option.isSome_iff_exists.1 hparsed
    exact ⟨parsed, d, hok, hd, (htree parsed hok).1 d hd⟩
  · rw [hsome'.2 hderived] at hfailed
    cases hfailed

end TriangleTam
