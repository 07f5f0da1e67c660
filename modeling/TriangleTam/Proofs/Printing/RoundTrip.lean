import Mathlib.Data.List.Forall2
import TriangleTam.Proofs.Printing.Derived
import TriangleTam.Proofs.Scanning.Layout

/-! # Printed trees are read again

  Scanning a printed tree finds the printed tokens, at places of the text.
  Derivations do not look at places, so the tokens found spell the tree too,
  and parsing gives it back.
-/

namespace TriangleTam

/-- The tokens are the same, but for their places. -/
structure Token.Same (token token' : Token) : Prop where
  kind     : token.kind = token'.kind
  spelling : token.spelling = token'.spelling

namespace Token.Same

variable {token token' : Token}

theorem refl (token : Token) : Token.Same token token := ⟨rfl, rfl⟩

theorem symm (h : Token.Same token token') : Token.Same token' token :=
  ⟨h.kind.symm, h.spelling.symm⟩

instance (token token' : Token) : Decidable (Token.Same token token') :=
  decidable_of_iff (token.kind = token'.kind ∧ token.spelling = token'.spelling)
    ⟨fun h => ⟨h.1, h.2⟩, fun h => ⟨h.kind, h.spelling⟩⟩

end Token.Same

theorem Token.same_of_content {tokens tokens' : List Token}
    (h : tokens.map Token.content = tokens'.map Token.content) :
    List.Forall₂ Token.Same tokens tokens' := by
  rw [← List.forall₂_eq_eq_eq, List.forall₂_map_left_iff, List.forall₂_map_right_iff] at h
  exact h.imp fun _ _ heq => ⟨congrArg Prod.fst heq, congrArg Prod.snd heq⟩

/-! ## Scanning printed tokens -/

namespace Scan

open Parsing (Proper)

/-- Tokens with separators before the first one and blanks between them are laid out. -/
theorem laidOut_spaced (tokens : List Token)
    (hproper : ∀ token ∈ tokens, Proper token token.kind) {gap : List Char}
    (hgap : ∀ after, Stretch gap after) :
    LaidOut tokens (gap ++ [' '].intercalate (tokens.map (·.spelling.toList))) := by
  induction tokens generalizing gap with
  | nil =>
    show LaidOut [] (gap ++ [])
    rw [List.append_nil]
    exact .ends (hgap [])
  | cons token others ih =>
    obtain ⟨htoken, hothers⟩ := List.forall_mem_cons.1 hproper
    -- what comes behind the token: its separators, and the other tokens
    obtain ⟨rest, hrest, htext, hbehind⟩ :
        ∃ rest : List Char, (∀ c cs, rest = c :: cs → c ∈ separatorStarts) ∧
          [' '].intercalate ((token :: others).map (·.spelling.toList)) =
            token.spelling.toList ++ rest ∧ LaidOut others rest := by
      cases others with
      | nil => exact ⟨[], nofun, by simp, ih hothers fun _ => .nil⟩
      | cons second others =>
        have hblank (after : List Char) : Stretch [' '] after :=
          Separator.stretch (.blank (by decide))
        refine ⟨_, fun c cs heq => ?_, by simp, ih hothers hblank⟩
        cases heq
        decide
    rw [htext]
    exact .token (hgap _) htoken.lexical.1 htoken.genuine hrest hbehind

end Scan

/-- Scanning finds the printed tokens and the end marker. -/
theorem tokenize_spaced {tokens : List Token}
    (hproper : ∀ token ∈ tokens, Parsing.Proper token token.kind) :
    ∃ found ending, tokenize (Token.spaced tokens) = found ++ [ending] ∧
      ending.kind = .endOfText ∧ List.Forall₂ Token.Same found tokens := by
  have htext : (Token.spaced tokens).toList =
      [' '].intercalate (tokens.map (·.spelling.toList)) := by
    rw [Token.spaced, String.toList_intercalate, List.map_map]
    rfl
  have hlaid : Scan.LaidOut tokens (Token.spaced tokens).toList :=
    htext ▸ Scan.laidOut_spaced tokens hproper fun _ => .nil
  obtain ⟨pieces, found, hscanned, hpieces, hfound⟩ := hlaid.scanned []
  exact ⟨found, _, hscanned.tokens.trans hpieces, rfl, Token.same_of_content hfound⟩

namespace Parsing

/-! ## Derivations of tokens at other places -/

/-- The values without the places of tokens. -/
def unplaced : (pieces : List Piece) → Values pieces → Values pieces
  | [], values => values
  | .token _ :: pieces, values =>
    (⟨values.1.kind, values.1.spelling, .nowhere⟩, unplaced pieces values.2)
  | .phrase _ :: pieces, values => (values.1, unplaced pieces values.2)

/-- No production looks at the places of its tokens. -/
theorem Rule.build_unplaced {N : Nonterminal} (rule : Rule N) (values : Values rule.body) :
    rule.build (unplaced rule.body values) = rule.build values := by
  cases rule <;> rfl

theorem lookahead_same {tokens tokens' : List Token}
    (h : List.Forall₂ Token.Same tokens tokens') {after after' : List Token}
    (hafter : lookahead after = lookahead after') :
    lookahead (tokens ++ after) = lookahead (tokens' ++ after') := by
  cases h with
  | nil => exact hafter
  | cons hfirst _ => exact hfirst.kind

/-- Tokens are derived wherever they are. -/
theorem Derivation.moved {pieces : List Piece} (d : Derivation pieces) {tokens : List Token}
    (h : List.Forall₂ Token.Same tokens d.tokens) : ∃ d' : Derivation pieces,
      d'.tokens = tokens ∧ unplaced pieces d'.values = unplaced pieces d.values ∧
      ∀ after after', lookahead after = lookahead after' → d.Allowed after →
        d'.Allowed after' := by
  induction d generalizing tokens with
  | done =>
    cases h
    exact ⟨.done, rfl, rfl, fun _ _ _ _ => trivial⟩
  | @token kind pieces t stands rest ih =>
    cases h with
    | @cons t' _ others _ hsame hothers =>
      obtain ⟨rest', rfl, hvalues, hallowed⟩ := ih hothers
      have stands' : t'.Stands kind := by
        rw [Token.Stands, hsame.kind, hsame.spelling]
        exact stands
      refine ⟨.token t' stands' rest', rfl, ?_, hallowed⟩
      simp only [Derivation.values, unplaced, hsame.kind, hsame.spelling, hvalues]
      rfl
  | @phrase N pieces rule inner rest ihinner ihrest =>
    -- the tokens of the phrase come first, and the others are those of the rest
    rw [← List.take_append_drop inner.tokens.length tokens]
    have hinner := List.forall₂_take_append _ _ _ h
    have hrest := List.forall₂_drop_append _ _ _ h
    obtain ⟨inner', hinnertokens, hinnervalues, hinnerallowed⟩ := ihinner hinner
    obtain ⟨rest', hresttokens, hrestvalues, hrestallowed⟩ := ihrest hrest
    rw [← hinnertokens] at hinner ⊢
    rw [← hresttokens] at hrest ⊢
    refine ⟨.phrase rule inner' rest', rfl, ?_, ?_⟩
    · -- what is built does not depend on positions that are taken out again
      have hvalue : rule.build inner'.values = rule.build inner.values := by
        rw [← rule.build_unplaced, hinnervalues, rule.build_unplaced]
      simp only [Derivation.values, unplaced, hvalue, hrestvalues]
      rfl
    · intro after after' hafter hallowed
      have hnext := lookahead_same hrest hafter.symm
      refine ⟨?_, hinnerallowed _ _ hnext.symm hallowed.2.1, hrestallowed _ _ hafter hallowed.2.2⟩
      rw [lookahead_same hinner hnext]
      exact hallowed.1

/-- A command that may stand before the end of a text is the program of every text that has its
    tokens. -/
theorem Derivation.exists_derives (d : Derivation [.phrase .command]) {text : String}
    {found : List Token} {ending : Token} (htokenize : tokenize text = found ++ [ending])
    (hending : ending.kind = .endOfText) (hsame : List.Forall₂ Token.Same found d.tokens)
    (hallowed : ∀ after, lookahead after = .endOfText → d.Allowed after) :
    ∃ d' : Derivation Parsing.program, d'.Derives text ∧ d'.tree = d.values.1 := by
  obtain ⟨d', hfound, hvalues, hallowed'⟩ := d.moved hsame
  have hbefore := hallowed' [ending] [ending] rfl (hallowed [ending] hending)
  cases d' with
  | phrase rule inner rest =>
    cases rest
    have hstands : ending.Stands .endOfText := ⟨hending, nofun⟩
    refine ⟨.phrase rule inner (.token ending hstands .done), ⟨?_, ?_⟩, ?_⟩
    · have hinner : inner.tokens = found := (List.append_nil _).symm.trans hfound
      rw [htokenize, ← hinner]
      rfl
    · exact ⟨hbefore.1, hbefore.2.1, trivial⟩
    · exact congrArg Prod.fst hvalues

/-- A printed program is derived, and the derivation builds its tree. -/
theorem exists_derives (program : Program) (h : program.command.Producible) :
    ∃ d : Derivation Parsing.program, d.Derives program.print ∧
      d.tree = program.command.bare := by
  obtain ⟨hproper, d, htokens, hvalues, hallowed⟩ := says_command program.command h
  rw [← htokens] at hproper
  have hbefore (after : List Token) (hends : lookahead after = .endOfText) :
      d.Allowed after := by
    -- the end of the text is one of the tokens that may come behind the command
    refine hallowed after ?_
    rw [hends]
    decide
  obtain ⟨found, ending, htokenize, hending, hsame⟩ := tokenize_spaced hproper
  rw [htokens] at htokenize
  obtain ⟨d', hderives, htree⟩ := d.exists_derives htokenize hending hsame hbefore
  exact ⟨d', hderives, htree.trans (congrArg Prod.fst hvalues)⟩

end Parsing

/-- Printing a program whose tree has the shape and the leaves of a text, and parsing what was
    printed, reports nothing and gives the same tree, positions aside. The trees that parsing
    gives are all such trees. -/
theorem Compiler.parse_print (c : Compiler) (program : Program) :
    (program.command.Producible → ∃ parsed, (c.parse program.print).1 = some parsed ∧
      parsed.command.bare = program.command.bare ∧
      (c.parse program.print).2.diagnostics = c.diagnostics) ∧
    ∀ text, (c.parse text).1 = some program → program.command.bare.Producible := by
  refine ⟨fun h => ?_, fun text hparsed => ?_⟩
  · obtain ⟨d, hderives, htree⟩ := Parsing.exists_derives program h
    -- there is one derivation of the text at most, so parsing found the printed one
    obtain ⟨parsed, hok, htree'⟩ := hderives.parse
    unfold parse
    rw [hok]
    exact ⟨parsed, rfl, htree'.trans htree, rfl⟩
  · unfold parse at hparsed
    dsimp only at hparsed
    cases hok : Program.parse text with
    | error e =>
      rw [hok] at hparsed
      cases hparsed
    | ok parsed =>
      rw [hok] at hparsed
      cases hparsed
      exact Program.producible_of_parse hok

/-- The chain `; (; p(- if a then 1 else 2))`, that leans to the right, with an empty command and a
    conditional operand. -/
private def rightLeaning : Command :=
  let name (spelling : String) : Name := ⟨spelling, .nowhere, none⟩
  let number (spelling : String) : Expression := .integer .nowhere none ⟨spelling, .nowhere⟩
  let a : Expression := .vname .nowhere none (.simple .nowhere none false (name "a"))
  .sequence .nowhere (.empty .nowhere) (.sequence .nowhere (.empty .nowhere)
    (.call .nowhere (name "p") (.one .nowhere (.const .nowhere (.unary .nowhere none (name "-")
      (.ifElse .nowhere none a (number "1") (number "2")))))))

/-- The chain is read again as it was, and leans to the right. -/
theorem Compiler.parse_print_sample : ∃ parsed,
    ((Compiler.new {}).parse (Program.print ⟨rightLeaning, .nowhere, 0⟩)).1 = some parsed ∧
      parsed.command.bare = rightLeaning := by
  have hword {c : Char} (halpha : c.isAlpha = true)
      (hfree : ∀ kind ∈ TokenKind.reserved, kind.written.toList ≠ [c]) :
      Scan.IsLexeme .identifier [c] :=
    .identifier ⟨c, [], rfl, halpha, nofun⟩ hfree
  have hminus : Scan.IsLexeme .operator "-".toList :=
    .operator (List.all_iff_forall_prop.1 rfl) (by decide)
  have hone : Scan.IsLexeme .intLiteral "1".toList :=
    .intLiteral (List.all_iff_forall_prop.1 rfl)
  have htwo : Scan.IsLexeme .intLiteral "2".toList :=
    .intLiteral (List.all_iff_forall_prop.1 rfl)
  have hproducible : rightLeaning.Producible :=
    ⟨trivial, trivial, ⟨hword rfl (by decide), rfl⟩, rfl, ⟨hminus, rfl⟩, rfl,
      ⟨rfl, rfl, rfl, hword rfl (by decide), rfl⟩, ⟨rfl, hone, by decide⟩, ⟨rfl, htwo, by decide⟩⟩
  obtain ⟨parsed, hparsed, hbare, -⟩ :=
    ((Compiler.new {}).parse_print ⟨rightLeaning, .nowhere, 0⟩).1 hproducible
  exact ⟨parsed, hparsed, hbare⟩

end TriangleTam
