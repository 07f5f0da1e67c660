import TriangleTam.Proofs.Parsing.Completion
import TriangleTam.Proofs.Printing.RoundTrip

/-! # The earliest error of syntax

  Some tokens are **viable** if a text that parses starts with them. A text
  that does not parse has a first token that is not viable any more, behind
  those before it. The one diagnostic of syntax is about that token.

  Up to there the tokens are taken, and what was taken can be completed. The
  one at the halt cannot, whatever comes behind it.
-/

namespace TriangleTam

/-- A text that parses starts with these tokens, wherever they are. -/
def Token.Viable (tokens : List Token) : Prop :=
  ∃ text parsed found others, Program.parse text = .ok parsed ∧
    tokenize text = found ++ others ∧ List.Forall₂ Token.Same found tokens

/-- Fewer tokens are viable too. -/
theorem Token.Viable.take {tokens : List Token} (h : Token.Viable tokens) (k : Nat) :
    Token.Viable (tokens.take k) := by
  obtain ⟨text, parsed, found, others, hok, htokens, hsame⟩ := h
  refine ⟨text, parsed, found.take k, found.drop k ++ others, hok, ?_,
    List.forall₂_take k hsame⟩
  rw [← List.append_assoc, List.take_append_drop]
  exact htokens

namespace Parsing

/-! ## What was taken is viable -/

/-- The tokens that are derived from pieces with lexemes are proper. -/
theorem Derivation.proper {pieces : List Piece} (d : Derivation pieces)
    (hgenuine : ∀ piece ∈ pieces, piece.genuine = true)
    (hlexemes : ∀ token ∈ d.tokens, token.kind ≠ .endOfText →
      Scan.IsLexeme token.kind token.spelling.toList) :
    ∀ token ∈ d.tokens, Proper token token.kind := by
  induction d with
  | done => nofun
  | @token kind pieces t stands rest ih =>
    obtain ⟨hpiece, hpieces⟩ := List.forall_mem_cons.1 hgenuine
    obtain ⟨hlexeme, hothers⟩ := List.forall_mem_cons.1 hlexemes
    have hkind : kind ∉ [TokenKind.endOfText, .error] := of_decide_eq_true hpiece
    obtain rfl : t.kind = kind := stands.1
    have hend : t.kind ≠ .endOfText := fun heq => hkind (heq ▸ List.mem_cons_self)
    have hfault : t.kind ≠ .error := fun heq => hkind (by simp [heq])
    exact List.forall_mem_cons.2 ⟨⟨⟨hlexeme hend, stands⟩, hfault⟩, ih hpieces hothers⟩
  | @phrase N pieces rule inner rest ihinner ihrest =>
    obtain ⟨hinner, hrest⟩ := List.forall_mem_append.1 hlexemes
    exact List.forall_mem_append.2
      ⟨ihinner rule.genuine_body hinner, ihrest (List.forall_mem_cons.1 hgenuine).2 hrest⟩

/-- Where reading a program halts, what was taken starts a command. -/
theorem Halts.completable_command {taken : List Token} {token : Token}
    (h : Halts program taken token) : Completable [.phrase .command] taken := by
  have hgenuine : ∀ piece ∈ [Piece.phrase .command], piece.genuine = true := by decide
  cases h with
  | untold untold => exact (Halts.untold untold).completable hgenuine
  | inside rule told inner => exact (Halts.inside rule told inner).completable hgenuine
  | behind d predicted rest =>
    -- the command is whole, and something else than the end of the text is behind it
    cases rest with
    | token wrong =>
      rw [List.append_nil]
      exact d.completable predicted.allowed
    | behind _ _ rest => cases rest

/-- What starts a command is viable. -/
theorem Completable.viable {taken : List Token} (h : Completable [.phrase .command] taken)
    (hlexemes : ∀ token ∈ taken, token.kind ≠ .endOfText →
      Scan.IsLexeme token.kind token.spelling.toList) : Token.Viable taken := by
  obtain ⟨d, more, hmore, hproper, hallowed⟩ := h
  have hlexemes' : ∀ token ∈ d.tokens, token.kind ≠ .endOfText →
      Scan.IsLexeme token.kind token.spelling.toList := by
    rw [hmore]
    exact List.forall_mem_append.2 ⟨hlexemes, fun t hmem _ => (hproper t hmem).lexical.1⟩
  have hwhole := d.proper (by decide) hlexemes'
  -- the completed command is the program of the text that has its tokens
  obtain ⟨found, ending, htokenize, hending, hsame⟩ := tokenize_spaced hwhole
  obtain ⟨d', hderives, -⟩ := d.exists_derives htokenize hending hsame fun after _ => hallowed after
  obtain ⟨parsed, hok, -⟩ := hderives.parse
  rw [hmore] at hsame
  refine ⟨_, parsed, found.take taken.length, found.drop taken.length ++ [ending], hok, ?_,
    List.forall₂_take_append _ _ _ hsame⟩
  rw [htokenize, ← List.append_assoc, List.take_append_drop]

/-! ## The token at the halt is not -/

theorem Halts.not_viable {taken : List Token} {token : Token} (h : Halts program taken token) :
    ¬ Token.Viable (taken ++ [token]) := by
  intro hviable
  obtain ⟨text, parsed, found, others, hok, htokens, hsame⟩ := hviable
  rcases parse_cases text with ⟨-, d, -, hderives, -⟩ | ⟨e, herror, -⟩
  · -- the derivation of the text, of the tokens at their places in the other one
    have hmoved : List.Forall₂ Token.Same (taken ++ [token] ++ others) d.tokens := by
      rw [hderives.tokens, htokens]
      exact List.rel_append (hsame.flip.imp fun _ _ => Token.Same.symm)
        (List.forall₂_same.2 fun t _ => .refl t)
    obtain ⟨d', htokens', -, hallowed⟩ := d.moved hmoved
    have hfollows : Follows program [.endOfText] := by decide
    have hpredicted : d'.Predicted [] :=
      (hallowed [] [] rfl hderives.allowed).predicted hfollows (List.mem_singleton.2 rfl)
    have hsplit : d'.tokens ++ [] = taken ++ token :: others := by
      rw [htokens', List.append_nil, List.append_assoc]
      rfl
    exact h.not_predicted d' hsplit hpredicted
  · rw [hok] at herror
    cases herror

end Parsing

/-! ## The diagnostic -/

/-- Where a text does not parse, one diagnostic of syntax is reported, and it is about the first
    token up to which no text that parses has these tokens: what stands before it is the start
    of such a text, and with it is not. -/
theorem Compiler.parse_earliest (c : Compiler) (text : String) (h : (c.parse text).1 = none) :
    ∃ before token after e, tokenize text = before ++ token :: after ∧
      (c.parse text).2.diagnostics = c.diagnostics.push e ∧
      e.kind = .syntactic ∧ e.span = token.span ∧
      ∀ k, Token.Viable ((tokenize text).take k) ↔ k ≤ before.length := by
  obtain ⟨parsed, -, hok, -⟩ | ⟨e, before, token, after, herror, htokens, hhalts, hspan⟩ :=
    Parsing.parse_outcome text
  · unfold parse at h
    rw [hok] at h
    cases h
  · refine ⟨before, token, after, e, htokens, ?_, Program.kind_of_parse herror, hspan, fun k => ?_⟩
    · unfold parse
      rw [herror]
      rfl
    constructor
    · intro hviable
      by_contra hbeyond
      -- with more tokens, those up to the halt would be viable
      have hcut : ((tokenize text).take k).take (before.length + 1) = before ++ [token] := by
        rw [List.take_take, Nat.min_eq_left (Nat.lt_of_not_le hbeyond), htokens, List.append_cons]
        exact List.take_left' List.length_append
      exact hhalts.not_viable (hcut ▸ hviable.take (before.length + 1))
    · intro hwithin
      have hlexemes : ∀ t ∈ before, t.kind ≠ .endOfText →
          Scan.IsLexeme t.kind t.spelling.toList := by
        intro t hmem
        have hin : t ∈ tokenize text := by
          rw [htokens]
          exact List.mem_append_left _ hmem
        exact Scan.isLexeme_of_tokenize hin
      have hcut : (tokenize text).take k = before.take k := by
        rw [htokens, List.take_append_of_le_length hwithin]
      rw [hcut]
      exact (hhalts.completable_command.viable hlexemes).take k

/-- A text whose second line has a literal that is too large. -/
private def overlargeText : String := "halt(\n2147483648\n)"

/-- The diagnostic is about the literal, which comes behind two tokens. -/
theorem Compiler.parse_earliest_sample : ((Compiler.new {}).parse overlargeText).1 = none ∧
    ∃ e, ((Compiler.new {}).parse overlargeText).2.diagnostics = #[e] ∧
      e.kind = .syntactic ∧ e.span = ⟨2, 2⟩ ∧
      ∀ k, Token.Viable ((tokenize overlargeText).take k) ↔ k ≤ 2 := by
  have hfails : ((Compiler.new {}).parse overlargeText).1 = none := by decide +kernel
  have hplace : ((Compiler.new {}).parse overlargeText).2.diagnostics.toList.map (·.span) =
      [⟨2, 2⟩] := by decide +kernel
  have hspans : (tokenize overlargeText).map (·.span) =
      [⟨1, 1⟩, ⟨1, 1⟩, ⟨2, 2⟩, ⟨3, 3⟩, ⟨3, 3⟩] := by decide +kernel
  obtain ⟨before, token, after, e, htokens, hreports, hkind, hspan, hviable⟩ :=
    (Compiler.new {}).parse_earliest _ hfails
  have hnone : (Compiler.new {}).diagnostics = #[] := rfl
  rw [hnone] at hreports
  have hline : e.span = ⟨2, 2⟩ := by
    rw [hreports] at hplace
    exact List.head_eq_of_cons_eq hplace
  have hlength : before.length = 2 := by
    have hthere : ((tokenize overlargeText).map (·.span))[before.length]? = some ⟨2, 2⟩ := by
      rw [htokens, ← hline, hspan]
      simp
    rw [hspans] at hthere
    match hbefore : before.length with
    | 2 => rfl
    | 0 | 1 | 3 | 4 | _ + 5 => simp [hbefore] at hthere
  refine ⟨hfails, e, hreports, hkind, hline, fun k => ?_⟩
  rw [hviable, hlength]

end TriangleTam
