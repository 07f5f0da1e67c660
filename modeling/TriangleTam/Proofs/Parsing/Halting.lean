import TriangleTam.Proofs.Parsing.Derivations

/-! # Where reading halts

  Tokens that are no phrase are one up to some place: there the next token
  tells no production, or is not the one that has to stand there. Reading
  **halts** at that token. Since productions are told by the next token alone,
  what comes behind the halt does not matter: no derivation starts with the
  tokens up to it and the one at which reading halts.
-/

namespace TriangleTam.Parsing

/-! ## The next token -/

/-- What comes first does not depend on what comes behind it. -/
theorem lookahead_congr (tokens : List Token) {after after' : List Token}
    (h : lookahead after = lookahead after') :
    lookahead (tokens ++ after) = lookahead (tokens ++ after') := by
  cases tokens with
  | nil => exact h
  | cons token others => rfl

namespace Derivation

variable {pieces : List Piece} {after after' : List Token}

/-- Of what comes behind a derivation, only the first token counts. -/
theorem Allowed.congr {d : Derivation pieces} (h : d.Allowed after)
    (hafter : lookahead after = lookahead after') : d.Allowed after' := by
  induction d generalizing after after' with
  | done => trivial
  | token t stands rest ih => exact ih h hafter
  | phrase rule inner rest ihinner ihrest =>
    obtain ⟨hallows, hinner, hrest⟩ := h
    have hnext := lookahead_congr rest.tokens hafter
    refine ⟨?_, ihinner hinner hnext, ihrest hrest hafter⟩
    rw [← lookahead_congr inner.tokens hnext]
    exact hallows

theorem Predicted.congr {d : Derivation pieces} (h : d.Predicted after)
    (hafter : lookahead after = lookahead after') : d.Predicted after' := by
  induction d generalizing after after' with
  | done => trivial
  | token t stands rest ih => exact ih h hafter
  | phrase rule inner rest ihinner ihrest =>
    obtain ⟨hpredict, hinner, hrest⟩ := h
    have hnext := lookahead_congr rest.tokens hafter
    refine ⟨?_, ihinner hinner hnext, ihrest hrest hafter⟩
    rw [← lookahead_congr inner.tokens hnext]
    exact hpredict

end Derivation

/-! ## Halts -/

/-- Reading the pieces takes some tokens and halts at the one behind them. -/
inductive Halts : List Piece → List Token → Token → Prop
  /-- Another token has to stand here. -/
  | token {kind : TokenKind} {pieces : List Piece} {token : Token} (wrong : ¬ token.Stands kind) :
      Halts (.token kind :: pieces) [] token
  /-- The token tells no production. -/
  | untold {N : Nonterminal} {pieces : List Piece} {token : Token}
      (untold : predict N token.kind = none) : Halts (.phrase N :: pieces) [] token
  /-- The halt is inside of a phrase. -/
  | inside {N : Nonterminal} {pieces : List Piece} {taken : List Token} {token : Token}
      (rule : Rule N) (told : predict N (lookahead (taken ++ [token])) = some rule)
      (inner : Halts rule.body taken token) : Halts (.phrase N :: pieces) taken token
  /-- The first piece was read, and the halt is behind it. -/
  | behind {piece : Piece} {pieces : List Piece} {taken : List Token} {token : Token}
      (d : Derivation [piece]) (predicted : d.Predicted (taken ++ [token]))
      (rest : Halts pieces taken token) : Halts (piece :: pieces) (d.tokens ++ taken) token

namespace Halts

variable {pieces : List Piece} {taken : List Token} {token : Token}

/-- More pieces behind those that were not read make no difference. -/
theorem widen {piece : Piece} (h : Halts [piece] taken token) (pieces : List Piece) :
    Halts (piece :: pieces) taken token := by
  cases h with
  | token wrong => exact .token wrong
  | untold untold => exact .untold untold
  | inside rule told inner => exact .inside rule told inner
  | behind d predicted rest => cases rest

/-- No tokens with those up to the halt, and the one at the halt, at their start are derived. -/
theorem not_predicted (h : Halts pieces taken token) (d : Derivation pieces)
    {after after' : List Token} (htokens : d.tokens ++ after' = taken ++ token :: after) :
    ¬ d.Predicted after' := by
  intro hpredicted
  induction h generalizing after after' with
  | token wrong =>
    cases d with
    | token t stands rest =>
      obtain ⟨rfl, -⟩ := List.cons.inj htokens
      exact wrong stands
  | untold untold =>
    cases d with
    | phrase rule inner rest =>
      obtain ⟨hpredict, -, -⟩ := hpredicted
      rw [Derivation.tokens, List.append_assoc] at htokens
      rw [htokens] at hpredict
      exact Option.some_ne_none rule (hpredict.symm.trans untold)
  | @inside N _ taken token rule told inner ih =>
    cases d with
    | phrase rule' inner' rest =>
      obtain ⟨hpredict, hinner, -⟩ := hpredicted
      rw [Derivation.tokens, List.append_assoc] at htokens
      -- both productions are told by the same token
      have hsame : predict N (lookahead (taken ++ [token])) = some rule' := by
        rw [← hpredict, htokens]
        exact congrArg (predict N) (lookahead_congr taken rfl)
      obtain rfl := Option.some.inj (told.symm.trans hsame)
      exact ih inner' htokens hinner
  | @behind _ _ taken token d' predicted rest ih =>
    obtain ⟨head, others, rfl⟩ := d.exists_cons
    obtain ⟨hhead, hothers⟩ := (Derivation.predicted_cons _ _ _).1 hpredicted
    rw [Derivation.tokens_cons, List.append_assoc, List.append_assoc] at htokens
    -- there is one derivation of the first piece, so the halt is in the others
    have hread : d'.Predicted (taken ++ token :: after) :=
      predicted.congr (lookahead_congr taken rfl)
    obtain ⟨-, hbehind⟩ := hhead.unique hread htokens
    exact ih others hbehind hothers

end Halts

end TriangleTam.Parsing
