import TriangleTam.Proofs.Scanning.Separators

/-! # Scanning is exact

  A text is **scanned** into pieces, each a stretch of separators and the
  longest lexeme behind it; the last piece has the separators at the end of
  the text and the end marker. There is one such sequence of pieces for every
  text, and its tokens are those that scanning finds, with the lines on which
  they start and finish.
-/

namespace TriangleTam.Scan

/-! ## Pieces of a text -/

/-- A token and the separators before it. -/
structure Piece where
  gap   : List Char
  token : Token

/-- What the piece takes of the text. -/
def Piece.written (piece : Piece) : List Char := piece.gap ++ piece.token.spelling.toList

/-- The line of the character that stands behind `before`. -/
def lineAfter (before : List Char) : Nat := 1 + Text.newlines before

/-- The end marker of a whole text. -/
def endMarker (text : List Char) : Token :=
  ⟨.endOfText, "", ⟨lineAfter text, lineAfter text⟩⟩

/-- A text that stands behind `before`, and the pieces that it is made of. -/
inductive Scanned : List Char → List Char → List Piece → Prop
  | ends {before gap : List Char} (stretch : Stretch gap []) :
      Scanned before gap [⟨gap, endMarker (before ++ gap)⟩]
  | token {before gap s rest : List Char} {kind : TokenKind} {others : List Piece}
      (stretch : Stretch gap (s ++ rest)) (longest : Longest kind s rest)
      (behind : Scanned (before ++ gap ++ s) rest others) :
      Scanned before (gap ++ (s ++ rest))
        (⟨gap, kind, String.ofList s,
          lineAfter (before ++ gap), lineAfter (before ++ gap ++ s.dropLast)⟩ :: others)

theorem lineAfter_append (before s : List Char) :
    lineAfter (before ++ s) = lineAfter before + Text.newlines s := by
  unfold lineAfter Text.newlines
  rw [List.count_append, Nat.add_assoc]

/-! ## One token -/

theorem Longest.start {kind : TokenKind} {s rest : List Char} (h : Longest kind s rest) :
    ∀ c cs, s ++ rest = c :: cs → c ∉ separatorStarts := by
  intro c cs heq
  obtain ⟨c', cs', heq', hstart, -⟩ := h.lexeme_eq
  rw [heq] at heq'
  cases heq'
  exact hstart

namespace Cursor

variable {before gap s rest : List Char} {kind : TokenKind}

theorem next_ends (stretch : Stretch gap []) :
    (⟨gap, lineAfter before⟩ : Cursor).next =
      (endMarker (before ++ gap), ⟨[], lineAfter (before ++ gap)⟩) := by
  have hskipped := stretch.skipped nofun
  rw [List.append_nil] at hskipped
  unfold next endMarker
  rw [hskipped, lineAfter_append]

theorem next_token (stretch : Stretch gap (s ++ rest)) (longest : Longest kind s rest) :
    (⟨gap ++ (s ++ rest), lineAfter before⟩ : Cursor).next =
      (⟨kind, String.ofList s,
          lineAfter (before ++ gap), lineAfter (before ++ gap ++ s.dropLast)⟩,
        ⟨rest, lineAfter (before ++ gap ++ s)⟩) := by
  obtain ⟨c, cs, heq, -, hlexeme⟩ := longest.lexeme_eq
  unfold next
  rw [stretch.skipped longest.start, heq]
  simp only [hlexeme, lineAfter_append]

/-- Behind the end of a text, every request is answered by the end marker. -/
theorem nextTokens_ends (line count : Nat) : (⟨[], line⟩ : Cursor).nextTokens count =
    List.replicate count ⟨.endOfText, "", line, line⟩ := by
  induction count with
  | zero => rfl
  | succ count ih => exact congrArg (_ :: ·) ih

end Cursor

theorem Cursor.tokens_last {cursor after : Cursor} {token : Token}
    (h : cursor.next = (token, after)) (hend : token.kind = .endOfText) :
    cursor.tokens = [token] := by
  obtain rfl : cursor.next.1 = token := congrArg Prod.fst h
  rw [Cursor.tokens, dif_pos hend]

theorem Cursor.tokens_cons {cursor after : Cursor} {token : Token}
    (h : cursor.next = (token, after)) (hkind : token.kind ≠ .endOfText) :
    cursor.tokens = token :: after.tokens := by
  obtain rfl : cursor.next.1 = token := congrArg Prod.fst h
  obtain rfl : cursor.next.2 = after := congrArg Prod.snd h
  rw [Cursor.tokens, dif_neg hkind]

/-! ## All tokens -/

/-- Every text is scanned. -/
theorem exists_scanned (before text : List Char) : ∃ pieces, Scanned before text pieces := by
  have hwhole := separators_append .outside text
  have hstretch := stretch_separators text
  have hlength := length_separators .outside text
  cases hrest : (separators .outside text).2 with
  | nil =>
    rw [hrest, List.append_nil] at hwhole
    rw [hrest, hwhole] at hstretch
    exact ⟨_, .ends hstretch⟩
  | cons c cs =>
    have hstart : c ∉ separatorStarts := separators_rest .outside text hrest
    have hshorter : (lexeme c cs).rest.length < text.length := by
      have htaken := length_lexeme c cs
      rw [hrest, List.length_cons] at hlength
      omega
    obtain ⟨others, hothers⟩ := exists_scanned
      (before ++ (separators .outside text).1 ++ (lexeme c cs).spelling) (lexeme c cs).rest
    rw [hrest, ← lexeme_append c cs] at hstretch hwhole
    rw [← hwhole]
    exact ⟨_, .token hstretch (longest_lexeme hstart cs) hothers⟩
termination_by text.length

namespace Scanned

variable {before text : List Char} {pieces pieces' : List Piece}

/-- The pieces of a text are determined. -/
theorem unique (h : Scanned before text pieces) (h' : Scanned before text pieces') :
    pieces = pieces' := by
  induction h generalizing pieces' with
  | @ends before gap stretch =>
    have hskipped := stretch.skipped nofun
    rw [List.append_nil] at hskipped
    cases h' with
    | ends _ => rfl
    | token stretch' longest' _ =>
      -- one has skipped the whole text, and the other found a lexeme in it
      rw [stretch'.skipped longest'.start] at hskipped
      have hnone := congrArg Prod.snd hskipped
      exact absurd (List.append_eq_nil_iff.1 hnone).1 longest'.nonempty
  | @token before gap s rest kind others stretch longest _ ih =>
    have hskipped := stretch.skipped longest.start
    generalize htext : gap ++ (s ++ rest) = text at h' hskipped
    cases h' with
    | ends stretch' =>
      rw [← List.append_nil text, stretch'.skipped nofun] at hskipped
      have hnone := congrArg Prod.snd hskipped
      exact absurd (List.append_eq_nil_iff.1 hnone.symm).1 longest.nonempty
    | token stretch' longest' behind' =>
      rw [stretch'.skipped longest'.start] at hskipped
      obtain ⟨hgap, hrest⟩ := Prod.mk.inj hskipped
      obtain ⟨rfl, rfl, rfl⟩ := longest'.unique longest hrest
      subst hgap
      rw [ih behind']

/-- The pieces make up the text. -/
theorem written (h : Scanned before text pieces) : text = pieces.flatMap Piece.written := by
  induction h with
  | ends stretch => simp [Piece.written, endMarker]
  | token stretch longest behind ih => simp [Piece.written, ← ih]

/-- The tokens of the pieces are those that scanning finds. -/
theorem tokens (h : Scanned before text pieces) :
    (⟨text, lineAfter before⟩ : Cursor).tokens = pieces.map Piece.token := by
  induction h with
  | ends stretch => exact Cursor.tokens_last (Cursor.next_ends stretch) rfl
  | token stretch longest behind ih =>
    rw [Cursor.tokens_cons (Cursor.next_token stretch longest) longest.lexeme.kind_ne, ih]
    rfl

/-- The last piece has the end marker, and only that. -/
theorem ending (h : Scanned before text pieces) : ∃ proper gap,
    pieces = proper ++ [⟨gap, endMarker (before ++ text)⟩] ∧
      ∀ piece ∈ proper, piece.token.kind ≠ .endOfText ∧ piece.token.spelling ≠ "" := by
  induction h with
  | ends stretch => exact ⟨[], _, rfl, nofun⟩
  | @token before gap s rest kind others stretch longest behind ih =>
    obtain ⟨proper, last, heq, hproper⟩ := ih
    rw [List.append_assoc, List.append_assoc] at heq
    refine ⟨_ :: proper, last, congrArg (_ :: ·) heq, fun piece hmem => ?_⟩
    cases hmem with
    | head =>
      exact ⟨longest.lexeme.kind_ne, fun hnone =>
        longest.nonempty (String.ofList_eq_empty_iff.1 hnone)⟩
    | tail _ hmem => exact hproper piece hmem

/-- Every token but the end marker is a lexeme of its class. -/
theorem lexeme (h : Scanned before text pieces) : ∀ piece ∈ pieces,
    piece.token.kind ≠ .endOfText →
      IsLexeme piece.token.kind piece.token.spelling.toList := by
  induction h with
  | ends stretch =>
    intro piece hmem hkind
    obtain rfl := List.mem_singleton.1 hmem
    exact absurd rfl hkind
  | token stretch longest behind ih =>
    intro piece hmem hkind
    cases hmem with
    | head => exact String.toList_ofList.symm ▸ longest.lexeme
    | tail _ hmem => exact ih piece hmem hkind

/-- However many tokens are asked for, they are those of the pieces, and the end marker for
    every request behind them. -/
theorem nextTokens (h : Scanned before text pieces) (count : Nat) :
    (⟨text, lineAfter before⟩ : Cursor).nextTokens count =
      (pieces.map Piece.token ++
        List.replicate count (endMarker (before ++ text))).take count := by
  induction h generalizing count with
  | @ends before gap stretch =>
    cases count with
    | zero => rfl
    | succ count =>
      have hnext : (⟨gap, lineAfter before⟩ : Cursor).next = _ := Cursor.next_ends stretch
      unfold Cursor.nextTokens
      rw [hnext]
      dsimp only
      rw [Cursor.nextTokens_ends]
      simp [endMarker]
  | @token before gap s rest kind others stretch longest behind ih =>
    cases count with
    | zero => rfl
    | succ count =>
      have hnext : (⟨gap ++ (s ++ rest), lineAfter before⟩ : Cursor).next = _ :=
        Cursor.next_token stretch longest
      unfold Cursor.nextTokens
      rw [hnext]
      dsimp only
      rw [ih count]
      -- one end marker more is not reached
      have hless (n : Nat) : count - n = min (count - n) (count + 1) := by omega
      simp [List.take_append, List.take_replicate, ← hless]

end Scanned

theorem isLexeme_of_tokenize {text : String} {token : Token} (h : token ∈ tokenize text)
    (hkind : token.kind ≠ .endOfText) : IsLexeme token.kind token.spelling.toList := by
  obtain ⟨pieces, hscanned⟩ := exists_scanned [] text.toList
  have htokens : tokenize text = pieces.map Piece.token := hscanned.tokens
  rw [htokens] at h
  obtain ⟨piece, hmem, rfl⟩ := List.mem_map.1 h
  exact hscanned.lexeme piece hmem hkind

end Scan

/-- A text is made of pieces in one way: stretches of separators and behind each of them the
    longest lexeme, up to the end marker. Scanning finds their tokens, with the lines that they
    start and finish on; only the last is the end marker, and only that has no spelling. The
    end marker is the answer to every further request. -/
theorem tokenize_exact (text : String) :
    ∃ pieces : List Scan.Piece, Scan.Scanned [] text.toList pieces ∧
      (∀ pieces', Scan.Scanned [] text.toList pieces' → pieces' = pieces) ∧
      text.toList = pieces.flatMap Scan.Piece.written ∧
      tokenize text = pieces.map Scan.Piece.token ∧
      (∃ proper, tokenize text = proper ++ [Scan.endMarker text.toList] ∧
        ∀ token ∈ proper, token.kind ≠ .endOfText ∧ token.spelling ≠ "") ∧
      ∀ count, (Scan.Cursor.ofText text).nextTokens count =
        (tokenize text ++ List.replicate count (Scan.endMarker text.toList)).take count := by
  obtain ⟨pieces, hscanned⟩ := Scan.exists_scanned [] text.toList
  have htokens : tokenize text = pieces.map Scan.Piece.token := hscanned.tokens
  refine ⟨pieces, hscanned, fun pieces' h' => h'.unique hscanned, hscanned.written, htokens,
    ?_, fun count => ?_⟩
  · obtain ⟨proper, gap, heq, hproper⟩ := hscanned.ending
    refine ⟨proper.map Scan.Piece.token, ?_, fun token hmem => ?_⟩
    · rw [htokens, heq, List.map_append]
      rfl
    · obtain ⟨piece, hpiece, rfl⟩ := List.mem_map.1 hmem
      exact hproper piece hpiece
  · rw [htokens]
    exact hscanned.nextTokens count

/-- A comment that is not closed, a newline between quotes and three stars. -/
example : tokenize "a***!b\n'\n' $" =
    [⟨.identifier, "a", 1, 1⟩, ⟨.doubleOperator, "**", 1, 1⟩, ⟨.operator, "*", 1, 1⟩,
      ⟨.charLiteral, "'\n'", 2, 3⟩, ⟨.endOfText, "", 3, 3⟩] := by
  decide +kernel

end TriangleTam
