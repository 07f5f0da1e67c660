import TriangleTam.Proofs.Scanning.Exact

/-! # Scanning does not depend on the layout

  A text is **laid out** from tokens if separators stand around every one of
  them. Scanning such a text finds these tokens, whatever the separators are:
  no separator goes on with a lexeme that is no fault, and none is opened
  inside of one.

  In the text that the tokens come from they may touch each other, and a
  literal may hold a blank, a newline or a character that opens comments.
  Once all of them are taken apart, none of that is seen any more.
-/

namespace TriangleTam

/-- What a token is, wherever it stands. -/
def Token.content (token : Token) : TokenKind × String := (token.kind, token.spelling)

/-- The tokens one after the other, each with its gap behind it. -/
def Token.respaced (tokens : List Token) (gaps : List String) : String :=
  String.join (List.zipWith (fun token gap => token.spelling ++ gap) tokens gaps)

namespace Scan

/-! ## Layouts -/

/-- A text of tokens that are no faults, with separators or the end behind each of them. -/
inductive LaidOut : List Token → List Char → Prop
  | ends {gap : List Char} (stretch : Stretch gap []) : LaidOut [] gap
  | token {token : Token} {others : List Token} {gap rest : List Char}
      (stretch : Stretch gap (token.spelling.toList ++ rest))
      (lexical : IsLexeme token.kind token.spelling.toList) (genuine : token.kind ≠ .error)
      (apart : ∀ c cs, rest = c :: cs → c ∈ separatorStarts) (behind : LaidOut others rest) :
      LaidOut (token :: others) (gap ++ (token.spelling.toList ++ rest))

/-- Scanning finds the tokens that a text was laid out from. -/
theorem LaidOut.scanned {tokens : List Token} {text : List Char} (h : LaidOut tokens text)
    (before : List Char) : ∃ pieces found, Scanned before text pieces ∧
      pieces.map Piece.token = found ++ [endMarker (before ++ text)] ∧
      found.map Token.content = tokens.map Token.content := by
  induction h generalizing before with
  | ends stretch => exact ⟨_, [], .ends stretch, rfl, rfl⟩
  | @token token others gap rest stretch lexical genuine apart behind ih =>
    obtain ⟨pieces, found, hscanned, hpieces, hfound⟩ :=
      ih (before ++ gap ++ token.spelling.toList)
    rw [List.append_assoc, List.append_assoc] at hpieces
    exact ⟨_, _ :: found, .token stretch (lexical.longest genuine apart) hscanned,
      congrArg (_ :: ·) hpieces,
      congrArg₂ List.cons (congrArg (token.kind, ·) String.ofList_toList) hfound⟩

/-! ## Gaps -/

theorem Separator.stretch {s after : List Char} (h : Separator s after) : Stretch s after :=
  s.append_nil ▸ .cons h .nil

/-- Two stretches in a row are one. -/
theorem Stretch.append {gap gap' after : List Char} (h : Stretch gap (gap' ++ after))
    (h' : Stretch gap' after) : Stretch (gap ++ gap') after := by
  generalize hbehind : gap' ++ after = behind at h
  induction h with
  | nil => exact h'
  | cons separator others ih =>
    subst hbehind
    rw [List.append_assoc]
    rw [← List.append_assoc] at separator
    exact .cons separator (ih rfl)

/-- What separates two tokens wherever it stands: blanks, and comments with their closing
    characters, in any order. -/
inductive Spacing : List Char → Prop
  | blank {c : Char} (blank : c ∈ [' ', '\n', '\r', '\t']) : Spacing [c]
  | lineComment {c : Char} {body : List Char} (opener : c = '!' ∨ c = '#')
      (closer : '\n' ∉ body) : Spacing (c :: body ++ ['\n'])
  | blockComment {body : List Char} (closer : '$' ∉ body) : Spacing ('$' :: body ++ ['$'])
  | append {gap gap' : List Char} (first : Spacing gap) (second : Spacing gap') :
      Spacing (gap ++ gap')

namespace Spacing

variable {gap : List Char}

theorem stretch (h : Spacing gap) (after : List Char) : Stretch gap after := by
  induction h generalizing after with
  | blank blank => exact Separator.stretch (.blank blank)
  | lineComment opener closer => exact Separator.stretch (.lineComment opener closer)
  | blockComment closer => exact Separator.stretch (.blockComment closer)
  | append _ _ ihfirst ihsecond => exact (ihfirst _).append (ihsecond after)

/-- A gap is not empty, and starts as separators do. -/
theorem head (h : Spacing gap) : ∃ c cs, gap = c :: cs ∧ c ∈ separatorStarts := by
  induction h with
  | @blank c blank =>
    exact ⟨c, [], rfl, List.mem_append_left ['!', '#', '$'] blank⟩
  | @lineComment c body opener closer =>
    refine ⟨c, body ++ ['\n'], rfl, ?_⟩
    rcases opener with rfl | rfl <;> decide
  | @blockComment body closer => exact ⟨'$', body ++ ['$'], rfl, by decide⟩
  | append _ _ ihfirst _ =>
    obtain ⟨c, cs, rfl, hstart⟩ := ihfirst
    exact ⟨c, _, List.cons_append, hstart⟩

end Spacing

/-! ## Tokens taken apart -/

theorem toList_respaced (tokens : List Token) (gaps : List String) :
    (Token.respaced tokens gaps).toList = (List.zipWith
      (fun token gap => token.spelling.toList ++ gap.toList) tokens gaps).flatten := by
  rw [Token.respaced, String.toList_join, List.flatMap, List.map_zipWith]
  simp only [String.toList_append]

/-- Tokens with a gap behind each of them are laid out, and the end marker does not matter. -/
theorem laidOut_respaced {tokens : List Token} {ending : Token} (hending : ending.spelling = "")
    (hlexical : ∀ token ∈ tokens, IsLexeme token.kind token.spelling.toList)
    (hgenuine : ∀ token ∈ tokens, token.kind ≠ .error) {gaps : List String}
    (hgaps : ∀ gap ∈ gaps, Spacing gap.toList) (hlength : tokens.length ≤ gaps.length)
    {lead : List Char} (hlead : ∀ after, Stretch lead after) :
    LaidOut tokens (lead ++ (Token.respaced (tokens ++ [ending]) gaps).toList) := by
  rw [toList_respaced]
  induction tokens generalizing gaps lead with
  | nil =>
    cases gaps with
    | nil =>
      show LaidOut [] (lead ++ [])
      rw [List.append_nil]
      exact .ends (hlead [])
    | cons gap others =>
      -- the end marker has no spelling, and leaves its gap only
      have hgap := (List.forall_mem_cons.1 hgaps).1.stretch []
      have hends : Stretch (lead ++ gap.toList) [] := (hlead _).append hgap
      simpa [hending] using LaidOut.ends hends
  | cons token others ih =>
    obtain ⟨htoken, hothers⟩ := List.forall_mem_cons.1 hlexical
    obtain ⟨htokengenuine, hothersgenuine⟩ := List.forall_mem_cons.1 hgenuine
    cases gaps with
    | nil => exact absurd hlength (Nat.not_succ_le_zero _)
    | cons gap gaps =>
      obtain ⟨hgap, hgaps⟩ := List.forall_mem_cons.1 hgaps
      have hbehind := ih hothers hothersgenuine hgaps (Nat.le_of_succ_le_succ hlength) hgap.stretch
      obtain ⟨c, cs, heq, hstart⟩ := hgap.head
      have hapart : ∀ x xs, gap.toList ++ (List.zipWith
          (fun token gap => token.spelling.toList ++ gap.toList) (others ++ [ending])
            gaps).flatten = x :: xs → x ∈ separatorStarts := by
        intro x xs htext
        rw [heq] at htext
        cases htext
        exact hstart
      simpa using LaidOut.token (hlead _) htoken htokengenuine hapart hbehind

end Scan

/-- Scanning does not depend on the layout: the tokens of a text in which nothing is a fault, each
    with a gap behind it that holds a blank or a closed comment at least, are scanned as what they
    were, however they stood in the text. The end marker may do without a gap. -/
theorem tokenize_respaced {text : String} (hgenuine : ∀ token ∈ tokenize text, token.kind ≠ .error)
    {gaps : List String} (hgaps : ∀ gap ∈ gaps, Scan.Spacing gap.toList)
    (hlength : (tokenize text).length ≤ gaps.length + 1) :
    (tokenize (Token.respaced (tokenize text) gaps)).map Token.content =
      (tokenize text).map Token.content := by
  obtain ⟨pieces, hscanned⟩ := Scan.exists_scanned [] text.toList
  obtain ⟨proper, gap, rfl, hproper⟩ := hscanned.ending
  have htext : tokenize text =
      proper.map Scan.Piece.token ++ [Scan.endMarker text.toList] :=
    hscanned.tokens.trans List.map_append
  have hlexical : ∀ token ∈ proper.map Scan.Piece.token,
      Scan.IsLexeme token.kind token.spelling.toList := by
    intro token hmem
    obtain ⟨piece, hpiece, rfl⟩ := List.mem_map.1 hmem
    exact hscanned.lexeme piece (List.mem_append_left _ hpiece) (hproper piece hpiece).1
  rw [htext] at hgenuine hlength ⊢
  have hlaid : Scan.LaidOut (proper.map Scan.Piece.token) ([] ++ (Token.respaced
      (proper.map Scan.Piece.token ++ [Scan.endMarker text.toList]) gaps).toList) :=
    Scan.laidOut_respaced rfl hlexical
      (fun token hmem => hgenuine token (List.mem_append_left _ hmem)) hgaps
      (by simpa using hlength) fun _ => .nil
  obtain ⟨pieces, found, hscanned, hpieces, hfound⟩ := hlaid.scanned []
  have hrespaced : tokenize (Token.respaced _ gaps) = pieces.map Scan.Piece.token :=
    hscanned.tokens
  rw [hrespaced, hpieces, List.map_append, List.map_append, hfound]
  rfl

/-- Tokens that touch, and literals of a newline and of characters that open comments. -/
private def crowded : String := "a:=b**='!'$ $<2'\n'x[1y]'$'#"

/-- A gap in front of every second token opens and closes two comments. -/
theorem tokenize_respaced_sample :
    (tokenize (Token.respaced (tokenize crowded)
        (List.replicate 8 ["\t", " $!$#'\n"]).flatten)).map Token.content =
      (tokenize crowded).map Token.content := by
  have hblock : Scan.Spacing ('$' :: ['!'] ++ ['$']) := .blockComment (by decide)
  have hline : Scan.Spacing ('#' :: ['\''] ++ ['\n']) := .lineComment (.inr rfl) (by decide)
  have hblank : Scan.Spacing [' '] := .blank (by decide)
  refine tokenize_respaced (by decide +kernel) (fun gap hmem => ?_) (by decide +kernel)
  obtain ⟨pair, hpair, hmem⟩ := List.mem_flatten.1 hmem
  rw [(List.mem_replicate.1 hpair).2] at hmem
  simp only [List.mem_cons, List.not_mem_nil, or_false] at hmem
  rcases hmem with rfl | rfl
  · exact .blank (by decide)
  · exact hblank.append (hblock.append hline)

end TriangleTam
