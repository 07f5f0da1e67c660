import Mathlib.Data.Bool.AllAny
import Mathlib.Data.List.TakeWhile
import TriangleTam.Token.Scan

/-! # Lexemes

  The **lexemes** of each class of tokens, as strings of characters. A string
  is a lexeme of one class at most, and at each place of a text where no
  separator starts there is a longest one. That is the lexeme that scanning
  takes, whatever follows it.

  An operator does not start with `**`, so that `**` is the longest lexeme
  wherever two stars start a token.
-/

namespace TriangleTam.Scan

/-! ## The lexemes of a class -/

/-- A letter with letters and digits after it. -/
def IsWord (s : List Char) : Prop :=
  ∃ c cs, s = c :: cs ∧ c.isAlpha = true ∧ ∀ x ∈ cs, x.isAlphanum = true

/-- The marks. -/
def marks : List TokenKind :=
  [.dot, .colon, .semicolon, .comma, .becomes, .is, .leftParen, .rightParen,
   .leftBracket, .rightBracket, .leftCurly, .rightCurly]

/-- The characters that separators start with. -/
def separatorStarts : List Char := [' ', '\n', '\r', '\t', '!', '#', '$']

/-- A character that starts no lexeme of a proper class and no separator. -/
structure Unknown (c : Char) : Prop where
  alpha     : c.isAlpha = false
  digit     : c.isDigit = false
  operator  : isOperatorChar c = false
  quote     : c ≠ '\''
  mark      : ∀ kind ∈ marks, kind.written.toList.head? ≠ some c
  separator : c ∉ separatorStarts

/-- The lexemes of each class. The end marker has none. -/
inductive IsLexeme : TokenKind → List Char → Prop
  | identifier {s : List Char} (word : IsWord s)
      (free : ∀ kind ∈ TokenKind.reserved, kind.written.toList ≠ s) : IsLexeme .identifier s
  | reserved {kind : TokenKind} (listed : kind ∈ TokenKind.reserved) :
      IsLexeme kind kind.written.toList
  | intLiteral {c : Char} {cs : List Char} (digits : ∀ x ∈ c :: cs, x.isDigit = true) :
      IsLexeme .intLiteral (c :: cs)
  | operator {c : Char} {cs : List Char} (signs : ∀ x ∈ c :: cs, isOperatorChar x = true)
      (single : ¬ ['*', '*'] <+: c :: cs) : IsLexeme .operator (c :: cs)
  | doubleOperator : IsLexeme .doubleOperator ['*', '*']
  | charLiteral (x : Char) : IsLexeme .charLiteral ['\'', x, '\'']
  | mark {kind : TokenKind} (listed : kind ∈ marks) : IsLexeme kind kind.written.toList
  | unknown {c : Char} (unknown : Unknown c) : IsLexeme .error [c]
  | openQuote : IsLexeme .error ['\'']
  | openQuoted (x : Char) : IsLexeme .error ['\'', x]

/-- `s` is a lexeme of the class at the start of `s ++ rest`, and no lexeme of any class that
    starts there is longer. -/
structure Longest (kind : TokenKind) (s rest : List Char) : Prop where
  lexeme  : IsLexeme kind s
  longest : ∀ kind' s', IsLexeme kind' s' → s' <+: s ++ rest → s'.length ≤ s.length

/-! ## What scanning takes -/

section Taken

variable {c : Char} {cs rest : List Char}

/-- No digit is a letter. -/
theorem isAlpha_of_isDigit (h : c.isDigit = true) : c.isAlpha = false := by
  rw [Bool.eq_false_iff]
  intro halpha
  have hlast : c.val.toNat ≤ 57 :=
    UInt32.le_iff_toNat_le.1 (of_decide_eq_true (Bool.and_eq_true_iff.1 h).2)
  rcases Bool.or_eq_true_iff.1 halpha with hupper | hlower
  · have hfirst : 65 ≤ c.val.toNat :=
      UInt32.le_iff_toNat_le.1 (of_decide_eq_true hupper).1
    omega
  · have hfirst : 97 ≤ c.val.toNat :=
      UInt32.le_iff_toNat_le.1 (of_decide_eq_true (Bool.and_eq_true_iff.1 hlower).1)
    omega

/-- No character of operators is a letter or a digit. -/
theorem isAlphanum_of_isOperatorChar (h : isOperatorChar c = true) : c.isAlphanum = false := by
  have hlisted : ∀ x ∈ ['+', '-', '*', '/', '=', '<', '>', '\\', '&', '@', '%', '^', '?', '|'],
      x.isAlphanum = false := List.all_iff_forall_prop.1 (by decide)
  exact hlisted c (List.contains_iff_mem.1 h)

theorem lexeme_alpha (h : c.isAlpha = true) (cs : List Char) :
    lexeme c cs = run (fun word => .forWord (String.ofList word)) Char.isAlphanum c cs :=
  if_pos h

theorem lexeme_digit (h : c.isDigit = true) (cs : List Char) :
    lexeme c cs = run (fun _ => .intLiteral) Char.isDigit c cs := by
  unfold lexeme
  rw [if_neg (Bool.eq_false_iff.1 (isAlpha_of_isDigit h)), if_pos h]

theorem lexeme_operator (h : isOperatorChar c = true) (hsingle : ¬ ['*', '*'] <+: c :: cs) :
    lexeme c cs = run (fun _ => .operator) isOperatorChar c cs := by
  have hneither := Bool.or_eq_false_iff.1 (isAlphanum_of_isOperatorChar h)
  unfold lexeme
  rw [if_neg (Bool.eq_false_iff.1 hneither.1), if_neg (Bool.eq_false_iff.1 hneither.2), if_pos h]
  split
  · exact absurd ⟨_, rfl⟩ hsingle
  · rfl

theorem lexeme_doubleOperator (rest : List Char) :
    lexeme '*' ('*' :: rest) = ⟨.doubleOperator, ['*', '*'], rest⟩ := rfl

theorem lexeme_charLiteral (x : Char) (rest : List Char) :
    lexeme '\'' (x :: '\'' :: rest) = ⟨.charLiteral, ['\'', x, '\''], rest⟩ := rfl

theorem lexeme_openQuote : lexeme '\'' [] = ⟨.error, ['\''], []⟩ := rfl

theorem lexeme_openQuoted (x : Char) (h : rest.head? ≠ some '\'') :
    lexeme '\'' (x :: rest) = ⟨.error, ['\'', x], rest⟩ := by
  cases rest with
  | nil => rfl
  | cons y others =>
    have hy : y ≠ '\'' := fun heq => h (congrArg some heq)
    simp [lexeme, isOperatorChar, hy]

theorem lexeme_becomes (rest : List Char) :
    lexeme ':' ('=' :: rest) = ⟨.becomes, [':', '='], rest⟩ := rfl

theorem lexeme_colon (h : rest.head? ≠ some '=') :
    lexeme ':' rest = ⟨.colon, [':'], rest⟩ := by
  cases rest with
  | nil => rfl
  | cons y others =>
    have hy : y ≠ '=' := fun heq => h (congrArg some heq)
    simp [lexeme, isOperatorChar, hy]

theorem lexeme_single (halpha : c.isAlpha = false) (hdigit : c.isDigit = false)
    (hsign : isOperatorChar c = false) (hquote : c ≠ '\'') (hcolon : c ≠ ':') :
    lexeme c cs = ⟨.forMark c, [c], cs⟩ := by
  unfold lexeme
  rw [if_neg (Bool.eq_false_iff.1 halpha), if_neg (Bool.eq_false_iff.1 hdigit),
    if_neg (Bool.eq_false_iff.1 hsign)]
  split <;> first | contradiction | rfl

/-- The text that a lexeme was taken from. -/
theorem lexeme_append (c : Char) (cs : List Char) :
    (lexeme c cs).spelling ++ (lexeme c cs).rest = c :: cs := by
  have hrun (kind p) : (run kind p c cs).spelling ++ (run kind p c cs).rest = c :: cs :=
    congrArg (c :: ·) List.takeWhile_append_dropWhile
  unfold lexeme
  split
  · exact hrun ..
  split
  · exact hrun ..
  split
  · split
    · rfl
    · exact hrun ..
  · split <;> rfl

end Taken

/-! ## The class of a lexeme -/

/-- The class that scanning gives a string with nothing behind it. -/
def classAlone : List Char → Option TokenKind
  | [] => none
  | c :: cs => some (lexeme c cs).kind

/-- A word that is not on the list of reserved words is an identifier. -/
theorem forWord_free {word : List Char}
    (h : ∀ kind ∈ TokenKind.reserved, kind.written.toList ≠ word) :
    TokenKind.forWord (String.ofList word) = .identifier := by
  have hnone : TokenKind.reserved.find? (fun kind => kind.written == String.ofList word) =
      none := by
    rw [List.find?_eq_none]
    intro kind hmem heq
    refine h kind hmem ?_
    rw [beq_iff_eq.1 heq, String.toList_ofList]
  unfold TokenKind.forWord
  rw [hnone]
  rfl

/-- A word on the list is that reserved word. -/
theorem forWord_reserved {word : List Char}
    (h : ¬ ∀ kind ∈ TokenKind.reserved, kind.written.toList ≠ word) :
    ∃ kind ∈ TokenKind.reserved, kind.written.toList = word ∧
      TokenKind.forWord (String.ofList word) = kind := by
  have hself : ∀ kind ∈ TokenKind.reserved,
      TokenKind.forWord (String.ofList kind.written.toList) = kind := by
    decide
  simp only [not_forall, Decidable.not_not, exists_prop] at h
  obtain ⟨kind, hmem, rfl⟩ := h
  exact ⟨kind, hmem, rfl, hself kind hmem⟩

theorem isWord_reserved : ∀ kind ∈ TokenKind.reserved, IsWord kind.written.toList := by
  have hhead : ∀ kind ∈ TokenKind.reserved,
      (kind.written.toList.head?.any Char.isAlpha &&
        kind.written.toList.tail.all Char.isAlphanum) = true := by
    decide
  intro kind hmem
  obtain ⟨halpha, htail⟩ := Bool.and_eq_true_iff.1 (hhead kind hmem)
  cases hword : kind.written.toList with
  | nil => simp [hword] at halpha
  | cons c cs =>
    rw [hword] at halpha htail
    exact ⟨c, cs, rfl, halpha, List.all_eq_true.1 htail⟩

/-- A single character is a mark, or no mark starts with it. -/
theorem forMark_cases (c : Char) (hcolon : c ≠ ':') :
    (TokenKind.forMark c ∈ marks ∧ (TokenKind.forMark c).written.toList = [c]) ∨
      (TokenKind.forMark c = .error ∧
        ∀ kind ∈ marks, kind.written.toList.head? ≠ some c) := by
  unfold TokenKind.forMark
  split
  case h_11 =>
    refine .inr ⟨rfl, fun kind hmem heq => ?_⟩
    have hheads : ∀ kind ∈ marks, kind.written.toList.head? ∈
        [':', '.', ';', ',', '~', '(', ')', '[', ']', '\x7b', '\x7d'].map some := by
      decide
    have hlisted := hheads kind hmem
    rw [heq] at hlisted
    simp only [List.map_cons, List.map_nil, List.mem_cons, Option.some.injEq,
      List.not_mem_nil, or_false] at hlisted
    grind
  all_goals exact .inl ⟨by decide, by decide⟩

/-- A string is a lexeme of one class at most, the one that scanning gives it. -/
theorem IsLexeme.classAlone {kind : TokenKind} {s : List Char} (h : IsLexeme kind s) :
    classAlone s = some kind := by
  have hmarks : ∀ kind ∈ marks, Scan.classAlone kind.written.toList = some kind := by decide
  have hreserved : ∀ kind ∈ TokenKind.reserved,
      Scan.classAlone kind.written.toList = some kind := by decide
  cases h with
  | identifier word free =>
    -- all of the word is in the run that scanning takes
    obtain ⟨c, cs, rfl, halpha, hrest⟩ := word
    have hall : cs.takeWhile Char.isAlphanum = cs := List.takeWhile_eq_self_iff.2 hrest
    show some (lexeme c cs).kind = _
    rw [lexeme_alpha halpha]
    unfold run
    rw [hall]
    exact congrArg some (forWord_free free)
  | reserved listed => exact hreserved kind listed
  | intLiteral digits =>
    show some (lexeme _ _).kind = _
    rw [lexeme_digit (digits _ List.mem_cons_self)]
    rfl
  | operator signs single =>
    show some (lexeme _ _).kind = _
    rw [lexeme_operator (signs _ List.mem_cons_self) single]
    rfl
  | doubleOperator => rfl
  | charLiteral x => rfl
  | mark listed => exact hmarks kind listed
  | @unknown c unknown =>
    have hcolon : c ≠ ':' := fun heq => unknown.mark .colon (by decide) (by rw [heq]; rfl)
    show some (lexeme c []).kind = _
    rw [lexeme_single unknown.alpha unknown.digit unknown.operator unknown.quote hcolon]
    obtain ⟨hmem, hwritten⟩ | ⟨herror, -⟩ := forMark_cases c hcolon
    · exact absurd (by rw [hwritten]; rfl) (unknown.mark _ hmem)
    · exact congrArg some herror
  | openQuote => rfl
  | openQuoted x => rfl

/-! ## The longest lexeme -/

/-- A run of `p` is at least as long as what satisfies `p` at its start. -/
theorem length_le_run {kind : List Char → TokenKind} {p : Char → Bool} {c : Char}
    {cs text : List Char} (hstarts : cs <+: text) (hall : ∀ x ∈ cs, p x = true) :
    (c :: cs).length ≤ (run kind p c text).spelling.length := by
  obtain ⟨rest, rfl⟩ := hstarts
  have htake : (cs ++ rest).takeWhile p = cs ++ rest.takeWhile p :=
    List.takeWhile_append_of_pos hall
  unfold run
  rw [htake, List.length_cons, List.length_cons, List.length_append]
  omega

theorem length_lexeme_pos (c : Char) (cs : List Char) : 1 ≤ (lexeme c cs).spelling.length := by
  unfold lexeme
  split
  · exact Nat.le_add_left ..
  split
  · exact Nat.le_add_left ..
  split
  · split <;> exact Nat.le_add_left ..
  · split <;> exact Nat.le_add_left ..

/-- No lexeme at the start of a text is longer than the one that is taken. -/
theorem IsLexeme.length_le {kind : TokenKind} {s : List Char} (h : IsLexeme kind s) {c : Char}
    {text : List Char} (hstarts : s <+: c :: text) :
    s.length ≤ (lexeme c text).spelling.length := by
  -- identifiers and reserved words are taken alike
  have hword {s : List Char} (word : IsWord s) (hstarts : s <+: c :: text) :
      s.length ≤ (lexeme c text).spelling.length := by
    obtain ⟨c', cs, rfl, halpha, hrest⟩ := word
    obtain ⟨rfl, htail⟩ := List.cons_prefix_cons.1 hstarts
    rw [lexeme_alpha halpha]
    exact length_le_run htail hrest
  cases h with
  | identifier word free => exact hword word hstarts
  | reserved listed => exact hword (isWord_reserved _ listed) hstarts
  | intLiteral digits =>
    obtain ⟨rfl, htail⟩ := List.cons_prefix_cons.1 hstarts
    rw [lexeme_digit (digits _ List.mem_cons_self)]
    exact length_le_run htail fun x hmem => digits x (List.mem_cons_of_mem _ hmem)
  | @operator first cs signs single =>
    obtain ⟨hfirst, htail⟩ := List.cons_prefix_cons.1 hstarts
    subst hfirst
    by_cases hdouble : ['*', '*'] <+: first :: text
    · -- two stars start the text, and the operator has but the first of them
      obtain ⟨rest, heq⟩ := hdouble
      cases heq
      cases cs with
      | nil => exact length_lexeme_pos ..
      | cons second others =>
        obtain ⟨rfl, -⟩ := List.cons_prefix_cons.1 htail
        exact absurd ⟨others, rfl⟩ single
    · rw [lexeme_operator (signs _ List.mem_cons_self) hdouble]
      exact length_le_run htail fun x hmem => signs x (List.mem_cons_of_mem _ hmem)
  | doubleOperator =>
    obtain ⟨rest, heq⟩ := hstarts
    cases heq
    exact Nat.le_refl 2
  | charLiteral x =>
    obtain ⟨rest, heq⟩ := hstarts
    cases heq
    exact Nat.le_refl 3
  | @mark kind listed =>
    have hlengths : ∀ kind ∈ marks, kind.written.toList.length = 1 ∨
        kind.written.toList = [':', '='] := by
      decide
    cases hlengths kind listed with
    | inl hsingle => exact hsingle ▸ length_lexeme_pos c text
    | inr hbecomes =>
      rw [hbecomes] at hstarts ⊢
      obtain ⟨rest, heq⟩ := hstarts
      cases heq
      exact Nat.le_refl 2
  | unknown unknown => exact length_lexeme_pos c text
  | openQuote => exact length_lexeme_pos c text
  | openQuoted x =>
    obtain ⟨rest, heq⟩ := hstarts
    cases heq
    -- a quote behind the character makes a literal of it, which is longer
    by_cases hclosed : rest.head? = some '\''
    · obtain ⟨others, rfl⟩ := List.head?_eq_some_iff.1 hclosed
      exact Nat.le_succ 2
    · show 2 ≤ (lexeme '\'' (x :: rest)).spelling.length
      rw [lexeme_openQuoted x hclosed]
      exact Nat.le_refl 2

/-- No lexeme starts as a separator does. -/
theorem IsLexeme.head {kind : TokenKind} {c : Char} {cs : List Char}
    (h : IsLexeme kind (c :: cs)) : c ∉ separatorStarts := by
  -- a separator starts with no letter, digit, operator character or quote
  have hseparator : ∀ x ∈ separatorStarts,
      x.isAlpha = false ∧ x.isDigit = false ∧ isOperatorChar x = false ∧ x ≠ '\'' :=
    List.all_iff_forall_prop.1 (by decide)
  have hmarks : ∀ kind ∈ marks,
      kind.written.toList.head?.all (fun x => decide (x ∉ separatorStarts)) = true := by
    decide
  have hword (word : IsWord (c :: cs)) : c ∉ separatorStarts := by
    obtain ⟨c', cs', heq, halpha, -⟩ := word
    cases heq
    exact fun hmem => Bool.eq_false_iff.1 (hseparator c hmem).1 halpha
  -- each kind of lexeme tells its first character
  generalize hs : c :: cs = s at h
  cases h with
  | identifier word free => exact hword (hs ▸ word)
  | @reserved kind listed => exact hword (hs ▸ isWord_reserved kind listed)
  | intLiteral digits =>
    cases hs
    exact fun hmem => Bool.eq_false_iff.1 (hseparator c hmem).2.1 (digits c List.mem_cons_self)
  | operator signs single =>
    cases hs
    exact fun hmem => Bool.eq_false_iff.1 (hseparator c hmem).2.2.1 (signs c List.mem_cons_self)
  | @mark kind listed =>
    have hmark := hmarks kind listed
    rw [← hs] at hmark
    exact of_decide_eq_true hmark
  | unknown unknown =>
    cases hs
    exact unknown.separator
  | doubleOperator => cases hs; decide
  | charLiteral x => cases hs; decide
  | openQuote => cases hs; decide
  | openQuoted x => cases hs; decide

/-- The end marker is no lexeme. -/
theorem IsLexeme.kind_ne {kind : TokenKind} {s : List Char} (h : IsLexeme kind s) :
    kind ≠ .endOfText := by
  cases h with
  | reserved listed => exact fun heq => absurd (heq ▸ listed) (by decide)
  | mark listed => exact fun heq => absurd (heq ▸ listed) (by decide)
  | _ => decide

/-- What is taken is a lexeme of the class that it is given. -/
theorem isLexeme_lexeme {c : Char} (hseparator : c ∉ separatorStarts) (cs : List Char) :
    IsLexeme (lexeme c cs).kind (lexeme c cs).spelling := by
  -- the cases are those of scanning, in its order
  by_cases halpha : c.isAlpha = true
  · rw [lexeme_alpha halpha]
    have hword : IsWord (c :: cs.takeWhile Char.isAlphanum) :=
      ⟨c, _, rfl, halpha, fun _ => List.mem_takeWhile_imp⟩
    show IsLexeme (.forWord (String.ofList (c :: cs.takeWhile Char.isAlphanum)))
      (c :: cs.takeWhile Char.isAlphanum)
    by_cases hfree : ∀ kind ∈ TokenKind.reserved,
        kind.written.toList ≠ c :: cs.takeWhile Char.isAlphanum
    · rw [forWord_free hfree]
      exact .identifier hword hfree
    · obtain ⟨kind, hmem, hwritten, hkind⟩ := forWord_reserved hfree
      rw [hkind]
      rw [← hwritten]
      exact .reserved hmem
  rw [Bool.not_eq_true] at halpha
  by_cases hdigit : c.isDigit = true
  · rw [lexeme_digit hdigit]
    refine .intLiteral fun x hmem => ?_
    cases hmem with
    | head => exact hdigit
    | tail _ hmem => exact List.mem_takeWhile_imp hmem
  rw [Bool.not_eq_true] at hdigit
  by_cases hsign : isOperatorChar c = true
  · by_cases hdouble : ['*', '*'] <+: c :: cs
    · obtain ⟨rest, heq⟩ := hdouble
      cases heq
      exact .doubleOperator
    · rw [lexeme_operator hsign hdouble]
      refine .operator (fun x hmem => ?_) fun hdouble' => hdouble (hdouble'.trans ?_)
      · cases hmem with
        | head => exact hsign
        | tail _ hmem => exact List.mem_takeWhile_imp hmem
      · exact List.cons_prefix_cons.2 ⟨rfl, List.takeWhile_prefix _⟩
  rw [Bool.not_eq_true] at hsign
  by_cases hquote : c = '\''
  · subst hquote
    match cs with
    | [] => exact .openQuote
    | x :: rest =>
      by_cases hclosed : rest.head? = some '\''
      · obtain ⟨others, rfl⟩ := List.head?_eq_some_iff.1 hclosed
        exact .charLiteral x
      · rw [lexeme_openQuoted x hclosed]
        exact .openQuoted x
  by_cases hcolon : c = ':'
  · subst hcolon
    by_cases hbecomes : cs.head? = some '='
    · obtain ⟨rest, rfl⟩ := List.head?_eq_some_iff.1 hbecomes
      exact .mark (show TokenKind.becomes ∈ marks by decide)
    · rw [lexeme_colon hbecomes]
      exact .mark (show TokenKind.colon ∈ marks by decide)
  · rw [lexeme_single halpha hdigit hsign hquote hcolon]
    obtain ⟨hmem, hwritten⟩ | ⟨herror, hmarks⟩ := forMark_cases c hcolon
    · exact hwritten ▸ .mark hmem
    · rw [herror]
      exact .unknown ⟨halpha, hdigit, hsign, hquote, hmarks, hseparator⟩

/-- Scanning takes the longest lexeme of any class. -/
theorem longest_lexeme {c : Char} (hseparator : c ∉ separatorStarts) (cs : List Char) :
    Longest (lexeme c cs).kind (lexeme c cs).spelling (lexeme c cs).rest where
  lexeme := isLexeme_lexeme hseparator cs
  longest := by
    rw [lexeme_append]
    exact fun _ _ h hstarts => h.length_le hstarts

namespace Longest

variable {kind kind' : TokenKind} {s s' rest rest' : List Char}

/-- There is one longest lexeme at most, and it has one class. -/
theorem unique (h : Longest kind s rest) (h' : Longest kind' s' rest')
    (heq : s ++ rest = s' ++ rest') : kind = kind' ∧ s = s' ∧ rest = rest' := by
  have hle : s'.length ≤ s.length := h.longest _ _ h'.lexeme ⟨rest', heq.symm⟩
  have hge : s.length ≤ s'.length := h'.longest _ _ h.lexeme ⟨rest, heq⟩
  obtain ⟨hs, hrest⟩ := List.append_inj heq (Nat.le_antisymm hge hle)
  have hkind : some kind = some kind' := by
    rw [← h.lexeme.classAlone, ← h'.lexeme.classAlone, hs]
  exact ⟨Option.some.inj hkind, hs, hrest⟩

theorem nonempty (h : Longest kind s rest) : s ≠ [] := by
  intro hnil
  have hclass := h.lexeme.classAlone
  rw [hnil] at hclass
  cases hclass

/-- The longest lexeme is what scanning takes. -/
theorem lexeme_eq (h : Longest kind s rest) : ∃ c cs, s ++ rest = c :: cs ∧
    c ∉ separatorStarts ∧ Scan.lexeme c cs = ⟨kind, s, rest⟩ := by
  obtain ⟨c, tail, rfl⟩ := List.exists_cons_of_ne_nil h.nonempty
  have hhead : c ∉ separatorStarts := h.lexeme.head
  have htaken := longest_lexeme hhead (tail ++ rest)
  obtain ⟨hkind, hs, hrest⟩ := htaken.unique h (lexeme_append c (tail ++ rest))
  refine ⟨c, tail ++ rest, rfl, hhead, ?_⟩
  cases hlexeme : Scan.lexeme c (tail ++ rest) with
  | mk kind' s' rest' =>
    rw [hlexeme] at hkind hs hrest
    rw [← hkind, ← hs, ← hrest]

end Longest

/-! ## Separators behind lexemes -/

/-- A character that separators start with is part of a lexeme only behind an opening quote. -/
theorem IsLexeme.quoted {kind : TokenKind} {s : List Char} (h : IsLexeme kind s) {c : Char}
    (hc : c ∈ separatorStarts) (hmem : c ∈ s) : s = ['\'', c] ∨ s = ['\'', c, '\''] := by
  -- no class but the quoted ones admits the character
  have hmarks : ∀ kind ∈ marks,
      kind.written.toList.all (fun x => decide (x ∉ separatorStarts)) = true := by
    decide
  have hplain : ∀ x ∈ separatorStarts, x.isAlphanum = false ∧ isOperatorChar x = false ∧
      x ≠ '\'' ∧ x ≠ '*' :=
    List.all_iff_forall_prop.1 (by decide)
  obtain ⟨halphanum, hsign, hquote, hstar⟩ := hplain c hc
  obtain ⟨halpha, hdigit⟩ := Bool.or_eq_false_iff.1 halphanum
  have hword {s : List Char} (word : IsWord s) : c ∉ s := by
    obtain ⟨first, cs, rfl, hfirst, hrest⟩ := word
    intro hmem
    cases hmem with
    | head => exact Bool.eq_false_iff.1 halpha hfirst
    | tail _ hmem => exact Bool.eq_false_iff.1 halphanum (hrest c hmem)
  cases h with
  | identifier word free => exact absurd hmem (hword word)
  | @reserved kind listed => exact absurd hmem (hword (isWord_reserved kind listed))
  | intLiteral digits => exact absurd (digits c hmem) (Bool.eq_false_iff.1 hdigit)
  | operator signs single => exact absurd (signs c hmem) (Bool.eq_false_iff.1 hsign)
  | doubleOperator => exact absurd hmem (by simp [hstar])
  | charLiteral x =>
    obtain rfl : c = x := by simpa [hquote] using hmem
    exact .inr rfl
  | @mark kind listed =>
    have hother := List.all_eq_true.1 (hmarks kind listed) c hmem
    exact absurd hc (of_decide_eq_true hother)
  | unknown unknown =>
    obtain rfl := List.mem_singleton.1 hmem
    exact absurd hc unknown.separator
  | openQuote => exact absurd (List.mem_singleton.1 hmem) hquote
  | openQuoted x =>
    obtain rfl : c = x := by simpa [hquote] using hmem
    exact .inl rfl

/-- A lexeme that is no fault is the longest one where a separator or the end comes behind it. -/
theorem IsLexeme.longest {kind : TokenKind} {s rest : List Char} (h : IsLexeme kind s)
    (hgenuine : kind ≠ .error) (hrest : ∀ c cs, rest = c :: cs → c ∈ separatorStarts) :
    Longest kind s rest := by
  refine ⟨h, fun kind' s' h' hstarts => Nat.le_of_not_lt fun hlonger => ?_⟩
  cases rest with
  | nil =>
    rw [List.append_nil] at hstarts
    exact Nat.not_le_of_lt hlonger hstarts.length_le
  | cons c others =>
    -- the longer lexeme has the separator's first character in it
    have hlength : (s ++ [c]).length ≤ s'.length := by
      rw [List.length_append]
      exact hlonger
    obtain ⟨tail, rfl⟩ : s ++ [c] <+: s' :=
      List.prefix_of_prefix_length_le ⟨others, List.append_assoc ..⟩ hstarts hlength
    have hseparator : c ∈ separatorStarts := hrest c others rfl
    have hquote : c ≠ '\'' := ne_of_mem_of_not_mem hseparator (by decide)
    have hopen : s = ['\''] := by
      obtain heq | heq := h'.quoted hseparator (by simp)
      all_goals
        match s, h with
        | [], h => cases h.classAlone
        | [first], _ => rw [(List.cons.inj heq).1]
        | first :: second :: cs, _ => cases cs <;> simp [hquote] at heq
    rw [hopen] at h
    exact hgenuine (Option.some.inj h.classAlone).symm

end TriangleTam.Scan
