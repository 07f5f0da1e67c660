import TriangleTam.Proofs.Scanning.Lexemes

/-! # Separators

  What stands before a token is a **stretch** of separators, one after the
  other: blanks, line comments through the next newline, and block comments
  through the next `$`. A comment that the text does not close is the last
  separator of the text.

  Scanning reads a stretch with a gap that tells what kind of comment it is
  in. Behind an unfinished separator, what it reads on is a stretch.
-/

namespace TriangleTam.Scan

/-! ## Stretches -/

/-- A separator that `after` follows. -/
inductive Separator : List Char → List Char → Prop
  | blank {c : Char} {after : List Char} (blank : c ∈ [' ', '\n', '\r', '\t']) :
      Separator [c] after
  | lineComment {c : Char} {body after : List Char} (opener : c = '!' ∨ c = '#')
      (closer : '\n' ∉ body) : Separator (c :: body ++ ['\n']) after
  | openLineComment {c : Char} {body : List Char} (opener : c = '!' ∨ c = '#')
      (closer : '\n' ∉ body) : Separator (c :: body) []
  | blockComment {body after : List Char} (closer : '$' ∉ body) :
      Separator ('$' :: body ++ ['$']) after
  | openBlockComment {body : List Char} (closer : '$' ∉ body) : Separator ('$' :: body) []

/-- A sequence of separators that `after` follows. -/
inductive Stretch : List Char → List Char → Prop
  | nil {after : List Char} : Stretch [] after
  | cons {s gap after : List Char} (separator : Separator s (gap ++ after))
      (others : Stretch gap after) : Stretch (s ++ gap) after

/-- A separator begun, that has come to `gap` without its closing character. -/
def Begun : Gap → List Char → Prop
  | .outside, s => s = []
  | .lineComment, s => ∃ c body, s = c :: body ∧ (c = '!' ∨ c = '#') ∧ '\n' ∉ body
  | .blockComment, s => ∃ body, s = '$' :: body ∧ '$' ∉ body

/-- The characters that leave the stretch are those that no separator starts with. -/
theorem next_outside_none (c : Char) : Gap.next .outside c = none ↔ c ∉ separatorStarts := by
  unfold Gap.next separatorStarts
  dsimp only
  split
  · rename_i h
    rcases h with rfl | rfl <;> simp
  split
  · rename_i h
    subst h
    simp
  split
  · rename_i h
    rcases h with rfl | rfl | rfl | rfl <;> simp
  · simp_all

theorem separators_append (gap : Gap) (text : List Char) :
    (separators gap text).1 ++ (separators gap text).2 = text := by
  induction text generalizing gap with
  | nil => rfl
  | cons c cs ih =>
    unfold separators
    cases gap.next c with
    | none => rfl
    | some gap' => exact congrArg (c :: ·) (ih gap')

/-- Behind a stretch, the text ends or a token starts. -/
theorem separators_rest (gap : Gap) (text : List Char) {c : Char} {cs : List Char}
    (h : (separators gap text).2 = c :: cs) : c ∉ separatorStarts := by
  induction text generalizing gap with
  | nil => cases h
  | cons d ds ih =>
    unfold separators at h
    cases hnext : gap.next d with
    | none =>
      rw [hnext] at h
      cases h
      cases gap with
      | outside => exact (next_outside_none c).1 hnext
      | lineComment => cases hnext
      | blockComment => cases hnext
    | some gap' =>
      rw [hnext] at h
      exact ih gap' h

/-! ## What scanning skips -/

/-- A character read inside a gap closes the separator that has begun, or carries it on. -/
theorem Begun.step {gap gap' : Gap} {s : List Char} {c : Char} (h : Begun gap s)
    (hnext : gap.next c = some gap') :
    (gap' = .outside ∧ ∀ after, Separator (s ++ [c]) after) ∨ Begun gap' (s ++ [c]) := by
  cases gap with
  | outside =>
    obtain rfl : s = [] := h
    unfold Gap.next at hnext
    dsimp only at hnext
    -- outside, a character opens one of the two comments, or is a blank
    split at hnext
    · rename_i hopener
      cases hnext
      exact .inr ⟨c, [], rfl, hopener, List.not_mem_nil⟩
    split at hnext
    · rename_i hopener
      cases hnext
      exact .inr ⟨[], congrArg (· :: []) hopener, List.not_mem_nil⟩
    split at hnext
    · rename_i hblank
      cases hnext
      exact .inl ⟨rfl, fun after => .blank (by simpa using hblank)⟩
    · cases hnext
  | lineComment =>
    obtain ⟨opener, body, rfl, hopener, hbody⟩ := h
    cases hnext
    -- the end of the line closes the comment
    by_cases hcloser : c = '\n'
    · rw [if_pos hcloser, hcloser]
      exact .inl ⟨rfl, fun after => .lineComment hopener hbody⟩
    · rw [if_neg hcloser]
      refine .inr ⟨opener, body ++ [c], rfl, hopener, ?_⟩
      simpa [hbody] using Ne.symm hcloser
  | blockComment =>
    obtain ⟨body, rfl, hbody⟩ := h
    cases hnext
    -- the second `$` closes the comment
    by_cases hcloser : c = '$'
    · rw [if_pos hcloser, hcloser]
      exact .inl ⟨rfl, fun after => .blockComment hbody⟩
    · rw [if_neg hcloser]
      refine .inr ⟨body ++ [c], rfl, ?_⟩
      simpa [hbody] using Ne.symm hcloser

/-- At the end of the text, an open separator ends too. -/
theorem Begun.ends {gap : Gap} {s : List Char} (h : Begun gap s) : Stretch s [] := by
  have hopen {s : List Char} (separator : Separator s []) : Stretch s [] :=
    s.append_nil ▸ .cons separator .nil
  cases gap with
  | outside =>
    obtain rfl : s = [] := h
    exact .nil
  | lineComment =>
    obtain ⟨c, body, rfl, hopener, hbody⟩ := h
    exact hopen (.openLineComment hopener hbody)
  | blockComment =>
    obtain ⟨body, rfl, hbody⟩ := h
    exact hopen (.openBlockComment hbody)

/-- What is read on behind a begun separator makes a stretch with it. -/
theorem Begun.stretch {gap : Gap} {s : List Char} (h : Begun gap s) (text : List Char) :
    Stretch (s ++ (separators gap text).1) (separators gap text).2 := by
  induction text generalizing gap s with
  | nil =>
    show Stretch (s ++ []) []
    rw [List.append_nil]
    exact h.ends
  | cons c cs ih =>
    unfold separators
    cases hnext : gap.next c with
    | none =>
      -- only outside of comments, where nothing has begun
      cases gap with
      | outside =>
        obtain rfl : s = [] := h
        exact .nil
      | lineComment => cases hnext
      | blockComment => cases hnext
    | some gap' =>
      show Stretch (s ++ c :: (separators gap' cs).1) (separators gap' cs).2
      rw [List.append_cons]
      obtain ⟨rfl, hclosed⟩ | hbegun := h.step hnext
      · -- the stretch goes on behind the closed separator
        have hothers : Stretch ([] ++ (separators .outside cs).1) (separators .outside cs).2 :=
          ih rfl
        exact .cons (hclosed _) hothers
      · exact ih hbegun

/-- What is skipped before a token is a stretch. -/
theorem stretch_separators (text : List Char) :
    Stretch (separators .outside text).1 (separators .outside text).2 :=
  Begun.stretch (show Begun .outside [] from rfl) text

/-! ## A stretch is skipped -/

theorem separators_cons {gap gap' : Gap} {c : Char} (h : gap.next c = some gap')
    (cs : List Char) : separators gap (c :: cs) =
      (c :: (separators gap' cs).1, (separators gap' cs).2) := by
  rw [separators, h]

/-- Inside a comment, everything before the closing character belongs to it. -/
theorem separators_inside {gap : Gap} {body : List Char}
    (h : ∀ c ∈ body, gap.next c = some gap) (text : List Char) :
    separators gap (body ++ text) =
      (body ++ (separators gap text).1, (separators gap text).2) := by
  induction body with
  | nil => rfl
  | cons c cs ih =>
    rw [List.cons_append, separators_cons (h c List.mem_cons_self),
      ih fun x hmem => h x (List.mem_cons_of_mem c hmem)]
    rfl

theorem Separator.skipped {s after : List Char} (h : Separator s after) :
    separators .outside (s ++ after) =
      (s ++ (separators .outside after).1, (separators .outside after).2) := by
  have hline {body : List Char} (hbody : '\n' ∉ body) :
      ∀ c ∈ body, Gap.next .lineComment c = some .lineComment := fun c hmem =>
    congrArg some (if_neg fun heq : c = '\n' => hbody (heq ▸ hmem))
  have hblock {body : List Char} (hbody : '$' ∉ body) :
      ∀ c ∈ body, Gap.next .blockComment c = some .blockComment := fun c hmem =>
    congrArg some (if_neg fun heq : c = '$' => hbody (heq ▸ hmem))
  -- a comment of either kind, with and without its closing character
  have hopen {gap : Gap} {c : Char} {body : List Char} (hnext : Gap.next .outside c = some gap)
      (hbody : ∀ x ∈ body, gap.next x = some gap) :
      separators .outside (c :: body ++ []) = (c :: body ++ [], []) := by
    rw [List.cons_append, separators_cons hnext, separators_inside hbody]
    rfl
  have hclosed {gap : Gap} {c closer : Char} {body : List Char}
      (hnext : Gap.next .outside c = some gap) (hbody : ∀ x ∈ body, gap.next x = some gap)
      (hcloser : gap.next closer = some .outside) :
      separators .outside (c :: body ++ [closer] ++ after) =
        (c :: body ++ [closer] ++ (separators .outside after).1,
          (separators .outside after).2) := by
    rw [List.append_assoc, List.cons_append, separators_cons hnext, separators_inside hbody,
      List.singleton_append, separators_cons hcloser]
    simp
  cases h with
  | @blank c _ blank =>
    have hblanks : ∀ x ∈ [' ', '\n', '\r', '\t'], Gap.next .outside x = some .outside :=
      List.all_iff_forall_prop.1 (by decide)
    exact separators_cons (hblanks c blank) after
  | lineComment opener closer => exact hclosed (if_pos opener) (hline closer) rfl
  | openLineComment opener closer => exact hopen (if_pos opener) (hline closer)
  | blockComment closer => exact hclosed rfl (hblock closer) rfl
  | openBlockComment closer => exact hopen rfl (hblock closer)

/-- A stretch is skipped up to where the text ends or a token starts. -/
theorem Stretch.skipped {gap rest : List Char} (h : Stretch gap rest)
    (hstart : ∀ c cs, rest = c :: cs → c ∉ separatorStarts) :
    separators .outside (gap ++ rest) = (gap, rest) := by
  induction h with
  | @nil after =>
    cases after with
    | nil => rfl
    | cons c cs =>
      have hnone := (next_outside_none c).2 (hstart c cs rfl)
      rw [List.nil_append, separators, hnone]
  | cons separator _ ih => rw [List.append_assoc, separator.skipped, ih hstart]

end TriangleTam.Scan
