import TriangleTam.Machine.Instruction
import TriangleTam.Proofs.Text.Numeral

/-! # Assembly notation read back

  The notation leaves words of an instruction out. Two instructions have one
  text only if they differ in such words alone: the notation is unambiguous in
  what it prints, although it prints registers and primitive routines by name.
  No text of an instruction has a newline in it.
-/

namespace TriangleTam

/-! ## Delimiters -/

/-- A text up to a character that is not in it can be told from what follows. -/
theorem Text.append_cons_inj {c : Char} {s s' t t' : List Char} (hs : c ∉ s) (hs' : c ∉ s')
    (h : s ++ c :: t = s' ++ c :: t') : s = s' ∧ t = t' := by
  induction s generalizing s' with
  | nil =>
    cases s' with
    | nil => exact ⟨rfl, (List.cons.inj h).2⟩
    | cons b s' =>
      obtain rfl : c = b := (List.cons.inj h).1
      exact absurd List.mem_cons_self hs'
  | cons a s ih =>
    cases s' with
    | nil =>
      obtain rfl : a = c := (List.cons.inj h).1
      exact absurd List.mem_cons_self hs
    | cons b s' =>
      obtain ⟨rfl, hrest⟩ := List.cons.inj h
      obtain ⟨rfl, rfl⟩ := ih (List.not_mem_of_not_mem_cons hs)
        (List.not_mem_of_not_mem_cons hs') hrest
      exact ⟨rfl, rfl⟩

/-- A word with a blank behind it is what stands before the first blank. -/
theorem Text.takeWhile_padRight {width : Nat} {word : String} (hword : ' ' ∉ word.toList)
    (hwidth : word.length < width) (rest : String) :
    (padRight width word ++ rest).toList.takeWhile (· ≠ ' ') = word.toList := by
  obtain ⟨k, hk⟩ : ∃ k, width - word.length = k + 1 := ⟨width - word.length - 1, by omega⟩
  rw [padRight, hk, String.toList_append, String.toList_append, String.toList_ofList,
    List.append_assoc, List.takeWhile_append_of_pos]
  · simp [List.replicate_succ]
  · intro c hc
    exact decide_eq_true fun heq => hword (heq ▸ hc)

/-! ## Numerals -/

namespace Numeral

theorem ofInt_inj {m n : Int} (h : ofInt m = ofInt n) : m = n := by
  have hread := toInt?_ofInt n
  rw [← h, toInt?_ofInt] at hread
  exact Option.some.inj hread

theorem isDigit_of_mem_digits {n : Nat} {c : Char} (h : c ∈ digits n) : c.isDigit = true := by
  induction n using Nat.strongRecOn with
  | ind n ih =>
    rw [digits] at h
    split at h
    · next hlt =>
      rw [List.mem_singleton.1 h]
      exact isDigit_digit hlt
    · rcases List.mem_append.1 h with h | h
      · exact ih (n / 10) (by omega) h
      · rw [List.mem_singleton.1 h]
        exact isDigit_digit (Nat.mod_lt n (by decide))

/-- A numeral has no characters but digits and the sign. -/
theorem not_mem_ofInt {c : Char} (hdigit : c.isDigit = false) (hsign : c ≠ '-') (n : Int) :
    c ∉ (ofInt n).toList := by
  intro h
  have hdigits : c ∈ digits n.natAbs := by
    unfold ofInt at h
    split at h
    · rw [String.toList_ofList] at h
      exact (List.mem_cons.1 h).resolve_left hsign
    · rwa [ofNat, String.toList_ofList] at h
  rw [isDigit_of_mem_digits hdigits] at hdigit
  cases hdigit

end Numeral

/-! ## Names -/

theorem OpCode.mnemonic_inj {op op' : OpCode} (h : op.mnemonic = op'.mnemonic) : op = op' := by
  have hall : ∀ op ∈ all, ∀ op' ∈ all, op.mnemonic = op'.mnemonic → op = op' := by decide
  exact hall op (by cases op <;> decide) op' (by cases op' <;> decide) h

theorem OpCode.blank_not_mem_mnemonic (op : OpCode) : ' ' ∉ op.mnemonic.toList := by
  cases op <;> decide

theorem OpCode.length_mnemonic_lt (op : OpCode) : op.mnemonic.length < 7 := by
  cases op <;> decide

theorem Register.name_inj {r r' : Register} (h : r.name = r'.name) : r = r' := by
  have hall : ∀ r ∈ all, ∀ r' ∈ all, r.name = r'.name → r = r' := by decide
  exact hall r (by cases r <;> decide) r' (by cases r' <;> decide) h

theorem Primitive.name_inj {p p' : Primitive} (h : p.name = p'.name) : p = p' := by
  have hall : ∀ p ∈ all, ∀ p' ∈ all, p.name = p'.name → p = p' := by decide
  exact hall p (by cases p <;> decide) p' (by cases p' <;> decide) h

theorem Register.number_of_ofNumber? {n : Int} {r : Register} (h : ofNumber? n = some r) :
    r.number = n := by
  unfold ofNumber? at h
  have hfound := List.find?_some h
  exact of_decide_eq_true hfound

theorem Primitive.displacement_of_ofDisplacement? {d : Int} {p : Primitive}
    (h : ofDisplacement? d = some p) : p.displacement = d := by
  unfold ofDisplacement? at h
  have hfound := List.find?_some h
  exact of_decide_eq_true hfound

/-- A register name is no numeral. -/
theorem Register.name_ne_ofInt (r : Register) (n : Int) : r.name ≠ Numeral.ofInt n := by
  intro h
  have hread : Numeral.toInt? r.name.toList = none := by cases r <;> rfl
  rw [h, Numeral.toInt?_ofInt] at hread
  cases hread

namespace Instruction

/-! ## Operands -/

/-- A register can be read off its text, also where the text is its number. -/
theorem registerText_inj {m n : Int} (h : registerText m = registerText n) : m = n := by
  unfold registerText at h
  cases hm : Register.ofNumber? m with
  | none =>
    rw [hm] at h
    cases hn : Register.ofNumber? n with
    | none =>
      rw [hn] at h
      exact Numeral.ofInt_inj h
    | some r' =>
      rw [hn] at h
      exact absurd h.symm (r'.name_ne_ofInt m)
  | some r =>
    rw [hm] at h
    cases hn : Register.ofNumber? n with
    | none =>
      rw [hn] at h
      exact absurd h (r.name_ne_ofInt n)
    | some r' =>
      rw [hn] at h
      rw [← Register.number_of_ofNumber? hm, ← Register.number_of_ofNumber? hn,
        Register.name_inj h]

/-- The text of a register is a name, made of letters and digits, or a numeral. -/
theorem not_mem_registerText {c : Char} (hname : c.isAlphanum = false) (hsign : c ≠ '-') (n : Int) :
    c ∉ (registerText n).toList := by
  unfold registerText
  split
  · next r _ =>
    intro h
    have hall : r.name.toList.all Char.isAlphanum = true := by cases r <;> rfl
    rw [List.all_eq_true.1 hall c h] at hname
    cases hname
  · refine Numeral.not_mem_ofInt ?_ hsign n
    rw [Char.isAlphanum, Bool.or_eq_false_iff] at hname
    exact hname.2

theorem toList_sizeText (n : Int) :
    (sizeText n).toList = '(' :: ((Numeral.ofInt n).toList ++ [')']) := by
  simp [sizeText, String.toList_append]

theorem toList_locationText (i : Instruction) :
    i.locationText.toList =
      (Numeral.ofInt i.d).toList ++ '[' :: ((registerText i.r).toList ++ [']']) := by
  simp [locationText, String.toList_append]

theorem sizeText_inj {m n : Int} (h : sizeText m = sizeText n) : m = n := by
  have hlist := congrArg String.toList h
  rw [toList_sizeText, toList_sizeText] at hlist
  exact Numeral.ofInt_inj (String.toList_inj.1 (List.append_cancel_right (List.cons.inj hlist).2))

theorem locationText_inj {i j : Instruction} (h : i.locationText = j.locationText) :
    i.d = j.d ∧ i.r = j.r := by
  have hlist := congrArg String.toList h
  rw [toList_locationText, toList_locationText] at hlist
  obtain ⟨hd, hr⟩ := Text.append_cons_inj (Numeral.not_mem_ofInt rfl (by decide) _)
    (Numeral.not_mem_ofInt rfl (by decide) _) hlist
  exact ⟨Numeral.ofInt_inj (String.toList_inj.1 hd),
    registerText_inj (String.toList_inj.1 (List.append_cancel_right hr))⟩

/-- A word in parentheses can be told from what follows it. -/
theorem sizeText_append_inj {m n : Int} {s t : String}
    (h : sizeText m ++ " " ++ s = sizeText n ++ " " ++ t) : m = n ∧ s = t := by
  have hlist := congrArg String.toList h
  simp only [String.toList_append, toList_sizeText, List.cons_append, List.append_assoc,
    List.cons.injEq, true_and] at hlist
  obtain ⟨hn, hrest⟩ := Text.append_cons_inj (Numeral.not_mem_ofInt rfl (by decide) _)
    (Numeral.not_mem_ofInt rfl (by decide) _) hlist
  exact ⟨Numeral.ofInt_inj (String.toList_inj.1 hn),
    String.toList_inj.1 (List.append_cancel_left hrest)⟩

/-! ## Calls -/

/-- The primitive routine that a call calls by name. -/
def routine? (i : Instruction) : Option Primitive :=
  if i.r = Register.pb.number then Primitive.ofDisplacement? i.d else none

theorem routine?_eq_some {i : Instruction} {p : Primitive} (h : i.routine? = some p) :
    i.r = Register.pb.number ∧ p.displacement = i.d := by
  unfold routine? at h
  split at h
  · next hr => exact ⟨hr, Primitive.displacement_of_ofDisplacement? h⟩
  · cases h

/-- A call with its static link. -/
def linkedText (i : Instruction) : String := "(" ++ registerText i.n ++ ") " ++ i.locationText

theorem operandText_call {i : Instruction} (h : i.op = .call) :
    i.operandText = i.routine?.elim i.linkedText Primitive.name := by
  unfold operandText routine?
  rw [h]
  dsimp only
  split
  · cases Primitive.ofDisplacement? i.d <;> rfl
  · rfl

theorem toList_linkedText (i : Instruction) :
    i.linkedText.toList =
      '(' :: ((registerText i.n).toList ++ ')' :: ' ' :: i.locationText.toList) := by
  simp [linkedText, String.toList_append]

theorem linkedText_inj {i j : Instruction} (h : i.linkedText = j.linkedText) :
    i.n = j.n ∧ i.d = j.d ∧ i.r = j.r := by
  have hlist := congrArg String.toList h
  rw [toList_linkedText, toList_linkedText] at hlist
  obtain ⟨hn, hrest⟩ := Text.append_cons_inj (not_mem_registerText rfl (by decide) _)
    (not_mem_registerText rfl (by decide) _) (List.cons.inj hlist).2
  exact ⟨registerText_inj (String.toList_inj.1 hn),
    locationText_inj (String.toList_inj.1 (List.cons.inj hrest).2)⟩

/-- A name does not start as a static link does. -/
theorem name_ne_linkedText (p : Primitive) (i : Instruction) : p.name ≠ i.linkedText := by
  intro h
  have hhead : p.name.toList.head? ≠ some '(' := by cases p <;> decide
  rw [h, toList_linkedText] at hhead
  exact hhead rfl

/-! ## What the notation shows -/

/-- The instruction with the words that its text leaves out as the compiler writes them. -/
def shown (i : Instruction) : Instruction :=
  match i.op with
  | .load | .store | .jumpIf => i
  | .loadA | .jump | .jumpI => { i with n := 0 }
  | .loadI | .storeI => { i with r := Register.cb.number, d := 0 }
  | .loadL | .push => { i with r := Register.cb.number, n := 0 }
  | .call => if i.routine?.isSome then { i with n := Register.sb.number } else i
  | .ret | .pop => { i with r := Register.cb.number }
  | .callI | .halt => ⟨i.op, Register.cb.number, 0, 0⟩

/-- What a text leaves out is not in it. -/
theorem text_shown (i : Instruction) : i.shown.text = i.text := by
  obtain ⟨op, r, n, d⟩ := i
  cases op with
  | call =>
    unfold shown
    dsimp only
    split
    · next hroutine =>
      unfold text
      rw [operandText_call rfl, operandText_call rfl]
      obtain ⟨p, hp⟩ := Option.isSome_iff_exists.1 hroutine
      have hp' : routine? ⟨.call, r, Register.sb.number, d⟩ = some p := hp
      rw [hp, hp']
      rfl
    · rfl
  | _ => rfl

/-- The mnemonic is what stands before the first blank. -/
theorem takeWhile_text (i : Instruction) :
    i.text.toList.takeWhile (· ≠ ' ') = i.op.mnemonic.toList := by
  unfold text
  split
  · next hop =>
    rw [hop]
    rfl
  · next hop =>
    rw [hop]
    rfl
  · exact Text.takeWhile_padRight (OpCode.blank_not_mem_mnemonic _) (OpCode.length_mnemonic_lt _) _

theorem op_eq_of_text_eq {i j : Instruction} (h : i.text = j.text) : i.op = j.op := by
  have hmnemonic := takeWhile_text j
  rw [← h, takeWhile_text] at hmnemonic
  exact OpCode.mnemonic_inj (String.toList_inj.1 hmnemonic)

theorem operandText_eq_of_text_eq {i j : Instruction} (h : i.text = j.text) :
    i.operandText = j.operandText := by
  have hop := op_eq_of_text_eq h
  unfold text at h
  rw [← hop] at h
  cases hi : i.op with
  | callI | halt =>
    unfold operandText
    rw [← hop, hi]
  | _ =>
    rw [hi] at h
    exact String.toList_inj.1 (List.append_cancel_left
      (String.toList_append.symm.trans ((congrArg String.toList h).trans String.toList_append)))

/-- Two calls that are written alike show the same. -/
theorem shown_eq_of_call {r r' n n' d d' : Int}
    (h : operandText ⟨.call, r, n, d⟩ = operandText ⟨.call, r', n', d'⟩) :
    shown ⟨.call, r, n, d⟩ = shown ⟨.call, r', n', d'⟩ := by
  rw [operandText_call rfl, operandText_call rfl] at h
  unfold shown
  dsimp only
  cases hi : routine? ⟨.call, r, n, d⟩ with
  | none =>
    cases hj : routine? ⟨.call, r', n', d'⟩ with
    | none =>
      rw [hi, hj] at h
      obtain ⟨hn, hd, hr⟩ := linkedText_inj h
      rw [show r = r' from hr, show n = n' from hn, show d = d' from hd]
    | some q =>
      rw [hi, hj] at h
      exact absurd h.symm (name_ne_linkedText q _)
  | some p =>
    cases hj : routine? ⟨.call, r', n', d'⟩ with
    | none =>
      rw [hi, hj] at h
      exact absurd h (name_ne_linkedText p _)
    | some q =>
      rw [hi, hj] at h
      -- the name tells the register and the displacement, and the link is not shown
      obtain rfl := Primitive.name_inj h
      obtain ⟨hr, hd⟩ := routine?_eq_some hi
      obtain ⟨hr', hd'⟩ := routine?_eq_some hj
      rw [show r = r' from hr.trans hr'.symm, show d = d' from hd.symm.trans hd']
      rfl

/-- The text of an instruction says everything that it shows. -/
theorem shown_eq_of_text_eq {i j : Instruction} (h : i.text = j.text) : i.shown = j.shown := by
  have hop := op_eq_of_text_eq h
  have hoperands := operandText_eq_of_text_eq h
  obtain ⟨op, r, n, d⟩ := i
  obtain ⟨op', r', n', d'⟩ := j
  obtain rfl : op = op' := hop
  cases op with
  | load | store | jumpIf =>
    obtain ⟨rfl, hlocation⟩ := sizeText_append_inj hoperands
    obtain ⟨rfl, rfl⟩ := locationText_inj hlocation
    rfl
  | loadA | jump | jumpI =>
    obtain ⟨rfl, rfl⟩ := locationText_inj hoperands
    rfl
  | loadI | storeI =>
    obtain rfl := sizeText_inj hoperands
    rfl
  | loadL | push =>
    obtain rfl := Numeral.ofInt_inj hoperands
    rfl
  | call => exact shown_eq_of_call hoperands
  | ret | pop =>
    obtain ⟨rfl, hd⟩ := sizeText_append_inj hoperands
    obtain rfl := Numeral.ofInt_inj hd
    rfl
  | callI | halt => rfl

/-- Two instructions have one text when they show the same, and only then. -/
theorem text_eq_iff {i j : Instruction} : i.text = j.text ↔ i.shown = j.shown := by
  refine ⟨shown_eq_of_text_eq, fun h => ?_⟩
  rw [← text_shown i, h, text_shown]

/-! ## Newlines -/

theorem newline_not_mem_operandText (i : Instruction) : '\n' ∉ i.operandText.toList := by
  have hint (n : Int) : '\n' ∉ (Numeral.ofInt n).toList := Numeral.not_mem_ofInt rfl (by decide) n
  have hregister (n : Int) : '\n' ∉ (registerText n).toList :=
    not_mem_registerText rfl (by decide) n
  have hsize (n : Int) : '\n' ∉ (sizeText n).toList := by
    rw [toList_sizeText]
    simp [hint]
  have hlocation : '\n' ∉ i.locationText.toList := by
    rw [toList_locationText]
    simp [hint, hregister]
  by_cases hcall : i.op = .call
  · rw [operandText_call hcall]
    cases i.routine? with
    | none =>
      show '\n' ∉ i.linkedText.toList
      rw [toList_linkedText]
      simp [hregister, hlocation]
    | some p =>
      show '\n' ∉ p.name.toList
      cases p <;> decide
  · unfold operandText
    cases hop : i.op with
    | call => exact absurd hop hcall
    | _ => simp [String.toList_append, hint, hsize, hlocation]

/-- The text of an instruction is a line. -/
theorem newline_not_mem_text (i : Instruction) : '\n' ∉ i.text.toList := by
  have hmnemonic : '\n' ∉ i.op.mnemonic.toList := by cases i.op <;> decide
  unfold text
  split
  · exact hmnemonic
  · exact hmnemonic
  · simp [Text.padRight, String.toList_append, hmnemonic, newline_not_mem_operandText]

end Instruction

end TriangleTam
