import TriangleTam.Proofs.Coding.Notation
import TriangleTam.Proofs.Compilation

/-! # The listing of an object program

  A listing leaves out what the notation leaves out, and still there is but
  one object file for it: the lines of a listing can be told apart, so that
  listings that agree have the same texts, and in compiled programs a text
  belongs to one instruction only.
-/

namespace TriangleTam

namespace ObjectProgram

/-! ## Lines told apart -/

/-- The listing of instructions that start at an address. -/
def listingFrom (address : Nat) : List Instruction → List Char
  | [] => []
  | i :: is =>
    (Text.padLeft 4 (Numeral.ofNat address) ++ ": ").toList ++
      (i.text.toList ++ '\n' :: listingFrom (address + 1) is)

theorem flatMap_lines (address : Nat) (is : List Instruction) :
    (((is.zipIdx address).map fun (i, address) =>
      Text.padLeft 4 (Numeral.ofNat address) ++ ": " ++ i.text).map fun line =>
        line ++ "\n").flatMap String.toList = listingFrom address is := by
  induction is generalizing address with
  | nil => rfl
  | cons i is ih =>
    rw [List.zipIdx_cons, List.map_cons, List.map_cons, List.flatMap_cons, ih, listingFrom]
    simp [String.toList_append]

theorem toList_listing (object : ObjectProgram) :
    object.listing.toList = listingFrom 0 object.instructions.toList := by
  unfold listing lines
  rw [String.toList_join, flatMap_lines]

/-- The texts of the instructions can be read off their listing. -/
theorem listingFrom_inj {address : Nat} {is js : List Instruction}
    (h : listingFrom address is = listingFrom address js) :
    is.map Instruction.text = js.map Instruction.text := by
  induction is generalizing address js with
  | nil =>
    cases js with
    | nil => rfl
    | cons j js => simp [listingFrom] at h
  | cons i is ih =>
    cases js with
    | nil => simp [listingFrom] at h
    | cons j js =>
      -- both lines start with the same address
      have hlines := List.append_cancel_left h
      obtain ⟨htext, hrest⟩ := Text.append_cons_inj i.newline_not_mem_text j.newline_not_mem_text
        hlines
      rw [List.map_cons, List.map_cons, String.toList_inj.1 htext, ih hrest]

theorem texts_eq_of_listing_eq {a b : ObjectProgram} (h : a.listing = b.listing) :
    a.instructions.toList.map Instruction.text = b.instructions.toList.map Instruction.text := by
  refine listingFrom_inj (?_ : listingFrom 0 _ = listingFrom 0 _)
  rw [← toList_listing, ← toList_listing, h]

/-- Instructions that are what their texts show are determined by these. -/
theorem eq_of_texts_eq {is js : List Instruction} (his : ∀ i ∈ is, i.shown = i)
    (hjs : ∀ j ∈ js, j.shown = j) (h : is.map Instruction.text = js.map Instruction.text) :
    is = js := by
  induction is generalizing js with
  | nil => exact (List.map_eq_nil_iff.1 h.symm).symm
  | cons i is ih =>
    cases js with
    | nil => cases h
    | cons j js =>
      obtain ⟨htext, hrest⟩ := List.cons.inj h
      obtain ⟨hi, his⟩ := List.forall_mem_cons.1 his
      obtain ⟨hj, hjs⟩ := List.forall_mem_cons.1 hjs
      have hfirst : i = j := by
        rw [← hi, ← hj]
        exact Instruction.shown_eq_of_text_eq htext
      rw [hfirst, ih his hjs hrest]

/-- Every instruction is what its text shows. -/
def Plain (object : ObjectProgram) : Prop := ∀ i ∈ object.instructions, i.shown = i

namespace Plain

variable {a b : ObjectProgram}

/-- Where nothing but the shown matters, a text belongs to one instruction. -/
theorem instruction_eq (ha : a.Plain) (hb : b.Plain) {i j : Instruction} (hi : i ∈ a.instructions)
    (hj : j ∈ b.instructions) (h : i.text = j.text) : i = j := by
  rw [← ha i hi, ← hb j hj]
  exact Instruction.shown_eq_of_text_eq h

theorem eq_of_listing_eq (ha : a.Plain) (hb : b.Plain) (h : a.listing = b.listing) : a = b := by
  have hinstructions : a.instructions.toList = b.instructions.toList := by
    refine eq_of_texts_eq (fun i hi => ha i ?_) (fun j hj => hb j ?_) (texts_eq_of_listing_eq h)
    · exact Array.mem_toList_iff.1 hi
    · exact Array.mem_toList_iff.1 hj
  obtain ⟨code⟩ := a
  obtain ⟨code'⟩ := b
  exact congrArg mk (Array.toList_inj.1 hinstructions)

end Plain

end ObjectProgram

/-! ## Compiled programs -/

/-- What the notation does not print of a compiled program follows from what it prints. -/
theorem compile_plain {text : String} {options : Options} {object : ObjectProgram}
    (h : compile text options = .ok object) : object.Plain := by
  obtain ⟨program, source, journal, s', -, -, hencoded, hquiet, hcode⟩ := compile_encoded h
  obtain ⟨lines, hlines, hwrote⟩ := hencoded.quiet hquiet
  have hstart : s'.emitter.code.toList = codeOf lines := hwrote.code
  intro i hmem
  rw [← Array.mem_toList_iff, hcode, hstart] at hmem
  rcases List.mem_append.1 hmem with hmem | hmem
  · exact hlines.plain i hmem
  · rw [List.mem_singleton.1 hmem]
    rfl

/-- The listing of a compiled program determines its object file, whatever was compiled and with
    which options: every word of an instruction that the notation does not print is a function of
    those it prints. -/
theorem compile_listing_determines {text text' : String} {options options' : Options}
    {a b : ObjectProgram} (ha : compile text options = .ok a)
    (hb : compile text' options' = .ok b) :
    (a.listing = b.listing → a.bytes = b.bytes) ∧
    ∀ i ∈ a.instructions, ∀ j ∈ b.instructions, i.text = j.text → i = j := by
  have hplain := compile_plain ha
  have hplain' := compile_plain hb
  refine ⟨fun hlisting => ?_, fun i hi j hj => hplain.instruction_eq hplain' hi hj⟩
  rw [hplain.eq_of_listing_eq hplain' hlisting]

/-- A text with a variable parameter, a routine parameter and a loop. -/
private def chosenText : String :=
  "let proc p(var x: Integer, func f(n: Integer): Integer) ~ x := f(x + 1);
       func g(n: Integer): Integer ~ n * 2; var v: Integer
   in begin v := 1; while v < 9 do p(var v, func g) end"

/-- The same program in other words: the constants are not written out. -/
private def rewordedText : String :=
  "let proc change(var y: Integer, func by(m: Integer): Integer) ~ y := by(y + 1);
       func twice(m: Integer): Integer ~ m * (1 + 1); var w: Integer
   in begin w := 3 - 2; while w < 9 do change(var w, func twice) end"

set_option maxRecDepth 2000 in
/-- Both texts compile to the same listing, the second one folded, and so to the same file. -/
theorem compile_listing_determines_sample :
    ∃ a b, compile chosenText {} = .ok a ∧ compile rewordedText { folding := true } = .ok b ∧
      a.listing = b.listing ∧ a.bytes = b.bytes := by
  have hsame : (compile chosenText {}).toOption.any (fun a =>
      (compile rewordedText { folding := true }).toOption.any fun b => decide (a = b)) = true := by
    have hchars : chosenText = String.ofList _ := rfl
    have hchars' : rewordedText = String.ofList _ := rfl
    rw [compile, Compiler.parse, Program.parse, Stream.ofText, tokenize_of_chars hchars',
      compile, Compiler.parse, Program.parse, Stream.ofText, tokenize_of_chars hchars]
    decide +kernel
  cases ha : compile chosenText {} with
  | error diagnostics =>
    rw [ha] at hsame
    cases hsame
  | ok a =>
    cases hb : compile rewordedText { folding := true } with
    | error diagnostics =>
      rw [ha, hb] at hsame
      cases hsame
    | ok b =>
      rw [ha, hb] at hsame
      have hlisting : a.listing = b.listing :=
        congrArg ObjectProgram.listing (of_decide_eq_true hsame)
      exact ⟨a, b, rfl, rfl, hlisting, (compile_listing_determines ha hb).1 hlisting⟩

end TriangleTam
