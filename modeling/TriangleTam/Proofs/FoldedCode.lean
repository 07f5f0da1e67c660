import TriangleTam.Proofs.ExactLimits
import TriangleTam.Proofs.Folding.Trees

/-! # Code of folded programs

  Folding is an optimization: the code of a folded program has no more
  instructions. But it moves index arithmetic from run time to compile time,
  where offsets have to be words, and so a program that compiles may compile no
  longer when it is folded. This takes a subscript that is out of bounds.
-/

namespace TriangleTam

/-! ## The start of a program -/

/-- The standard environment is that of a decorated tree. -/
theorem Env.founded_standard (program : Program) : standard.Founded program.supply :=
  ⟨keepsStandard_standard, Nat.le_refl _, standard_typesIn, standard_below⟩

/-- The standard declarations are represented the same on both sides. -/
theorem Env.staged_standard (frame : Frame) :
    standard.Staged frame Standard.entities Standard.entities := by
  have hdeclarations : ∀ declaration ∈ Standard.declarations,
      declaration.shape.kind.words ≤ Word.greatest ∧ declaration.entity.level? = none := by
    decide
  intro entry hmem _
  simp only [standard, entries, List.flatten_nil, List.append_nil, List.mem_reverse,
    List.mem_map] at hmem
  obtain ⟨⟨declaration, id⟩, hmem, rfl⟩ := hmem
  have hat : Standard.declarations[id]? = some declaration := List.mem_zipIdx_iff_getElem?.1 hmem
  obtain ⟨hwords, hlevel⟩ := hdeclarations declaration (List.mem_of_getElem? hat)
  have hentity : Standard.entities.lookup id = some declaration.entity := by
    rw [Standard.lookup_entities, hat]
    rfl
  exact ⟨hwords, _, _, hentity, hentity, .same hlevel⟩

/-- Where the ideal translation of a program starts, and the encoder of its folded form. -/
def Start.program (encoder : Encoder) : Start :=
  ⟨⟨[], Standard.entities⟩, encoder, Standard.bindings.size⟩

section

variable {layouts : Layouts} {showTable : Bool} {journal : Journal}

theorem Setting.program : Setting Env.standard Standard.bindings.size
    (.program (.initial layouts showTable journal)) Frame.initial Frame.initial :=
  ⟨Nat.le_refl _, Env.standard_below, Nat.zero_le _, (by decide : 0 ≤ Word.greatest),
    ⟨rfl, Int.le_refl 0, Int.le_refl 0⟩, Env.staged_standard _⟩

/-- At the start of a program the encoder keeps pace. -/
theorem Start.Pace.program (hquiet : journal.diagnostics = #[]) (P : Prop) :
    (Start.program (.initial layouts showTable journal)).Pace P 0 ⟨[], Standard.entities⟩
      (.initial layouts showTable journal) :=
  ⟨Nat.zero_le _, Int.le_refl 0, ⟨⟨rfl, hquiet, nofun⟩, nofun⟩, .refl _ _, .refl _ _⟩

/-- The encoder of a folded program keeps pace with the ideal translation of the program up to
    the halt. -/
theorem Program.Typed.pace {P : Prop} {program decorated : Program} (h : program.Typed decorated)
    (hsteady : (Phrase.command decorated.command).Steady P) (hwithin : decorated.ideal.WithinLimits)
    (hquiet : journal.diagnostics = #[]) {s' : Encoder}
    (hencoded : (decorated.fold .empty).program.Encoded layouts showTable journal s') :
    s'.finish.code.size ≤ decorated.ideal.code.length ∧ s'.finish.Tame P := by
  cases h with
  | @command command span serials command' p' htyped =>
    -- folding eases the command, and the halt behind it is the same on both sides
    have heases : Command.Eases P Env.standard Standard.bindings.size command'
        ((Fold.command command').run 0).1 := htyped.eases (Env.founded_standard _) hsteady 0
    have hsetting : Setting Env.standard Standard.bindings.size
        (.program (.initial layouts showTable journal)) Frame.initial Frame.initial := .program
    have hmatches := (heases hsetting).bind fun _ _ _ =>
      Start.Matches.emit .halt .halt 0 .cb .cb 0 0
    have hroom := (Ideal.program ⟨command', span, p'.denoters.length⟩).room
      ⟨[], Standard.entities⟩
    have hmeets : Meets 0 (Program.ideal ⟨command', span, p'.denoters.length⟩).demands :=
      ⟨hroom.symm.trans_le hwithin.room, hwithin.met⟩
    have hexec := hencoded.exec
    rw [← Encode.assembler_command] at hexec
    obtain ⟨_, ⟨rfl, -⟩, hpace⟩ := hmatches.keeps 0 (Int.le_refl 0) (.program hquiet P)
      (Encode.exec_bind hexec) hmeets
    have hcode := hpace.code
    have htame := hpace.tame
    rw [Int.add_zero] at hcode
    have hsize := Int.ofNat_le.1 hcode
    unfold Encoder.finish
    -- the encoder ends with a report if a layout was out of range, which changes no code
    by_cases hrange : s'.outOfRange = true
    · rw [if_pos hrange, Emitter.code_restrictAddress]
      exact ⟨hsize, htame.emitter.restrictAddress (htame.cause hrange)⟩
    · rw [if_neg hrange]
      exact ⟨hsize, htame.emitter⟩

end

/-! ## Compilations -/

/-- The folded form of a program whose own translation keeps within the limits compiles to no more
    instructions, or an address is no word, and this only in the case `P`. -/
theorem compile_folding_of_within {P : Prop} {text : String} {program : Program}
    (hparse : Program.parse text = .ok program)
    (hclean : (program.check .beforeCheck).journal.clean = true)
    (hsteady : (Phrase.command (program.check .beforeCheck).program.command).Steady P)
    (hwithin : (program.check .beforeCheck).program.ideal.WithinLimits) (showTable : Bool) :
    (∃ object, compile text ⟨true, showTable⟩ = .ok object ∧
        object.size ≤ (program.check .beforeCheck).program.ideal.code.length) ∨
      compile text ⟨true, showTable⟩ = .error #[.ofRestriction Limit.word.message] ∧ P := by
  have hquiet : (program.check .beforeCheck).journal.diagnostics =
      Journal.beforeCheck.diagnostics := Array.isEmpty_iff.1 hclean
  have htyped := Program.typed_of_check (Program.proper_of_parse hparse) hquiet
  obtain ⟨journal, hjournal, hcompile⟩ := compile_of_check hparse hclean ⟨true, showTable⟩
  obtain ⟨source, hsource⟩ := htyped.prepared ⟨true, showTable⟩
  obtain ⟨s', hencoded⟩ := hsource.encoded (Layouts.fresh_standard .empty) showTable journal
  obtain ⟨hsize, htame⟩ := htyped.pace hsteady hwithin hjournal hencoded
  obtain ⟨hobject, hdiagnostics⟩ := hencoded.encode_eq
  have hreports := htame.reports
  rw [← hdiagnostics] at hreports
  dsimp only at hcompile
  -- the only thing that a tame encoder can report is an address
  by_cases hreported : s'.finish.unaddressable = true
  · refine .inr ⟨?_, htame.cause hreported⟩
    rw [if_pos hreported] at hreports
    unfold Journal.clean at hcompile
    rw [hcompile, hreports]
    rfl
  · refine .inl ⟨⟨s'.finish.code⟩, ?_, hsize⟩
    rw [if_neg hreported] at hreports
    unfold Journal.clean at hcompile
    rw [hcompile, hreports, ← hobject]
    rfl

/-- If a text compiles without folding, then with folding it compiles to a program with no more
    instructions, unless the only report is that an address is no word. Then folding makes a
    subscript of some vname a literal, and some subscript of this vname is out of bounds. -/
theorem compile_folding_of_compile {text : String} {showTable : Bool} {object : ObjectProgram}
    (h : compile text ⟨false, showTable⟩ = .ok object) (showTable' : Bool) :
    (∃ object', compile text ⟨true, showTable'⟩ = .ok object' ∧ object'.size ≤ object.size) ∨
      compile text ⟨true, showTable'⟩ = .error #[.ofRestriction Limit.word.message] ∧
        ∃ program, Program.parse text = .ok program ∧
          ∃ vname, (Phrase.command (program.check .beforeCheck).program.command).Holds
            (.vname vname) ∧ vname.Strays := by
  cases hparse : Program.parse text with
  | error d =>
    rw [compile_of_parse_error hparse] at h
    cases h
  | ok program =>
    cases hclean : (program.check .beforeCheck).journal.clean with
    | false =>
      rw [compile_of_check_error hparse hclean] at h
      cases h
    | true =>
      have hquiet : (program.check .beforeCheck).journal.diagnostics =
          Journal.beforeCheck.diagnostics := Array.isEmpty_iff.1 hclean
      obtain ⟨journal, hjournal, hcompile⟩ := compile_of_check hparse hclean ⟨false, showTable⟩
      obtain ⟨hlimits, hcode⟩ :=
        Program.limits_exact hparse hquiet ⟨false, showTable⟩ .empty hjournal
      dsimp only at hcompile hlimits hcode
      rw [hcompile] at h
      split at h
      case isFalse => cases h
      case isTrue hencoded =>
        -- without folding, the ideal translation keeps within the limits
        have hnone := Array.isEmpty_iff.1 hencoded
        have hsize := congrArg List.length (hcode hnone)
        have hsteady : (Phrase.command (program.check .beforeCheck).program.command).Steady
            (∃ vname, (Phrase.command (program.check .beforeCheck).program.command).Holds
              (.vname vname) ∧ vname.Strays) :=
          fun vname hholds hstrays => ⟨vname, hholds, hstrays⟩
        rcases compile_folding_of_within hparse hclean hsteady (hlimits.1 hnone) showTable' with
          ⟨object', hobject', hle⟩ | ⟨herror, vname, hholds, hstrays⟩
        · obtain rfl := Except.ok.inj h
          exact .inl ⟨object', hobject', hle.trans_eq hsize.symm⟩
        · exact .inr ⟨herror, program, rfl, vname, hholds, hstrays⟩

/-- A text with a constant, a subscript and a product that fold. -/
private def foldedText : String :=
  "let const c ~ 2 * 3; var a: array 8 of Integer in a[c - 1 + 1 * 2] := a[2 + 3] + 4 * c"

/-- The text compiles to 26 instructions, and folded to no more. -/
theorem compile_folding_of_compile_sample : ∃ object, compile foldedText {} = .ok object ∧
    object.size = 26 ∧ ∃ object', compile foldedText ⟨true, false⟩ = .ok object' ∧
      object'.size ≤ 26 := by
  have hsize : (compile foldedText {}).toOption.any (fun object => object.size = 26) = true := by
    decide +kernel
  have hfolded : (compile foldedText ⟨true, false⟩).toOption.isSome = true := by decide +kernel
  cases hok : compile foldedText {} with
  | error diagnostics =>
    rw [hok] at hsize
    cases hsize
  | ok object =>
    rw [hok] at hsize
    have hlength : object.size = 26 := of_decide_eq_true hsize
    rcases compile_folding_of_compile hok false with ⟨object', hok', hle⟩ | ⟨herror, -⟩
    · exact ⟨object, rfl, hlength, object', hok', hlength ▸ hle⟩
    · rw [herror] at hfolded
      cases hfolded

/-- A text with an element out of bounds, of an array so large that no offset of an element beyond
    the first three is a word. -/
private def strayText : String :=
  "let type B ~ array 30000 of array 30000 of Integer; var a: array 2 of B in " ++
    "a[2 * 3][0][0] := 1"

/-- Folding may cost a compilation. -/
theorem compile_folding_fails : ¬ ∀ text object, compile text {} = .ok object →
    ∃ object', compile text ⟨true, false⟩ = .ok object' ∧ object'.size ≤ object.size := by
  intro hall
  have hcompiles : (compile strayText {}).toOption.isSome = true := by decide +kernel
  have hfails : (compile strayText ⟨true, false⟩).toOption = none := by decide +kernel
  cases hok : compile strayText {} with
  | error diagnostics =>
    rw [hok] at hcompiles
    cases hcompiles
  | ok object =>
    obtain ⟨object', hok', -⟩ := hall strayText object hok
    rw [hok'] at hfails
    cases hfails

end TriangleTam
