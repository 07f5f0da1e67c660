import TriangleTam.Proofs.Coding.Object

/-! # Compilations

  A compilation ends in one of three ways: the text is no program, the program
  is not well typed, or code is generated for a decorated tree, folded or not.
  Each pass makes reports of its own kind, and code generation makes
  restrictions alone: it never meets a tree that checking should have ruled
  out.
-/

namespace TriangleTam

/-! ## Passes -/

/-- Checking reports errors of meaning alone. -/
theorem Program.check_gains {program : Program}
    (hproper : program.command.All TypeDenoter.Proper fun _ => True) (journal : Journal) :
    journal.Gains .semantic (program.check journal).journal := by
  obtain ⟨hgains, -⟩ := Check.command_ensures
    ⟨Standard.bindings, Standard.scopes, journal, program.serials⟩ program.command hproper
  cases hexec : (Check.command program.command).exec
      ⟨Standard.bindings, Standard.scopes, journal, program.serials⟩ with
  | mk command s =>
    rw [hexec] at hgains
    exact hgains.trans (.of_diagnostics (program.check_eq journal hexec).2.1)

/-- The tree that code is generated for. -/
def Program.prepared (program : Program) (options : Options) : Program :=
  if options.folding then (program.fold .empty).program else program

/-- Folding, where it is asked for, leaves a decorated program decorated. -/
theorem Program.Typed.prepared {program decorated : Program} (h : program.Typed decorated)
    (options : Options) : ∃ source, Program.Typed source (decorated.prepared options) := by
  unfold Program.prepared
  split
  · exact h.fold .empty
  · exact ⟨program, h⟩

/-! ## Whole compilations -/

/-- A text that is no program ends the compilation. -/
theorem compile_of_parse_error {text : String} {d : Diagnostic}
    (h : Program.parse text = .error d) (options : Options) :
    compile text options = .error #[d] := by
  unfold compile Compiler.parse
  rw [h]
  rfl

/-- The journal that checking starts with. -/
def Journal.beforeCheck : Journal :=
  (Journal.start.log .info "syntactic analysis" []).log .info "contextual analysis" []

/-- The compilation after a program was checked. -/
private def afterCheck (program : Program) (options : Options) : Compiler :=
  ⟨options, (program.check .beforeCheck).journal.log .debug "bindings created"
    [("bindings", Numeral.ofNat (program.check .beforeCheck).bindings.size)],
    Layouts.empty.standard⟩

/-- The tree that is encoded and the compilation before that. -/
private def beforeEncode (program : Program) (options : Options) : Program × Compiler :=
  let c := afterCheck program options
  let checked := (program.check .beforeCheck).program
  if options.folding then ((c.fold checked).1, (c.fold checked).2.2) else (checked, c)

private theorem compile_eq {text : String} {program : Program}
    (h : Program.parse text = .ok program) (options : Options) :
    compile text options =
      if !(program.check .beforeCheck).journal.clean then
        .error (program.check .beforeCheck).journal.diagnostics
      else
        match beforeEncode program options with
        | (tree, c) =>
          if (c.encode tree).2.clean then .ok (c.encode tree).1
          else .error (c.encode tree).2.diagnostics := by
  unfold compile Compiler.parse
  rw [h]
  rfl

/-- A program that has errors ends the compilation. -/
theorem compile_of_check_error {text : String} {program : Program}
    (h : Program.parse text = .ok program)
    (hclean : (program.check .beforeCheck).journal.clean = false) (options : Options) :
    compile text options = .error (program.check .beforeCheck).journal.diagnostics := by
  rw [compile_eq h, hclean]
  rfl

/-- Folding leaves a clean journal clean. -/
private theorem beforeEncode_eq {program : Program}
    (hclean : (program.check .beforeCheck).journal.clean = true) (options : Options) :
    (beforeEncode program options).1 = (program.check .beforeCheck).program.prepared options ∧
      (beforeEncode program options).2.journal.diagnostics = #[] ∧
      (beforeEncode program options).2.layouts = Layouts.empty.standard ∧
      (beforeEncode program options).2.options = options := by
  have hdiagnostics : (program.check .beforeCheck).journal.diagnostics = #[] :=
    Array.isEmpty_iff.1 hclean
  have hcompiler : (afterCheck program options).clean = true := hclean
  unfold beforeEncode Program.prepared
  cases hfolding : options.folding with
  | false => exact ⟨rfl, hdiagnostics, rfl, rfl⟩
  | true =>
    simp only [Compiler.fold, hcompiler, if_true]
    exact ⟨rfl, hdiagnostics, rfl, rfl⟩

/-- Code is generated for the tree that checking leaves of a program without errors. -/
theorem compile_of_check {text : String} {program : Program} (h : Program.parse text = .ok program)
    (hclean : (program.check .beforeCheck).journal.clean = true) (options : Options) :
    ∃ journal : Journal, journal.diagnostics = #[] ∧
      let encoded := ((program.check .beforeCheck).program.prepared options).encode
        Layouts.empty.standard options.showTable journal
      compile text options =
        if encoded.journal.clean then .ok encoded.object
        else .error encoded.journal.diagnostics := by
  obtain ⟨htree, hdiagnostics, hlayouts, hoptions⟩ := beforeEncode_eq hclean options
  rw [compile_eq h, hclean]
  cases hbefore : beforeEncode program options with
  | mk tree c =>
    rw [hbefore] at htree hdiagnostics hlayouts hoptions
    refine ⟨c.journal.log .info "code generation" [], hdiagnostics, ?_⟩
    rw [← htree, ← hlayouts, ← hoptions]
    rfl

/-- Every compilation ends in one of three ways. -/
theorem compile_cases (text : String) (options : Options) :
    (∃ d, d.kind = .syntactic ∧ compile text options = .error #[d]) ∨
    (∃ journal : Journal, Journal.beforeCheck.Gains .semantic journal ∧
      compile text options = .error journal.diagnostics) ∨
    ∃ program decorated journal, Program.parse text = .ok program ∧
      (program.check .beforeCheck).program = decorated ∧ program.Typed decorated ∧
      journal.diagnostics = #[] ∧
        let encoded := (decorated.prepared options).encode Layouts.empty.standard
          options.showTable journal
        compile text options =
          if encoded.journal.clean then .ok encoded.object
          else .error encoded.journal.diagnostics := by
  -- a text is refused by the parser, by the checker, or goes to the encoder
  cases hparse : Program.parse text with
  | error d => exact .inl ⟨d, Program.kind_of_parse hparse, compile_of_parse_error hparse options⟩
  | ok program =>
    have hproper := Program.proper_of_parse hparse
    cases hclean : (program.check .beforeCheck).journal.clean with
    | false =>
      exact .inr (.inl ⟨_, Program.check_gains hproper _, compile_of_check_error hparse hclean _⟩)
    | true =>
      obtain ⟨journal, hjournal, hcompile⟩ := compile_of_check hparse hclean options
      have hquiet : (program.check .beforeCheck).journal.diagnostics =
          Journal.beforeCheck.diagnostics := Array.isEmpty_iff.1 hclean
      have htyped := Program.typed_of_check hproper hquiet
      exact .inr (.inr ⟨program, _, journal, rfl, rfl, htyped, hjournal, hcompile⟩)

/-- No layout of a written denoter is on record when a program is encoded. -/
theorem Layouts.fresh_standard (layouts : Layouts) : layouts.standard.Fresh :=
  fun serial => Layouts.contains_standard layouts serial

/-- The object code of a text that is accepted is what was written for its tree, with a halt behind
    it. -/
theorem compile_encoded {text : String} {options : Options} {object : ObjectProgram}
    (h : compile text options = .ok object) :
    ∃ program source journal s', Program.parse text = .ok program ∧
      let tree := (program.check .beforeCheck).program.prepared options
      Program.Typed source tree ∧
      tree.Encoded Layouts.empty.standard options.showTable journal s' ∧ s'.Quiet ∧
      object.instructions.toList = s'.emitter.code.toList ++ [.plain .halt 0 0] := by
  rcases compile_cases text options with ⟨d, -, hcompile⟩ | ⟨journal, -, hcompile⟩ |
    ⟨program, decorated, journal, hparse, rfl, htyped, -, hcompile⟩
  · rw [hcompile] at h
    cases h
  · rw [hcompile] at h
    cases h
  · obtain ⟨source, hsource⟩ := htyped.prepared options
    obtain ⟨s', hencoded⟩ := hsource.encoded (Layouts.fresh_standard .empty) options.showTable
      journal
    dsimp only at hcompile
    rw [h] at hcompile
    split at hcompile
    · next hclean =>
      obtain rfl := Except.ok.inj hcompile
      obtain ⟨hquiet, hcode⟩ := hencoded.quiet_of_clean (Array.isEmpty_iff.1 hclean)
      exact ⟨program, source, journal, s', hparse, hsource, hencoded, hquiet, hcode⟩
    · cases hcompile

/-! ## No internal errors -/

/-- Whatever the text and the options, no compilation reports an internal error. After a program
    was checked without a report, its tree, folded or not, is encoded to the end. -/
theorem compile_internal_unreachable (text : String) (options : Options) :
    (∀ diagnostics, compile text options = .error diagnostics →
      ∀ d ∈ diagnostics, d.kind ≠ .internal) ∧
    ∀ program, Program.parse text = .ok program → ∀ journal : Journal,
      (program.check journal).journal.diagnostics = journal.diagnostics →
      ∀ (folding showTable : Bool) (layouts : Layouts) (journal' : Journal),
        ∃ s', (Encode.command ((program.check journal).program.prepared
          ⟨folding, showTable⟩).command Frame.initial).exec
            (.initial layouts.standard showTable journal') = (.ok (), s') := by
  refine ⟨?_, ?_⟩
  · intro diagnostics herror d hd
    rcases compile_cases text options with ⟨d', hkind, hcompile⟩ | ⟨journal, hgains, hcompile⟩ |
      ⟨program, decorated, journal, -, -, htyped, hclean, hcompile⟩
    · obtain rfl : #[d'] = diagnostics := Except.error.inj (hcompile.symm.trans herror)
      rw [Array.mem_singleton.1 hd, hkind]
      nofun
    · obtain rfl := Except.error.inj (hcompile.symm.trans herror)
      rw [hgains.kind_eq rfl hd]
      nofun
    · obtain ⟨source, hsource⟩ := htyped.prepared options
      obtain ⟨s', hencoded⟩ := hsource.encoded (Layouts.fresh_standard .empty) options.showTable
        journal
      dsimp only at hcompile
      rw [herror] at hcompile
      split at hcompile
      · cases hcompile
      · obtain rfl := Except.error.inj hcompile
        rw [hencoded.gains.kind_eq hclean hd]
        nofun
  · intro program hparse journal hquiet folding showTable layouts journal'
    have htyped := Program.typed_of_check (Program.proper_of_parse hparse) hquiet
    obtain ⟨source, hsource⟩ := htyped.prepared ⟨folding, showTable⟩
    obtain ⟨s', hencoded⟩ := hsource.encoded (Layouts.fresh_standard layouts) showTable journal'
    exact ⟨s', hencoded.exec⟩

/-- A text whose one command has a name that nothing declares. -/
private def undeclaredText : String := "x := 1"

/-- A text with a routine, a routine parameter and an operation that folds. -/
private def routineText : String :=
  "let proc p(func f(): Integer) ~ putint(f()); func g(): Integer ~ 1 + 2 in p(func g)"

/-- A text with an error has no internal error, and a text without one is encoded to the end. -/
theorem compile_internal_unreachable_sample :
    (∃ diagnostics, compile undeclaredText {} = .error diagnostics ∧ diagnostics.size = 1 ∧
      ∀ d ∈ diagnostics, d.kind ≠ .internal) ∧
    ∃ program s', Program.parse routineText = .ok program ∧
      (Encode.command ((program.check .empty).program.prepared ⟨true, false⟩).command
        Frame.initial).exec (.initial Layouts.empty.standard false .empty) = (.ok (), s') := by
  obtain ⟨hkinds, -⟩ := compile_internal_unreachable undeclaredText {}
  obtain ⟨-, hruns⟩ := compile_internal_unreachable routineText {}
  constructor
  · have hsize : (match compile undeclaredText {} with
      | .error diagnostics => diagnostics.size
      | .ok _ => 0) = 1 := by decide +kernel
    cases herror : compile undeclaredText {} with
    | ok object =>
      rw [herror] at hsize
      cases hsize
    | error diagnostics =>
      rw [herror] at hsize
      exact ⟨diagnostics, rfl, hsize, hkinds diagnostics herror⟩
  · have hclean : (Program.parse routineText).toOption.any (fun program =>
        (program.check .empty).journal.diagnostics.isEmpty) = true := by decide +kernel
    cases hok : Program.parse routineText with
    | error d =>
      rw [hok] at hclean
      cases hclean
    | ok program =>
      rw [hok] at hclean
      obtain ⟨s', hexec⟩ := hruns program hok .empty (Array.isEmpty_iff.1 hclean) true false .empty
        .empty
      exact ⟨program, s', rfl, hexec⟩

end TriangleTam
