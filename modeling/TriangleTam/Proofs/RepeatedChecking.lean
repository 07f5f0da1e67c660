import TriangleTam.Proofs.Rechecking.Retyping
import TriangleTam.Proofs.RepeatedEncoding

/-! # Checking again

  Checking writes into the tree what it finds out, in the place of what was
  written there: type identifiers give way to the types that they stand for,
  and arrays and records get new serials. Folding then takes operations out.

  The tree that this leaves can be checked again, and nothing comes of it:
  no report is made, and the same bindings are, in the same order. Each name
  is linked to the binding that it had and each phrase has the type that it
  had, up to the serials of arrays and records. These are new, so that nothing
  is on record of the layouts of the types, but code does not depend on them.
-/

namespace TriangleTam

open Recast (unnumbered)

/-! ## Typing again -/

/-- The standard type identifiers stand for settled types. -/
theorem Env.standard_settled : Env.standard.NamesIn TypeDenoter.Settled := by
  intro entry hmem
  simp only [standard, entries, List.flatten_nil, List.append_nil, List.mem_reverse] at hmem
  revert entry
  simp [Standard.declarations, Standard.Shape.kind, Standard.Scalar.denoter, TypeDenoter.Settled]

/-- A decorated program is well typed, and decorated as it is, but for the serials. -/
theorem Program.Typed.again {program decorated : Program} (h : program.Typed decorated) :
    ∃ decorated₂, decorated.Typed decorated₂ ∧ decorated₂.span = decorated.span ∧
      decorated₂.command.recast unnumbered = decorated.command.recast unnumbered := by
  cases h with
  | @command command span serials command' s' htyped =>
    have hrenews : Env.standard.Renews (supply ⟨command, span, serials⟩) Env.standard
        (supply ⟨command', span, s'.denoters.length⟩) :=
      ⟨rfl, Env.standard_settled, rfl⟩
    obtain ⟨command₂, s₂', htyped₂, hsame, -⟩ := htyped.again hrenews
    exact ⟨_, .command htyped₂, rfl, hsame⟩

/-! ## Folding any number of times -/

/-- The program after constant folding ran over it so many times. -/
def Program.folded (program : Program) : Nat → Program
  | 0 => program
  | runs + 1 => ((program.folded runs).fold .empty).program

/-- Folding keeps the bindings of a decorated program. -/
theorem Program.Typed.bindings_fold {program decorated : Program} (h : program.Typed decorated)
    (journal : Journal) :
    (decorated.fold journal).program.command.bindings = decorated.command.bindings := by
  cases h with
  | command htyped =>
    exact (htyped.folds Env.keepsStandard_standard (Nat.le_refl _) 0).1

/-- However often it was folded, a decorated program is a decoration, with the same bindings. -/
theorem Program.Typed.folded {program decorated : Program} (h : program.Typed decorated)
    (runs : Nat) : (∃ source, Program.Typed source (decorated.folded runs)) ∧
      (decorated.folded runs).command.bindings = decorated.command.bindings := by
  induction runs with
  | zero => exact ⟨⟨program, h⟩, rfl⟩
  | succ runs ih =>
    obtain ⟨⟨source, hsource⟩, hbindings⟩ := ih
    exact ⟨hsource.fold .empty, (hsource.bindings_fold .empty).trans hbindings⟩

/-! ## Encoding recast programs -/

/-- The code for a decorated program does not hang on spellings, lines and serials, nor on what
    is on record of layouts, and it is the same whatever is logged and was reported. -/
theorem Program.Typed.object_recast {program decorated tree : Program}
    (h : program.Typed decorated) (f : Recast)
    (htree : tree.command = decorated.command.recast f) (layouts : Layouts) (showTable : Bool)
    (journal : Journal) :
    (tree.encode layouts showTable journal).object =
      (decorated.encode Layouts.empty.standard false .empty).object := by
  obtain ⟨s, hencoded⟩ := h.encoded (Layouts.fresh_standard .empty) false .empty
  have hall : decorated.command.All (fun _ => True) fun type => ∀ found ∈ type, True :=
    h.resolved.mono (fun _ _ => trivial) fun _ _ _ _ => trivial
  have hkeeps : f.Keeps (fun _ => True) fun _ _ => True :=
    ⟨fun _ _ => trivial, fun _ _ => trivial⟩
  have hinitial : Encoder.Twin #[] journal.diagnostics (fun _ _ => True)
      (.initial Layouts.empty.standard false .empty) (.initial layouts showTable journal) :=
    Encoder.initial_twin trivial false showTable .empty journal
  obtain ⟨s', hexec, htwin, -⟩ :=
    Encode.Twins.command hkeeps hall (Nat.zero_le _) hencoded.exec hinitial
  rw [← htree] at hexec
  obtain ⟨hobject, -, -⟩ := encode_of_exec hencoded.exec
  obtain ⟨hobject', -, -⟩ := encode_of_exec hexec
  rw [hobject, hobject', htwin.code_finish]

/-- Decorations that differ in serials alone have the same code. -/
theorem Program.Typed.object_eq {program program₂ decorated decorated₂ : Program}
    (h : program.Typed decorated) (h₂ : program₂.Typed decorated₂)
    (hsame : decorated₂.command.recast unnumbered = decorated.command.recast unnumbered)
    (layouts layouts₂ : Layouts) (showTable showTable₂ : Bool) (journal journal₂ : Journal) :
    (decorated₂.encode layouts₂ showTable₂ journal₂).object =
      (decorated.encode layouts showTable journal).object := by
  have hself := h.object_recast .same (Command.recast_same _).symm layouts showTable journal
  have hself₂ := h₂.object_recast .same (Command.recast_same _).symm layouts₂ showTable₂ journal₂
  -- the program without serials is encoded like the one and like the other
  have hunnumbered : ((decorated.recast unnumbered).encode .empty false .empty).object = _ :=
    h.object_recast unnumbered rfl .empty false .empty
  have hunnumbered₂ : ((decorated.recast unnumbered).encode .empty false .empty).object = _ :=
    h₂.object_recast unnumbered hsame.symm .empty false .empty
  rw [hself, hself₂, ← hunnumbered, ← hunnumbered₂]

/-! ## Checking again -/

/-- After a program was checked without a report, and its tree was folded any number of times,
    the tree is checked again without a report, whatever was encoded in between. The same
    bindings are made in the same order, and the tree stays as it is, its links, types and flags
    included: nothing but serials changes, and types that differ in these alone are equivalent.
    The code for the tree is the same as before. -/
theorem Program.check_again {text : String} {program : Program}
    (hparse : Program.parse text = .ok program) {journal : Journal}
    (hclean : (program.check journal).journal.diagnostics = journal.diagnostics)
    (runs : Nat) (journal₂ : Journal) :
    let checked := program.check journal
    let tree := checked.program.folded runs
    let again := tree.check journal₂
    again.journal.diagnostics = journal₂.diagnostics ∧
      again.bindings.map (Binding.recast unnumbered) =
        checked.bindings.map (Binding.recast unnumbered) ∧
      again.program.span = tree.span ∧
      again.program.command.recast unnumbered = tree.command.recast unnumbered ∧
      (tree.command.All (fun _ => True) <| Finds fun type =>
        ∀ type₂, type₂.recast unnumbered = type.recast unnumbered →
          type.equivalent type₂ = true) ∧
      ∀ (layouts layouts₂ : Layouts) (showTable showTable₂ : Bool) (journal₃ journal₄ : Journal),
        (again.program.encode layouts₂ showTable₂ journal₄).object =
          (tree.encode layouts showTable journal₃).object := by
  have htyped := typed_of_check (proper_of_parse hparse) hclean
  have hchecked := htyped.check_bindings journal
  obtain ⟨⟨source, hsource⟩, hbindings⟩ := htyped.folded runs
  dsimp only
  generalize (program.check journal).program.folded runs = tree at hsource hbindings ⊢
  obtain ⟨tree₂, hagain, hspan, hcommand⟩ := hsource.again
  obtain ⟨hprogram, hquiet, hmade⟩ := hagain.check_passes journal₂
  rw [hprogram]
  refine ⟨hquiet, ?_, hspan, hcommand, ?_, hsource.object_eq hagain hcommand⟩
  · -- the tables of the two trees are those of the trees recast
    have htable : tree₂.command.bindings.map (Binding.recast unnumbered) =
        (program.check journal).program.command.bindings.map (Binding.recast unnumbered) := by
      rw [← Command.bindings_recast, hcommand, Command.bindings_recast, hbindings]
    rw [← Array.toList_inj, Array.toList_map, Array.toList_map, hmade, hchecked, List.map_append,
      List.map_append, htable]
  · exact hsource.resolved.mono (fun _ _ => trivial)
      fun _ => Finds.mono fun _ hresolved _ => hresolved.equivalent_of_unnumbered

/-- A text with an array and an operation that folds. -/
private def arrayText : String := "let var a: array 2 of Integer in a[1] := 2 + 3"

/-- Checking the folded tree again gives new serials, and nothing else is new. -/
theorem Program.check_again_sample : ∃ program, Program.parse arrayText = .ok program ∧
    let tree := (program.check .empty).program.folded 1
    let again := tree.check .empty
    again.journal.diagnostics = #[] ∧ again.program.serials ≠ tree.serials ∧
      again.bindings.map (Binding.recast unnumbered) =
        (program.check .empty).bindings.map (Binding.recast unnumbered) ∧
      again.program.command.recast unnumbered = tree.command.recast unnumbered ∧
      (again.program.encode .empty false .empty).object =
        (tree.encode .empty false .empty).object := by
  have hruns : (Program.parse arrayText).toOption.any (fun program =>
      let tree := (program.check .empty).program.folded 1
      (program.check .empty).journal.diagnostics.isEmpty &&
        decide ((tree.check .empty).program.serials ≠ tree.serials)) = true := by
    decide +kernel
  cases hok : Program.parse arrayText with
  | error d =>
    rw [hok] at hruns
    cases hruns
  | ok program =>
    rw [hok] at hruns
    obtain ⟨hclean, hserials⟩ := Bool.and_eq_true_iff.1 hruns
    obtain ⟨hquiet, hbindings, -, hcommand, -, hobject⟩ :=
      check_again hok (Array.isEmpty_iff.1 hclean) 1 .empty
    exact ⟨program, rfl, hquiet, of_decide_eq_true hserials, hbindings, hcommand,
      hobject .empty .empty false false .empty .empty⟩

end TriangleTam
