import TriangleTam.Proofs.Compilation
import TriangleTam.Proofs.Meaning.Scheme

/-! # Object code means the program

  Where a program that declares no routines ends well in the source, the
  machine comes to the halt of its object code, having exchanged the same with
  the outside, and leaves nothing on the stack. The run of the source excludes
  faults of primitives and subscripts out of bounds; of the primitives the code
  needs more only that sums and products are exact, with which it works out
  addresses.
-/

namespace TriangleTam

/-! ## The beginning of a run -/

/-- The standard bindings are represented in the end as they were in the beginning. -/
theorem Program.Encoded.keepsStandard {source program : Program} {layouts : Layouts}
    {showTable : Bool} {journal : Journal} {s' : Encoder}
    (h : program.Encoded layouts showTable journal s') (htyped : source.Typed program)
    (hfresh : layouts.Fresh) (routines : List Routine) :
    (s'.plan routines).KeepsStandard := by
  intro id declaration hat
  have hlookup : Standard.entities.lookup id = some declaration.entity := by
    have hat : Standard.declarations[id]? = some declaration := hat
    rw [Standard.lookup_entities, hat]
    rfl
  cases htyped with
  | @command _ _ _ command _ htyped =>
    -- any plan with the routines of the command will do
    let π : Plan := ⟨fun _ => none, command.routines⟩
    have hplan : command.routines ⊆ π.routines := List.Subset.refl _
    obtain ⟨_, s'', hexec, hbefore, -⟩ :=
      htyped.encodes (htyped.known Env.standard_typesIn) hplan Frame.initial _
        (Encoder.initial_ready hfresh showTable journal _ _ _)
    obtain rfl : s' = s'' := congrArg Prod.snd (h.exec.symm.trans hexec)
    exact hbefore.keeps hlookup

/-- On the empty stack the standard names are represented. -/
theorem Scene.standard_staged {π : Plan} (hπ : π.KeepsStandard) :
    Scene.standard.Staged π [] Frame.initial .empty := by
  refine ⟨rfl, .nil, fun {id meaning} hfind => ?_⟩
  obtain ⟨declaration, hat, hmeaning⟩ := Option.bind_eq_some_iff.1 hfind
  refine ⟨declaration.entity, hπ id declaration hat, ?_⟩
  unfold StandardDeclaration.entity
  cases hrep : declaration.representation with
  | value word =>
    rw [hrep] at hmeaning
    obtain rfl := Option.some.inj hmeaning
    exact .place .literal
  | primitive p =>
    rw [hrep] at hmeaning
    obtain rfl := Option.some.inj hmeaning
    exact .primitive
  | _ =>
    rw [hrep] at hmeaning
    cases hmeaning

/-! ## Whole programs -/

/-- The code of a command that ends well, with a halt behind it, is run to the halt. -/
theorem Command.Code.halts {I : Interpretation} (hI : I.Calculates) {callees : Callees} {π : Plan}
    (hπ : π.KeepsStandard) {s s' : Supply} {source command : Command} {lines : List Line}
    (h : Command.Code π Frame.initial 0 command lines)
    (htyped : Command.Typed Env.standard s source command s') (hnone : command.routines = [])
    {w : World} (hperform : (command.perform I callees .standard).exec .empty = (.ok (), w)) :
    ∃ c, Snapshot.initial.Runs I (codeOf lines ++ [.plain .halt 0 0]) c ∧
      c.Halted (codeOf lines ++ [.plain .halt 0 0]) ∧ c.stack = [] ∧ c.trace = w.trace := by
  have hcode : Installed (codeOf lines ++ [.plain .halt 0 0]) 0 (codeOf lines) :=
    List.prefix_append _ _
  obtain ⟨hfits, hruns⟩ := (h.means hI hπ htyped Env.standard_routineFree hnone).runs hcode
    (Scene.standard_staged hπ) hperform
  refine ⟨_, hruns, ⟨.plain .halt 0 0, ?_, rfl⟩, ?_, rfl⟩
  · show (codeOf lines ++ [_])[0 + lines.length]? = _
    rw [Nat.zero_add, ← length_codeOf, List.getElem?_append_right (Nat.le_refl _), Nat.sub_self]
    rfl
  · exact rfl

/-- Whatever tree is encoded, if it declares no routines, its code is run to the halt where the tree
    ends well. -/
theorem compile_halts {text : String} {options : Options} {object : ObjectProgram}
    (h : compile text options = .ok object) {program : Program}
    (hparse : Program.parse text = .ok program)
    (hnone : ((program.check .beforeCheck).program.prepared options).command.routines = [])
    {I : Interpretation} (hI : I.Calculates) {w : World}
    (hends : ((program.check .beforeCheck).program.prepared options).Ends I (.ok ()) w) :
    ∃ c, Snapshot.initial.Runs I object.instructions.toList c ∧
      c.Halted object.instructions.toList ∧ c.stack = [] ∧ c.trace = w.trace := by
  obtain ⟨program', source, journal, s', hparse', hsource, hencoded, hquiet, hobject⟩ :=
    compile_encoded h
  obtain rfl := Except.ok.inj (hparse.symm.trans hparse')
  obtain ⟨lines, hlines, hwrote⟩ := hencoded.quiet hquiet
  have hπ := hencoded.keepsStandard hsource (Layouts.fresh_standard .empty)
    ((program.check .beforeCheck).program.prepared options).command.routines
  have hcode : s'.emitter.code.toList = codeOf lines := hwrote.code
  obtain ⟨-, fuel, hrun⟩ := hends
  rw [hobject, hcode]
  -- the typing can be taken apart if the tree is a variable
  generalize (program.check .beforeCheck).program.prepared options = tree at *
  cases hsource with
  | command htyped => exact hlines.halts hI hπ htyped hnone hrun

/-- The object code of a text that is accepted, and not folded, has the meaning of the program, if
    that declares no procedure and no function. Whatever the primitives compute, as long as sums and
    products are exact, and whatever the outside answers: if the checked program ends well, so that
    no primitive faults and no subscript is out of bounds, the machine comes from the start of the
    code on the empty stack to a halt, having exchanged with the outside what the program did, and
    its stack is empty again. It halts nowhere else. -/
theorem compile_preserves_meaning {text : String} {options : Options} {object : ObjectProgram}
    (h : compile text options = .ok object) (hfolding : options.folding = false)
    {program : Program} (hparse : Program.parse text = .ok program)
    (hnone : (program.check .beforeCheck).program.command.routines = [])
    {I : Interpretation} (hI : I.Calculates) {w : World}
    (hends : (program.check .beforeCheck).program.Ends I (.ok ()) w) :
    ∃ c, Snapshot.initial.Runs I object.instructions.toList c ∧
      c.Halted object.instructions.toList ∧ c.stack = [] ∧ c.trace = w.trace ∧
      ∀ c', Snapshot.initial.Runs I object.instructions.toList c' →
        c'.Halted object.instructions.toList → c' = c := by
  have htree : (program.check .beforeCheck).program.prepared options =
      (program.check .beforeCheck).program := by
    unfold Program.prepared
    rw [hfolding]
    rfl
  rw [← htree] at hnone hends
  obtain ⟨c, hruns, hhalted, hstack, htrace⟩ := compile_halts h hparse hnone hI hends
  exact ⟨c, hruns, hhalted, hstack, htrace,
    fun c' hruns' hhalted' => hruns'.eq_of_halted hruns hhalted' hhalted⟩

/-- A machine that can add and multiply, and gets 1 for an answer to everything. -/
private def calculator : Interpretation where
  result p arguments := match p, arguments with
    | .add, [a, b] => some (a + b)
    | .mult, [a, b] => some (a * b)
    | _, _ => none
  answer _ _ _ := some 1

/-- A text that stores in an element of an array, which is found at run time. -/
private def elementText : String :=
  "let var a: array 2 of Integer; var i: Integer in
   begin getint(var i); a[i] := 7; putint(a[i] * 6) end"

/-- The code of the text reads an index and writes a product, and halts on an empty stack. -/
theorem compile_preserves_meaning_sample :
    ∃ object c, compile elementText {} = .ok object ∧
      Snapshot.initial.Runs calculator object.instructions.toList c ∧
      c.Halted object.instructions.toList ∧ c.stack = [] ∧
      c.trace = [⟨.getint, [], 1⟩, ⟨.putint, [42], 1⟩] := by
  -- the object and the run are too large to be written out here, so they are found by deciding
  have hcompiles : (compile elementText {}).isOk = true := by decide +kernel
  have hends : (Program.parse elementText).toOption.any (fun program =>
      let checked := (program.check .beforeCheck).program
      let run := checked.run calculator 1
      checked.command.routines.isEmpty && run.1.isOk &&
        run.2.trace = [⟨.getint, [], 1⟩, ⟨.putint, [42], 1⟩]) = true := by decide +kernel
  cases hcompile : compile elementText {} with
  | error diagnostics =>
    rw [hcompile] at hcompiles
    cases hcompiles
  | ok object =>
    cases hparse : Program.parse elementText with
    | error d =>
      rw [hparse] at hends
      cases hends
    | ok program =>
      rw [hparse] at hends
      simp only [Except.toOption, Option.any_some, Bool.and_eq_true, decide_eq_true_eq,
        List.isEmpty_iff] at hends
      obtain ⟨⟨hnone, hok⟩, htrace⟩ := hends
      have hrun : (program.check .beforeCheck).program.run calculator 1 =
          (.ok (), ((program.check .beforeCheck).program.run calculator 1).2) := by
        refine Prod.ext ?_ rfl
        cases houtcome : ((program.check .beforeCheck).program.run calculator 1).1 with
        | error reason =>
          rw [houtcome] at hok
          cases hok
        | ok => rfl
      obtain ⟨c, hruns, hhalted, hstack, htrace', -⟩ :=
        compile_preserves_meaning hcompile rfl hparse hnone
          (I := calculator) ⟨fun _ _ => rfl, fun _ _ => rfl⟩ ⟨nofun, 1, hrun⟩
      exact ⟨object, c, rfl, hruns, hhalted, hstack, htrace'.trans htrace⟩

end TriangleTam
