import TriangleTam.Proofs.Coding.Notes
import TriangleTam.Proofs.Compilation

/-! # Static links

  In code for a program without errors, data of another level is always an
  outer level's, and at most six static links away. So the display register
  that is asked for is always the right one: the stack base for the main
  program's data, else the register of the frame as many links out as the
  levels are apart.
-/

namespace TriangleTam

/-! ## Registers of the display -/

/-- How many static links out the frame is that the register points to. -/
def Register.links? : Register → Option Nat
  | .lb => some 0
  | .l1 => some 1
  | .l2 => some 2
  | .l3 => some 3
  | .l4 => some 4
  | .l5 => some 5
  | .l6 => some 6
  | _ => none

theorem Register.links?_display {levelsOut : Nat} (h : levelsOut ≤ Machine.maxLevelsOut) :
    (Register.display levelsOut).links? = some levelsOut := by
  have hle : levelsOut ≤ 6 := h
  match levelsOut with
  | 0 | 1 | 2 | 3 | 4 | 5 | 6 => rfl
  | _ + 7 => omega

/-- Code in a frame gets the right register for the data, without a report: the stack base for
    data of the main program, and else that of the frame which is as many links out as the
    levels are apart. -/
def Reach.Exact (reach : Reach) : Prop :=
  ∀ (frame : Frame) (e : Emitter), frame.level = reach.frame →
    (e.displayRegister frame reach.data).2 = e ∧
    ((e.displayRegister frame reach.data).1 = .sb ↔ reach.data = 0) ∧
    (reach.data ≠ 0 →
      (e.displayRegister frame reach.data).1.links? = some (reach.frame - reach.data) ∧
      reach.frame - reach.data ≤ Machine.maxLevelsOut)

/-- Near data has its exact register. -/
theorem Reach.Near.exact {reach : Reach} (h : reach.Near) : reach.Exact := by
  intro frame e hframe
  refine ⟨Reach.Near.displayRegister_eq (hframe ▸ h) e, ?_⟩
  obtain ⟨hle, hmax⟩ := h
  have hmax : reach.frame ≤ 7 := hmax
  rw [(e.displayRegister_appends frame reach.data).1, Frame.register, hframe]
  by_cases hlevel : reach.data = 0
  · rw [if_pos hlevel]
    exact ⟨⟨fun _ => hlevel, fun _ => rfl⟩, fun hne => absurd hlevel hne⟩
  · have hlinks : reach.frame - reach.data ≤ Machine.maxLevelsOut := by
      show reach.frame - reach.data ≤ 6
      omega
    have hdisplay := Register.links?_display hlinks
    rw [if_neg hlevel]
    refine ⟨⟨fun hsb => ?_, fun hzero => absurd hzero hlevel⟩, fun _ => ⟨hdisplay, hlinks⟩⟩
    rw [hsb] at hdisplay
    cases hdisplay

/-! ## The standard environment -/

/-- No standard declaration has a level. -/
theorem Standard.level?_entities {id : BindingId} {entity : Entity}
    (h : entities.lookup id = some entity) : entity.level? = none := by
  rw [lookup_entities] at h
  obtain ⟨declaration, hat, rfl⟩ := Option.map_eq_some_iff.1 h
  have hall : ∀ declaration ∈ declarations, declaration.entity.level? = none := by decide
  exact hall declaration (List.mem_of_getElem? hat)

theorem Env.standard_within {levelOf : BindingId → Nat}
    (h : ∀ id < Standard.bindings.size, levelOf id = 0) : Env.standard.Within levelOf 0 :=
  fun entry hmem => Nat.le_of_eq (h _ (Env.standard_below entry hmem))

/-- The encoder is apt before the command of a program. -/
theorem Encoder.initial_apt (layouts : Layouts) (showTable : Bool) (journal : Journal)
    (levelOf : BindingId → Nat) :
    Noted.Apt journal levelOf (.initial layouts showTable journal) := by
  refine ⟨.refl journal, fun id entity hat level hlevel => ?_⟩
  rw [Standard.level?_entities hat] at hlevel
  cases hlevel

/-! ## Programs -/

/-- In a decorated program, encoding with notes returns when encoding does, and what it notes is
    near. -/
theorem Program.Typed.noted {program decorated : Program} (h : program.Typed decorated)
    {layouts : Layouts} {showTable : Bool} {journal : Journal} {s' : Encoder}
    (hencoded : decorated.Encoded layouts showTable journal s') :
    s'.emitter.Silent journal ∧ ∃ reaches, (∀ reach ∈ reaches, reach.Near) ∧
      ((Noted.assembler.command decorated.command Frame.initial).run []).exec
        (.initial layouts showTable journal) = (.ok ((), reaches), s') := by
  cases h with
  | command htyped =>
    obtain ⟨levelOf, hstandard, hbinds⟩ := (htyped.spread Frame.initial.level).binds
    have hfits := htyped.fits (Env.standard_within hstandard) hbinds
    have hall := (htyped.known Env.standard_typesIn).mono (fun _ _ => trivial) fun _ _ => trivial
    have hlevel : Frame.initial.level ≤ Machine.maxRoutineLevel := Nat.zero_le _
    have htracks := (Noted.covers journal levelOf).command hlevel hall hfits
    rw [Encode.assembler_command] at htracks
    obtain ⟨hapt, -, hnotes⟩ := htracks (Encoder.initial_apt layouts showTable journal levelOf)
      hencoded.exec
    exact ⟨hapt.silent, hnotes []⟩

/-- After a program was checked without a report, encoding its tree, folded or not, asks for
    display registers of outer levels alone, of which there are at most seven. It gets the exact
    register each time, and never reports that data is out of reach. -/
theorem Program.links_in_reach {text : String} {program : Program}
    (hparse : Program.parse text = .ok program) {journal : Journal}
    (hclean : (program.check journal).journal.diagnostics = journal.diagnostics)
    (options : Options) (layouts : Layouts) (journal' : Journal) :
    let tree := (program.check journal).program.prepared options
    let start := Encoder.initial layouts.standard options.showTable journal'
    (∃ reaches s',
      ((Noted.assembler.command tree.command Frame.initial).run []).exec start =
        (.ok ((), reaches), s') ∧
      (Encode.command tree.command Frame.initial).exec start = (.ok (), s') ∧
      ∀ reach ∈ reaches, reach.data ≤ reach.frame ∧ reach.frame ≤ Machine.maxRoutineLevel ∧
        reach.Exact) ∧
    ∃ added, (tree.encode layouts.standard options.showTable journal').journal.diagnostics =
      journal'.diagnostics ++ added ∧ .ofRestriction Limit.displayReach.message ∉ added := by
  have htyped := Program.typed_of_check (Program.proper_of_parse hparse) hclean
  obtain ⟨source, hsource⟩ := htyped.prepared options
  obtain ⟨s', hencoded⟩ := hsource.encoded (Layouts.fresh_standard layouts) options.showTable
    journal'
  obtain ⟨hsilent, reaches, hnear, hnoted⟩ := hsource.noted hencoded
  have hfinish : s'.finish.Silent journal' := by
    unfold Encoder.finish
    split
    · exact hsilent.emitPlain.restrictAddress
    · exact hsilent.emitPlain
  refine ⟨⟨reaches, s', hnoted, hencoded.exec, fun reach hmem => ?_⟩, ?_⟩
  · exact ⟨(hnear reach hmem).1, (hnear reach hmem).2, (hnear reach hmem).exact⟩
  · rw [hencoded.encode_eq.2]
    exact hfinish

/-- A text with a function two levels deep, which reaches data of three levels. -/
private def outerRoutineText : String :=
  "let var x: Integer; proc p(y: Integer) ~ " ++
    "let func f(z: Integer): Integer ~ x + y + z in x := f(1) in p(2)"

/-- Code for the text asks for the display registers of all the levels. -/
theorem Program.links_in_reach_sample :
    ∃ program reaches s', Program.parse outerRoutineText = .ok program ∧
      ((Noted.assembler.command ((program.check .empty).program.prepared {}).command
        Frame.initial).run []).exec (.initial Layouts.empty.standard false .empty) =
          (.ok ((), reaches), s') ∧
      reaches = [⟨2, 0⟩, ⟨2, 1⟩, ⟨2, 2⟩, ⟨1, 1⟩, ⟨1, 0⟩, ⟨0, 0⟩] ∧
      ∀ reach ∈ reaches, reach.Exact := by
  have hnoted : (Program.parse outerRoutineText).toOption.any (fun program =>
      (program.check .empty).journal.diagnostics.isEmpty &&
        decide ((((Noted.assembler.command ((program.check .empty).program.prepared {}).command
          Frame.initial).run []).exec (.initial Layouts.empty.standard false .empty)).1.toOption =
            some ((), [⟨2, 0⟩, ⟨2, 1⟩, ⟨2, 2⟩, ⟨1, 1⟩, ⟨1, 0⟩, ⟨0, 0⟩]))) = true := by
    decide +kernel
  cases hok : Program.parse outerRoutineText with
  | error d =>
    rw [hok] at hnoted
    cases hnoted
  | ok program =>
    rw [hok] at hnoted
    obtain ⟨hclean, hreaches⟩ := Bool.and_eq_true_iff.1 hnoted
    obtain ⟨⟨reaches, s', hrun, -, hall⟩, -⟩ :=
      links_in_reach hok (Array.isEmpty_iff.1 hclean) {} .empty .empty
    have hreaches := of_decide_eq_true hreaches
    rw [hrun] at hreaches
    obtain rfl : reaches = _ := congrArg Prod.snd (Option.some.inj hreaches)
    exact ⟨program, _, s', rfl, hrun, rfl, fun reach hmem => (hall reach hmem).2.2⟩

end TriangleTam
