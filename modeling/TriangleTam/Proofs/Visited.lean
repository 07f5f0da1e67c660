import TriangleTam.Proofs.Coding.Introduced
import TriangleTam.Proofs.Compilation

/-! # Visits of a compilation

  A text that is accepted was encoded from the command of its program on. So
  everything that holds of sound visits holds wherever the encoder came to, and
  the object code is what was written on the way.
-/

namespace TriangleTam

/-- The first call of the encoder for a program. -/
def Program.start (program : Program) (layouts : Layouts) (showTable : Bool) (journal : Journal) :
    Visit :=
  ⟨.standard, ⟨.command program.command, Frame.initial, .initial layouts showTable journal⟩⟩

/-- The first call for a decorated program is sound if the run ends quiet. -/
theorem Program.Typed.start_sound {source program : Program} (h : source.Typed program)
    {layouts : Layouts} (hfresh : layouts.Fresh) {showTable : Bool} {journal : Journal}
    {s' : Encoder} (hencoded : program.Encoded layouts showTable journal s') (hquiet : s'.Quiet) :
    ∃ made, (program.start layouts showTable journal).Sound made
      (s'.plan program.command.routines) := by
  cases h with
  | @command _ _ _ command p htyped =>
    have hknown := htyped.known Env.standard_typesIn
    have hready := Encoder.initial_ready hfresh showTable journal p.denoters
      (s'.plan command.routines) p.bindings
    have hchecked : (Phrase.command command).Checked p.denoters (s'.plan command.routines)
        Env.standard _ p := ⟨⟨_, htyped⟩, hknown, List.Subset.refl _⟩
    have hrun : ((Phrase.command command).encode Frame.initial).exec
        (.initial layouts showTable journal) = (.ok 0, s') := Encode.exec_bind hencoded.exec
    exact ⟨p.denoters, Env.standard, Context.standard_entered, ⟨_, p, hchecked, hready⟩, 0, s',
      hrun, hquiet, fun hat => hat⟩

/-- A binding in scope at one visit is that of the same item wherever it is in scope. -/
def Visit.Binds (start : Visit) : Prop :=
  ∀ first second, start.Leads first → start.Leads second →
    ∀ item ∈ first.context.items, ∀ item' ∈ second.context.items,
      item.binding? = item'.binding? → item = item'

theorem Program.Typed.start_binds {source program : Program} (h : source.Typed program)
    (layouts : Layouts) (showTable : Bool) (journal : Journal) :
    (program.start layouts showTable journal).Binds := by
  cases h with
  | command htyped =>
    intro first second hfirst hsecond item hmem item' hmem' hbinding
    exact Visit.Leads.eq_of_binding rfl rfl htyped rfl hfirst hsecond hmem hmem' hbinding

/-- How a text came to be accepted: its program was checked, and the tree encoded without a report
    from its command on. -/
structure Compilation (text : String) (options : Options) (object : ObjectProgram)
    (start : Visit) (s' : Encoder) : Prop where
  tree  : ∃ program journal, Program.parse text = .ok program ∧
    start = ((program.check .beforeCheck).program.prepared options).start Layouts.empty.standard
      options.showTable journal
  run   : (start.call.phrase.encode start.call.frame).exec start.call.encoder = (.ok 0, s')
  wrote : object.instructions.toList = s'.emitter.code.toList ++ [.plain .halt 0 0]

/-- A text that is accepted was encoded, from a sound visit on, and the routines that were planned
    are its own. -/
theorem compile_sound {text : String} {options : Options} {object : ObjectProgram}
    (h : compile text options = .ok object) :
    ∃ start s', Compilation text options object start s' ∧ start.Binds ∧
      ∃ made, start.Sound made (s'.plan start.call.phrase.routines) := by
  obtain ⟨program, source, journal, s', hparse, hsource, hencoded, hquiet, hcode⟩ :=
    compile_encoded h
  obtain ⟨made, hsound⟩ := hsource.start_sound (Layouts.fresh_standard .empty) hencoded hquiet
  exact ⟨_, s', ⟨⟨program, journal, hparse, rfl⟩, Encode.exec_bind hencoded.exec, hcode⟩,
    hsource.start_binds _ _ _, made, hsound⟩

theorem compile_visits {text : String} {options : Options} {object : ObjectProgram}
    (h : compile text options = .ok object) :
    ∃ start s', Compilation text options object start s' ∧ start.Binds ∧
      ∃ made routines, start.Sound made (s'.plan routines) := by
  obtain ⟨start, s', hcompilation, hbinds, made, hsound⟩ := compile_sound h
  exact ⟨start, s', hcompilation, hbinds, made, _, hsound⟩

end TriangleTam
