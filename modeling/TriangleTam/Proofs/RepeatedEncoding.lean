import TriangleTam.Proofs.Compilation
import TriangleTam.Proofs.Recast.Encoding

/-! # Encoding again

  A type is laid out once, and what is on record of it stays there. So a tree
  that is encoded again gets the same code, and its sizes are answered from
  the record.

  But it is laying out that shows that a size is no word, and encoding again
  does not lay out again: where nothing but the size of a type was too large,
  only the first encoding reports it. Every later one repeats the second.
-/

namespace TriangleTam

/-! ## Records of layouts -/

/-- All that is on record in one place is on record in the other. -/
def Layouts.Within (layouts layouts' : Layouts) : Prop :=
  ∀ key, layouts.contains key = true → layouts'.contains key = true

namespace Layouts.Within

theorem refl (layouts : Layouts) : layouts.Within layouts := fun _ => id

theorem trans {a b c : Layouts} (h : a.Within b) (h' : b.Within c) : a.Within c :=
  fun key hkey => h' key (h key hkey)

theorem insert (layouts : Layouts) (key : LayoutKey) : layouts.Within (layouts.insert key) := by
  intro key' hkey
  rw [Layouts.contains_insert, hkey, Bool.or_true]

end Layouts.Within

/-- Meeting a size puts nothing on record. -/
theorem LayingOut.layouts_meet (s : LayingOut) (n : Int) : (s.meet n).layouts = s.layouts := by
  unfold meet
  split <;> rfl

mutual

/-- Laying out takes nothing off the record. -/
theorem TypeDenoter.layOut_within : ∀ (type : TypeDenoter) (s : LayingOut),
    s.layouts.Within (type.layOut s).layouts
  | .boolean, s | .character, s | .integer, s => by
    unfold TypeDenoter.layOut
    split
    · exact .refl _
    · exact .insert _ _
  | .any, s | .error, s | .named .., s => .refl _
  | .array serial _ length element, s => by
    unfold TypeDenoter.layOut
    split
    · exact .refl _
    · refine (element.layOut_within s).trans ?_
      rw [← LayingOut.layouts_meet]
      exact .insert _ _
  | .record serial _ fields, s => by
    unfold TypeDenoter.layOut
    split
    · exact .refl _
    · exact (fields.layOut_within 0 s).trans (.insert _ _)

theorem Fields.layOut_within : ∀ (fields : Fields) (offset : Int) (s : LayingOut),
    s.layouts.Within (fields.layOut offset s).layouts
  | .one _ _ type, offset, s => by
    unfold Fields.layOut
    rw [LayingOut.layouts_meet]
    exact type.layOut_within s
  | .more _ _ type rest, offset, s => by
    unfold Fields.layOut
    have hrest := rest.layOut_within (Word.clamp (offset + type.size))
      ((type.layOut s).meet (offset + type.size))
    rw [LayingOut.layouts_meet] at hrest
    exact (type.layOut_within s).trans hrest

end

/-- What was laid out is on record. -/
theorem TypeDenoter.layOut_contains {type : TypeDenoter} {key : LayoutKey}
    (hkey : type.layoutKey? = some key) (s : LayingOut) :
    (type.layOut s).layouts.contains key = true := by
  cases type with
  | any | error | named => cases hkey
  | boolean | character | integer =>
    obtain rfl := Option.some.inj hkey
    unfold TypeDenoter.layOut
    split
    · assumption
    · simp [LayingOut.add]
  | array | record =>
    obtain rfl := Option.some.inj hkey
    unfold TypeDenoter.layOut
    split
    · assumption
    · simp [LayingOut.add]

/-- What is on record is not laid out again. -/
theorem TypeDenoter.layOut_of_contains {type : TypeDenoter} {s : LayingOut}
    (h : ∀ key, type.layoutKey? = some key → s.layouts.contains key = true) :
    type.layOut s = s := by
  cases type with
  | any | error | named => rfl
  | boolean | character | integer | array | record =>
    unfold TypeDenoter.layOut
    rw [if_pos (h _ rfl)]

/-! ## Tallies of two encodings -/

/-- The tallies of an encoding that ends with the record `last`, and of one that started with at
    least as much on record, namely with `start`. The second lays out nothing. So it finds
    nothing out of range but what the first does, and all of that where types are exact, or
    where the first lays out nothing either. -/
structure Tally.Later (last start : Layouts) (exact still : Prop) (t t' : Tally) : Prop where
  known : last.Within t'.layouts
  held  : still → last.Within t.layouts
  kept  : t.layouts.Within last → t'.layouts.Within start
  fewer : t.layouts.Within last → t'.outOfRange = true → t.outOfRange = true
  all   : exact ∨ still → t.layouts.Within last → t.outOfRange = true → t'.outOfRange = true

namespace Tally

variable {last start : Layouts} {exact still : Prop} {t t' : Tally}

/-- A type that is on record changes nothing. -/
theorem layOut_of_contains {type : TypeDenoter}
    (h : ∀ key, type.layoutKey? = some key → t.layouts.contains key = true) :
    t.layOut type = t := by
  unfold layOut
  rw [TypeDenoter.layOut_of_contains h, Bool.or_false]

theorem Later.meet (h : Later last start exact still t t') (n : Int) :
    Later last start exact still (t.meet n) (t'.meet n) := by
  refine ⟨h.known, h.held, h.kept, fun hwithin hrange => ?_, fun hcase hwithin hrange => ?_⟩
  · rcases Bool.or_eq_true_iff.1 hrange with hrange | hrange
    · exact Bool.or_eq_true_iff.2 (.inl (h.fewer hwithin hrange))
    · exact Bool.or_eq_true_iff.2 (.inr hrange)
  · rcases Bool.or_eq_true_iff.1 hrange with hrange | hrange
    · exact Bool.or_eq_true_iff.2 (.inl (h.all hcase hwithin hrange))
    · exact Bool.or_eq_true_iff.2 (.inr hrange)

theorem Later.layOut (h : Later last start exact still t t') {type : TypeDenoter}
    (hexact : exact → type.Exact) :
    Later last start exact still (t.layOut type) (t'.layOut type) := by
  have hgrown : t.layouts.Within (t.layOut type).layouts :=
    type.layOut_within { layouts := t.layouts }
  have hkey (hwithin : (t.layOut type).layouts.Within last) (key : LayoutKey)
      (heq : type.layoutKey? = some key) : last.contains key = true :=
    hwithin key (TypeDenoter.layOut_contains heq _)
  -- if the first encoding ends with the record `last`, the type is on record in the second
  have hsame (hwithin : (t.layOut type).layouts.Within last) : t'.layOut type = t' :=
    layOut_of_contains fun key heq => h.known key (hkey hwithin key heq)
  refine ⟨h.known.trans (type.layOut_within { layouts := t'.layouts }), fun hstill => (h.held hstill).trans hgrown,
    fun hwithin => ?_, fun hwithin hrange => ?_, fun hcase hwithin hrange => ?_⟩
  · rw [hsame hwithin]
    exact h.kept (hgrown.trans hwithin)
  · rw [hsame hwithin] at hrange
    exact Bool.or_eq_true_iff.2 (.inl (h.fewer (hgrown.trans hwithin) hrange))
  · rw [hsame hwithin]
    refine h.all hcase (hgrown.trans hwithin) ?_
    rcases hcase with hcase | hstill
    · have hrange : (t.outOfRange || (type.layOut { layouts := t.layouts }).outOfRange) = true :=
        hrange
      rwa [(hexact hcase).layOut_outOfRange, Bool.or_false] at hrange
    · rwa [layOut_of_contains fun key heq => h.held hstill key (hkey hwithin key heq)] at hrange

/-- Encoding keeps how the tallies differ. -/
theorem Later.keeps (last start : Layouts) (exact still : Prop) :
    Recast.same.Keeps (fun type => exact → type.Exact) (Later last start exact still) where
  meet n h := h.meet n
  layOut {t t' type} hexact h := by
    rw [TypeDenoter.recast_same]
    exact h.layOut hexact

end Tally

/-! ## Programs -/

/-- What encoding leaves, where it goes through. -/
theorem Program.encode_of_exec {program : Program} {layouts : Layouts} {showTable : Bool}
    {journal : Journal} {s : Encoder}
    (h : (Encode.command program.command Frame.initial).exec
      (.initial layouts showTable journal) = (.ok (), s)) :
    let encoded := program.encode layouts showTable journal
    encoded.object = ⟨s.finish.code⟩ ∧ encoded.layouts = s.layouts ∧
      encoded.journal.diagnostics = s.finish.journal.diagnostics := by
  have hrun : (Encode.command program.command Frame.initial).run.run
      (.initial layouts showTable journal) = (.ok (), s) := h
  unfold Encoder.initial at hrun
  unfold Program.encode
  simp only [hrun, true_and]
  exact ⟨rfl, rfl⟩

/-- Encoders start as twins, whatever is in their journals. -/
theorem Encoder.initial_twin {K : Tally → Tally → Prop} {layouts layouts' : Layouts}
    (htally : K ⟨layouts.withStandard, false⟩ ⟨layouts'.withStandard, false⟩)
    (showTable showTable' : Bool) (journal journal' : Journal) :
    (Encoder.initial layouts showTable journal).Twin journal.diagnostics journal'.diagnostics K
      (.initial layouts' showTable' journal') :=
  ⟨⟨rfl, .start journal journal', rfl, rfl⟩, rfl, htally⟩

/-- The report about addresses is made once, as the last report. -/
theorem Emitter.diagnostics_restrictAddress (e : Emitter) :
    e.restrictAddress.journal.diagnostics = e.journal.diagnostics ∨
      e.restrictAddress.journal.diagnostics =
        e.journal.diagnostics.push (.ofRestriction Limit.word.message) := by
  unfold restrictAddress
  split
  · exact .inl rfl
  · exact .inr rfl

/-- Twins finish with the same code. -/
theorem Encoder.Twin.code_finish {old old' : Array Diagnostic} {K : Tally → Tally → Prop}
    {s s' : Encoder} (h : s.Twin old old' K s') : s'.finish.code = s.finish.code := by
  have hhalt (s : Encoder) : s.finish.code = (s.emitter.emitPlain .halt 0 0).code := by
    unfold Encoder.finish
    split
    · exact Emitter.code_restrictAddress _
    · rfl
  rw [hhalt, hhalt]
  exact (h.emitter.emit .halt 0 .cb 0).code

/-- Twins with the same sizes out of range finish with the same reports. -/
theorem Encoder.Twin.journal_finish {old old' : Array Diagnostic} {K : Tally → Tally → Prop}
    {s s' : Encoder} (h : s.Twin old old' K s') (hrange : s'.outOfRange = s.outOfRange) :
    s.finish.journal.Twin old old' s'.finish.journal := by
  have hhalt := h.emitter.emit .halt 0 .cb 0
  unfold Encoder.finish
  rw [hrange]
  split
  · exact hhalt.restrictAddress.journal
  · exact hhalt.journal

/-- Standard types are added to what is on record. -/
theorem Layouts.within_withStandard (layouts : Layouts) : layouts.Within layouts.withStandard :=
  ((TypeDenoter.layOut_within .boolean { layouts }).trans
    (TypeDenoter.layOut_within .character { layouts := _ })).trans
      (TypeDenoter.layOut_within .integer { layouts := _ })

/-- The first of two encodings, of which the second starts with what the first left on record,
    and how the second goes. -/
theorem Program.Typed.encode_later {program decorated : Program} (h : program.Typed decorated)
    {layouts : Layouts} (exact still : Prop)
    (hexact : exact → decorated.command.All TypeDenoter.Exact
      fun type => ∀ found ∈ type, found.Exact)
    (showTable showTable' : Bool) {journal journal' : Journal}
    (hquiet : journal.diagnostics = #[]) (hquiet' : journal'.diagnostics = #[]) {s : Encoder}
    (hexec : (Encode.command decorated.command Frame.initial).exec
      (.initial layouts showTable journal) = (.ok (), s))
    (hheld : still → s.layouts.Within layouts.withStandard) :
    ∃ s', (Encode.command decorated.command Frame.initial).exec
        (.initial s.layouts showTable' journal') = (.ok (), s') ∧
      s.Twin #[] #[] (Tally.Later s.layouts s.layouts.withStandard exact still) s' := by
  have hall : decorated.command.All (fun type => exact → type.Exact)
      fun type => ∀ found ∈ type, exact → found.Exact := by
    by_cases hcase : exact
    · exact (hexact hcase).mono (fun _ hwritten _ => hwritten)
        fun _ hfound found hmem _ => hfound found hmem
    · cases h with
      | command htyped =>
        exact (htyped.known Env.standard_typesIn).mono (fun _ _ habsurd => absurd habsurd hcase)
          fun _ _ _ _ habsurd => absurd habsurd hcase
  have hlevel : Frame.initial.level ≤ Machine.maxRoutineLevel := Nat.zero_le _
  have htwins : Encode.Twins #[] #[] _ _ _ _ := Encode.Twins.command
    (Tally.Later.keeps s.layouts s.layouts.withStandard exact still) hall hlevel
  rw [Command.recast_same] at htwins
  have hstart : Tally.Later s.layouts s.layouts.withStandard exact still
      ⟨layouts.withStandard, false⟩ ⟨s.layouts.withStandard, false⟩ :=
    ⟨s.layouts.within_withStandard, hheld, fun _ => .refl _, fun _ => nofun, fun _ _ => nofun⟩
  have hinitial := Encoder.initial_twin hstart showTable showTable' journal journal'
  rw [hquiet, hquiet'] at hinitial
  obtain ⟨s', hexec', htwin, -⟩ := htwins hexec hinitial
  exact ⟨s', hexec', htwin⟩

/-- After a program was checked without a report, its tree, folded or not, is encoded with the
    same code again and again. From the second time on the reports are the same too. The first
    time may make one more: the last, that a size is no word. If all types of the tree have
    words as sizes, it does not. -/
theorem Program.encode_again {text : String} {program : Program}
    (hparse : Program.parse text = .ok program) {journal : Journal}
    (hclean : (program.check journal).journal.diagnostics = journal.diagnostics)
    (options : Options) (layouts : Layouts) {journal₁ journal₂ journal₃ : Journal}
    (hquiet₁ : journal₁.diagnostics = #[]) (hquiet₂ : journal₂.diagnostics = #[])
    (hquiet₃ : journal₃.diagnostics = #[]) :
    let tree := (program.check journal).program.prepared options
    let first := tree.encode layouts.standard options.showTable journal₁
    let second := tree.encode first.layouts options.showTable journal₂
    let third := tree.encode second.layouts options.showTable journal₃
    second.object = first.object ∧ third.object = first.object ∧
      third.journal.diagnostics = second.journal.diagnostics ∧
      (first.journal.diagnostics = second.journal.diagnostics ∨
        first.journal.diagnostics =
          second.journal.diagnostics.push (.ofRestriction Limit.word.message)) ∧
      ((tree.command.All TypeDenoter.Exact fun type => ∀ found ∈ type, found.Exact) →
        first.journal.diagnostics = second.journal.diagnostics) := by
  have htyped := Program.typed_of_check (Program.proper_of_parse hparse) hclean
  obtain ⟨source, hsource⟩ := htyped.prepared options
  dsimp only
  generalize (program.check journal).program.prepared options = tree at hsource ⊢
  generalize hexact : (tree.command.All TypeDenoter.Exact fun type => ∀ found ∈ type,
    found.Exact) = exact
  obtain ⟨s₁, hencoded⟩ := hsource.encoded (Layouts.fresh_standard layouts) options.showTable
    journal₁
  obtain ⟨s₂, hexec₂, htwin₂⟩ := hsource.encode_later exact False (fun h => hexact ▸ h)
    options.showTable options.showTable hquiet₁ hquiet₂ hencoded.exec nofun
  obtain ⟨s₃, hexec₃, htwin₃⟩ := hsource.encode_later False True nofun
    options.showTable options.showTable hquiet₂ hquiet₃ hexec₂
    fun _ => htwin₂.tally.kept (.refl _)
  obtain ⟨hobject₁, hlayouts₁, hdiagnostics₁⟩ := encode_of_exec hencoded.exec
  rw [hlayouts₁]
  obtain ⟨hobject₂, hlayouts₂, hdiagnostics₂⟩ := encode_of_exec hexec₂
  rw [hlayouts₂]
  obtain ⟨hobject₃, -, hdiagnostics₃⟩ := encode_of_exec hexec₃
  rw [hobject₁, hobject₂, hobject₃, hdiagnostics₁, hdiagnostics₂, hdiagnostics₃,
    htwin₃.code_finish, htwin₂.code_finish]
  have hrange₂ : s₂.outOfRange = true → s₁.outOfRange = true := htwin₂.tally.fewer (.refl _)
  have hrange₃ : s₃.outOfRange = s₂.outOfRange :=
    Bool.eq_iff_iff.2 ⟨htwin₃.tally.fewer (.refl _),
      htwin₃.tally.all (.inr trivial) (.refl _)⟩
  refine ⟨rfl, rfl, (htwin₃.journal_finish hrange₃).diagnostics_eq, ?_, fun hcase => ?_⟩
  · by_cases hsame : s₂.outOfRange = s₁.outOfRange
    · exact .inl (htwin₂.journal_finish hsame).diagnostics_eq.symm
    · -- the first encoding alone found a size out of range
      have hfound : s₁.outOfRange = true ∧ s₂.outOfRange = false := by
        cases hfirst : s₁.outOfRange <;> cases hsecond : s₂.outOfRange <;> simp_all
      have hhalt := (htwin₂.emitter.emit .halt 0 .cb 0).journal.diagnostics_eq
      unfold Encoder.finish
      rw [if_pos hfound.1, hfound.2]
      simp only [Bool.false_eq_true, if_false]
      rw [show (s₂.emitter.emitPlain .halt 0 0).journal.diagnostics =
        (s₁.emitter.emitPlain .halt 0 0).journal.diagnostics from hhalt]
      exact Emitter.diagnostics_restrictAddress _
  · refine (htwin₂.journal_finish (Bool.eq_iff_iff.2 ⟨hrange₂, ?_⟩)).diagnostics_eq.symm
    exact htwin₂.tally.all (.inl hcase) (.refl _)

/-- A text with a type of which no value fits into words, and nothing of that type. -/
private def oversizedText : String :=
  "let type A ~ array 30000 of array 30000 of array 3 of Integer in"

/-- The first encoding makes one report more than the second, and this is why. -/
theorem Program.encode_again_sample : ∃ program, Program.parse oversizedText = .ok program ∧
    let tree := (program.check .empty).program.prepared {}
    let first := tree.encode Layouts.empty.standard false .empty
    let second := tree.encode first.layouts false .empty
    let third := tree.encode second.layouts false .empty
    second.object = first.object ∧ third.object = first.object ∧
      third.journal.diagnostics = second.journal.diagnostics ∧
      first.journal.diagnostics =
        second.journal.diagnostics.push (.ofRestriction Limit.word.message) := by
  have hruns : (Program.parse oversizedText).toOption.any (fun program =>
      let tree := (program.check .empty).program.prepared {}
      let first := tree.encode Layouts.empty.standard false .empty
      (program.check .empty).journal.diagnostics.isEmpty &&
        (tree.encode first.layouts false .empty).journal.diagnostics.isEmpty &&
          !first.journal.diagnostics.isEmpty) = true := by
    decide +kernel
  cases hok : Program.parse oversizedText with
  | error d =>
    rw [hok] at hruns
    cases hruns
  | ok program =>
    rw [hok] at hruns
    obtain ⟨hruns, hfirst⟩ := Bool.and_eq_true_iff.1 hruns
    obtain ⟨hclean, hsecond⟩ := Bool.and_eq_true_iff.1 hruns
    have hempty : Journal.empty.diagnostics = #[] := rfl
    obtain ⟨hsame, hsame', hlater, hmore, -⟩ :=
      encode_again hok (Array.isEmpty_iff.1 hclean) {} .empty hempty hempty hempty
    refine ⟨program, rfl, hsame, hsame', hlater, hmore.resolve_left fun habsurd => ?_⟩
    rw [Bool.not_eq_true'] at hfirst
    have hquiet := habsurd.trans (Array.isEmpty_iff.1 hsecond)
    exact Bool.false_ne_true (hfirst.symm.trans (Array.isEmpty_iff.2 hquiet))

/-- Encoding again does not always report the same: the record of layouts hides a restriction. -/
theorem Program.encode_reports_differ : ∃ program, Program.parse oversizedText = .ok program ∧
    (program.check .empty).journal.diagnostics = #[] ∧
    let tree := (program.check .empty).program
    let first := tree.encode Layouts.empty.standard false .empty
    let second := tree.encode first.layouts false .empty
    first.journal.diagnostics = #[.ofRestriction Limit.word.message] ∧
      second.journal.diagnostics = #[] := by
  have hruns : (Program.parse oversizedText).toOption.any (fun program =>
      let tree := (program.check .empty).program
      let first := tree.encode Layouts.empty.standard false .empty
      (program.check .empty).journal.diagnostics.isEmpty &&
        decide (first.journal.diagnostics = #[.ofRestriction Limit.word.message]) &&
          (tree.encode first.layouts false .empty).journal.diagnostics.isEmpty) = true := by
    decide +kernel
  cases hok : Program.parse oversizedText with
  | error d =>
    rw [hok] at hruns
    cases hruns
  | ok program =>
    rw [hok] at hruns
    obtain ⟨hruns, hsecond⟩ := Bool.and_eq_true_iff.1 hruns
    obtain ⟨hclean, hfirst⟩ := Bool.and_eq_true_iff.1 hruns
    exact ⟨program, rfl, Array.isEmpty_iff.1 hclean, of_decide_eq_true hfirst,
      Array.isEmpty_iff.1 hsecond⟩

end TriangleTam
