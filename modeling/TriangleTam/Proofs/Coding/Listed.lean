import TriangleTam.Proofs.Coding.Visits

/-! # Visits among the calls

  The calls of a run are listed in the order in which the encoder makes them,
  and visits come one from the other. Both tell of the same run: whatever the
  encoder comes to from a phrase is among the calls that are listed for it.
-/

namespace TriangleTam

/-! ## Calls after steps -/

namespace Encode

variable {α β : Type} {m : Encode α} {s : Encoder}

@[simp] theorem after_pure (a : α) (s : Encoder) (calls : α → Encoder → List Call) :
    after (pure a) s calls = calls a s := rfl

@[simp] theorem after_bind (m : Encode α) (f : α → Encode β) (s : Encoder)
    (calls : β → Encoder → List Call) :
    after (m >>= f) s calls = after m s fun a s => after (f a) s calls := by
  unfold after
  rw [exec_bind_eq]
  cases m.exec s with
  | mk outcome s' => cases outcome <;> rfl

theorem after_subset {calls calls' : α → Encoder → List Call}
    (h : ∀ a s, calls a s ⊆ calls' a s) : after m s calls ⊆ after m s calls' := by
  unfold after
  cases m.exec s with
  | mk outcome s' =>
    cases outcome with
    | ok a => exact h a s'
    | error d => exact List.Subset.refl _

end Encode

open Encode (after after_subset)

/-! ## Calls of parts -/

/-- The calls that encoding a phrase makes, without its own. -/
def Phrase.inner (frame : Frame) (s : Encoder) : Phrase → List Call
  | .command phrase => phrase.inner frame s
  | .expression phrase => phrase.inner frame s
  | .arrayAggregate phrase => phrase.inner frame s
  | .recordAggregate phrase => phrase.inner frame s
  | .vname phrase => phrase.inner frame s
  | .declaration phrase => phrase.inner frame s
  | .actuals phrase => phrase.inner frame s
  | .actual phrase => phrase.inner frame s

/-- The calls that encoding a phrase makes, its own first. -/
def Phrase.listed (phrase : Phrase) (frame : Frame) (s : Encoder) : List Call :=
  phrase.calls frame s (phrase.inner frame s)

/-- The calls for the part are among the calls. -/
def Part.Listed (calls : List Call) (frame : Frame) (s : Encoder) (part : Part) : Prop :=
  part.meets frame → after (part.reach frame) s part.phrase.listed ⊆ calls

namespace Part.Listed

variable {calls : List Call} {frame : Frame} {s : Encoder} {phrase : Phrase} {part : Part}

theorem inside {reach : Frame → Encode Frame} (h : after (reach frame) s phrase.listed ⊆ calls) :
    (Part.inside phrase reach).Listed calls frame s := fun _ => h

theorem first (h : phrase.listed frame s ⊆ calls) : (Part.first phrase).Listed calls frame s :=
  fun _ => h

theorem sized {type : Option TypeDenoter} {span : Span} {calls : Encoder → List Call}
    (h : ∀ s, part.Listed (calls s) frame s) :
    (part.sized type span).Listed (after (Encode.sizeOf? type span) s fun _ s => calls s) frame
      s := by
  intro hmeets
  show after (Encode.sizeOf? type span >>= fun _ => part.reach frame) s part.phrase.listed ⊆ _
  rw [Encode.after_bind]
  exact after_subset fun _ s => h s hmeets

theorem all_sized {type : Option TypeDenoter} {span : Span} {parts : List Part}
    {calls : Encoder → List Call} (h : ∀ s, ∀ part ∈ parts, part.Listed (calls s) frame s) :
    ∀ part ∈ parts.map (Part.sized type span),
      part.Listed (after (Encode.sizeOf? type span) s fun _ s => calls s) frame s := by
  intro part hmem
  obtain ⟨part', hmem', rfl⟩ := List.mem_map.1 hmem
  exact sized fun s => h s part' hmem'

theorem pair {first second : Phrase} {opening : Opening} :
    ∀ part ∈ Part.pair first second opening, part.Listed
      (first.listed frame s ++ after (first.encode frame) s fun n s =>
        after (Encode.grow frame n) s second.listed) frame s := by
  intro part hmem
  simp only [Part.pair, List.mem_cons, List.not_mem_nil, or_false] at hmem
  rcases hmem with rfl | rfl
  · exact .first (List.subset_append_left _ _)
  · intro _
    rw [Encode.after_bind]
    exact List.subset_append_right _ _

theorem branches {condition : Expression} {thenPhrase elsePhrase : Phrase}
    {encodeThen : Frame → Encode Unit} :
    ∀ part ∈ Part.branches condition thenPhrase elsePhrase encodeThen, part.Listed
      ((Phrase.expression condition).listed frame s ++
        after (Encode.expression condition frame) s fun _ s =>
        after (Encode.emitForward .jumpIf Machine.falseRep) s fun toElse s =>
        thenPhrase.listed frame s ++
        after (encodeThen frame) s fun _ s =>
        after (Encode.emitForward .jump 0) s fun _ s =>
        after (Encode.patch toElse) s fun _ s => elsePhrase.listed frame s) frame s := by
  intro part hmem
  simp only [Part.branches, List.mem_cons, List.not_mem_nil, or_false] at hmem
  rcases hmem with rfl | rfl | rfl
  · exact .first (List.subset_append_left _ _)
  · refine .inside (List.subset_append_of_subset_right _ ?_)
    simp only [Encode.after_bind, Encode.after_pure]
    exact after_subset fun _ _ => after_subset fun _ _ => List.subset_append_left _ _
  · refine .inside (List.subset_append_of_subset_right _ ?_)
    simp only [Encode.after_bind, Encode.after_pure]
    exact after_subset fun _ _ => after_subset fun _ _ => List.subset_append_right _ _

end Part.Listed

/-! ## Phrases -/

section

variable {frame : Frame} {s : Encoder} {part : Part}

theorem Command.parts_listed :
    ∀ command : Command, part ∈ command.parts → part.Listed (command.inner frame s) frame s
  | .empty _, hmem => absurd hmem List.not_mem_nil
  | .assign .., hmem => Part.Listed.pair part hmem
  | .call .., hmem => by
    obtain rfl := List.mem_singleton.1 hmem
    exact .first (List.Subset.refl _)
  | .sequence .., hmem => by
    simp only [parts, List.mem_cons, List.not_mem_nil, or_false] at hmem
    rcases hmem with rfl | rfl
    · exact .first (List.subset_append_left _ _)
    · refine .inside (List.subset_append_of_subset_right _ ?_)
      rw [Encode.after_bind]
      exact List.Subset.refl _
  | .letIn .., hmem => Part.Listed.pair part hmem
  | .ifElse .., hmem => Part.Listed.branches part hmem
  | .whileDo .., hmem => by
    simp only [parts, List.mem_cons, List.not_mem_nil, or_false] at hmem
    rcases hmem with rfl | rfl
    · refine .inside ?_
      rw [Encode.after_bind]
      exact after_subset fun _ _ => List.subset_append_left _ _
    · refine .inside ?_
      simp only [Encode.after_bind, Encode.after_pure]
      exact after_subset fun _ _ => List.subset_append_right _ _
  | .repeatUntil .., hmem => by
    simp only [parts, List.mem_cons, List.not_mem_nil, or_false] at hmem
    rcases hmem with rfl | rfl
    · exact .first (List.subset_append_left _ _)
    · refine .inside (List.subset_append_of_subset_right _ ?_)
      rw [Encode.after_bind]
      exact List.Subset.refl _
  | .loopWhile .., hmem => by
    simp only [parts, List.mem_cons, List.not_mem_nil, or_false] at hmem
    rcases hmem with rfl | rfl | rfl
    · exact .first (List.subset_append_left _ _)
    · refine .inside (List.subset_append_of_subset_right _ ?_)
      rw [Encode.after_bind]
      exact after_subset fun _ _ => List.subset_append_left _ _
    · refine .inside (List.subset_append_of_subset_right _ ?_)
      simp only [Encode.after_bind, Encode.after_pure]
      exact after_subset fun _ _ => List.subset_append_right _ _

theorem Expression.parts_listed :
    ∀ expression : Expression, part ∈ expression.parts →
      part.Listed (expression.inner frame s) frame s
  | .integer .., hmem | .character .., hmem => absurd hmem List.not_mem_nil
  | .vname .., hmem | .call .., hmem | .unary .., hmem | .array .., hmem | .record .., hmem => by
    obtain rfl := List.mem_singleton.1 hmem
    exact .sized fun _ => .first (List.Subset.refl _)
  | .ifElse .., hmem => by
    refine Part.Listed.all_sized (fun s part hmem => ?_) part hmem
    have hlisted : part.Listed _ frame s := Part.Listed.branches part hmem
    simp only [Encode.after_bind, Encode.after_pure] at hlisted
    exact hlisted
  | .letIn .., hmem | .binary .., hmem =>
    Part.Listed.all_sized (fun _ part hmem => Part.Listed.pair part hmem) part hmem

theorem Vname.parts_listed :
    ∀ vname : Vname, part ∈ vname.parts → part.Listed (vname.inner frame s) frame s
  | .simple .., hmem => absurd hmem List.not_mem_nil
  | .dot .., hmem => by
    obtain rfl := List.mem_singleton.1 hmem
    exact .first (List.Subset.refl _)
  | .subscript _ _ _ _ index, hmem => by
    rcases List.mem_cons.1 hmem with rfl | hmem
    · exact .first (List.subset_append_left _ _)
    · by_cases hindex : index.integerValue?.isSome = true
      · rw [if_pos hindex] at hmem
        exact absurd hmem List.not_mem_nil
      · rw [if_neg hindex] at hmem
        obtain rfl := List.mem_singleton.1 hmem
        refine .inside (List.subset_append_of_subset_right _ ?_)
        simp only [Encode.after_bind, if_neg hindex]
        exact List.Subset.refl _

/-- The body of a routine, where routines are not nested too deeply. -/
theorem Part.Listed.body {routine : Declaration} {name : Name} {parameters : Formals}
    {phrase : Phrase} : (Part.bodyOf routine name parameters phrase).Listed
      (Encode.routineCalls name parameters frame s phrase.listed) frame s := by
  intro hmeets
  have hlevel : ¬ frame.level ≥ Machine.maxRoutineLevel := Nat.not_le.2 hmeets
  show after (Encode.enterBody name parameters frame) s phrase.listed ⊆ _
  unfold Encode.enterBody Encode.routineCalls
  simp only [Encode.after_bind, Encode.after_pure, if_neg hlevel]
  exact List.Subset.refl _

theorem Declaration.parts_listed :
    ∀ declaration : Declaration, part ∈ declaration.parts →
      part.Listed (declaration.inner frame s) frame s
  | .var .., hmem | .type .., hmem => absurd hmem List.not_mem_nil
  | .const _ _ _ value, hmem => by
    by_cases hvalue : value.literalValue?.isSome = true
    · rw [parts, if_pos hvalue] at hmem
      exact absurd hmem List.not_mem_nil
    · rw [parts, if_neg hvalue] at hmem
      obtain rfl := List.mem_singleton.1 hmem
      rw [inner, if_neg hvalue]
      exact .first (List.Subset.refl _)
  | .proc .., hmem | .func .., hmem => by
    obtain rfl := List.mem_singleton.1 hmem
    exact .body
  | .sequence .., hmem => Part.Listed.pair part hmem

/-- The calls for a part are among those for the whole phrase. -/
theorem Phrase.parts_listed {phrase : Phrase} (hmem : part ∈ phrase.parts) :
    part.Listed (phrase.inner frame s) frame s := by
  cases phrase with
  | command phrase => exact phrase.parts_listed hmem
  | expression phrase => exact phrase.parts_listed hmem
  | vname phrase => exact phrase.parts_listed hmem
  | declaration phrase => exact phrase.parts_listed hmem
  | arrayAggregate phrase =>
    cases phrase with
    | one =>
      obtain rfl := List.mem_singleton.1 hmem
      exact .first (List.Subset.refl _)
    | more => exact Part.Listed.pair part hmem
  | recordAggregate phrase =>
    cases phrase with
    | one =>
      obtain rfl := List.mem_singleton.1 hmem
      exact .first (List.Subset.refl _)
    | more => exact Part.Listed.pair part hmem
  | actuals phrase =>
    cases phrase with
    | empty => exact absurd hmem List.not_mem_nil
    | one =>
      obtain rfl := List.mem_singleton.1 hmem
      exact .first (List.Subset.refl _)
    | more => exact Part.Listed.pair part hmem
  | actual phrase =>
    cases phrase with
    | const | var =>
      obtain rfl := List.mem_singleton.1 hmem
      exact .first (List.Subset.refl _)
    | proc | func => exact absurd hmem List.not_mem_nil

end

/-! ## Visits -/

/-- All calls for the phrase of a visit are listed at the visit that it comes from. -/
theorem Visit.Leads.listed_subset {start visit : Visit} (h : start.Leads visit) :
    visit.call.phrase.listed visit.call.frame visit.call.encoder ⊆
      start.call.phrase.listed start.call.frame start.call.encoder := by
  induction h with
  | refl => exact List.Subset.refl _
  | @part visit part frame s _ hpart hmeets hrun ih =>
    have hlisted : part.Listed _ visit.call.frame visit.call.encoder := Phrase.parts_listed hpart
    have hsubset := hlisted hmeets
    rw [Encode.after_eq hrun] at hsubset
    exact fun _ hmem => ih (List.mem_cons_of_mem _ (hsubset hmem))

/-- The call of every visit is listed at the start. -/
theorem Visit.Leads.mem_listed {start visit : Visit} (h : start.Leads visit) :
    visit.call ∈ start.call.phrase.listed start.call.frame start.call.encoder :=
  h.listed_subset List.mem_cons_self

end TriangleTam
