import TriangleTam.Proofs.Coding.Passing
import TriangleTam.Proofs.Coding.Separation

/-! # Arguments and parameters

  A call pushes its arguments one after the other, so each lies above the words
  of those before it. A routine has its parameters below its link data, the
  last one next to it. The routines in scope are those of declarations that the
  encoder came to, so the parameters of whatever is called have such places.
-/

namespace TriangleTam

variable {made : List TypeDenoter} {π : Plan}

/-! ## Arguments -/

/-- From the visit the encoder comes to each of the arguments, above the words of those before it,
    and it returns the size of the argument. -/
structure Visit.Pushes (visit : Visit) (args : Actuals) (sizes : List Int) : Prop where
  count : args.list.length = sizes.length
  each  : ∀ {i : Nat} {actual : Actual}, args.list[i]? = some actual → ∃ n s s',
    sizes[i]? = some n ∧
    visit.Leads ⟨visit.context, ⟨.actual actual, visit.call.frame.more (sizes.take i).sum, s⟩⟩ ∧
    (Encode.actual actual (visit.call.frame.more (sizes.take i).sum)).exec s = (.ok n, s')

theorem Visit.Leads.trans {first second third : Visit} (h : first.Leads second)
    (h' : second.Leads third) : first.Leads third := by
  induction h' with
  | refl => exact h
  | part _ hpart hmeets hrun ih => exact .part ih hpart hmeets hrun

theorem Frame.more_more (frame : Frame) (n m : Int) : (frame.more n).more m = frame.more (n + m) :=
  congrArg (Frame.mk frame.level) (Int.add_assoc _ _ _)

namespace Visit.Pushes

variable {context : Context} {frame : Frame} {span : Span} {first : Actual} {rest : Actuals}
  {s s₁ s₂ : Encoder} {n : Int} {sizes : List Int}

theorem one (hrun : (Encode.actual first frame).exec s = (.ok n, s₁)) :
    (⟨context, ⟨.actuals (.one span first), frame, s⟩⟩ : Visit).Pushes (.one span first) [n] := by
  refine ⟨rfl, fun {i actual} hat => ?_⟩
  cases i with
  | zero =>
    obtain rfl := Option.some.inj hat
    refine ⟨n, s, s₁, rfl, ?_, ?_⟩
    · rw [List.take_zero, List.sum_nil, Frame.more_zero]
      exact Visit.leads_part (.first (.actual first)) (List.mem_singleton_self _) trivial rfl
    · rw [List.take_zero, List.sum_nil, Frame.more_zero]
      exact hrun
  | succ i => cases hat

theorem more (hrun : (Encode.actual first frame).exec s = (.ok n, s₁))
    (hgrow : (Encode.grow frame n).exec s₁ = (.ok (frame.more n), s₂))
    (hrest : (⟨context, ⟨.actuals rest, frame.more n, s₂⟩⟩ : Visit).Pushes rest sizes) :
    (⟨context, ⟨.actuals (.more span first rest), frame, s⟩⟩ : Visit).Pushes
      (.more span first rest) (n :: sizes) := by
  refine ⟨congrArg (· + 1) hrest.count, fun {i actual} hat => ?_⟩
  cases i with
  | zero =>
    obtain rfl := Option.some.inj hat
    refine ⟨n, s, s₁, rfl, ?_, ?_⟩
    · rw [List.take_zero, List.sum_nil, Frame.more_zero]
      exact Visit.leads_part (.first (.actual first)) List.mem_cons_self trivial rfl
    · rw [List.take_zero, List.sum_nil, Frame.more_zero]
      exact hrun
  | succ i =>
    -- what the rest leads to, the whole leads to through its second part
    obtain ⟨m, s₃, s₄, hsize, hleads, hactual⟩ := hrest.each hat
    have hsum : frame.more ((n :: sizes).take (i + 1)).sum =
        (frame.more n).more (sizes.take i).sum := by
      rw [List.take_succ_cons, List.sum_cons, Frame.more_more]
    refine ⟨m, s₃, s₄, hsize, ?_, ?_⟩
    · rw [hsum]
      refine .trans ?_ hleads
      exact Visit.leads_part
        ⟨.actuals rest, .same, fun frame => do Encode.grow frame (← Encode.actual first frame),
          fun _ => True⟩ (List.mem_cons_of_mem _ List.mem_cons_self) trivial
        ((Encode.exec_bind hrun).trans hgrow)
    · rw [hsum]
      exact hactual

end Visit.Pushes

theorem Actuals.Typed.pushes {Γ : Env} {source args : Actuals} {shapes : Signature} :
    ∀ {p p' : Supply}, Actuals.Typed Γ p source shapes args p' →
      (Phrase.actuals args).Known made → args.routines ⊆ π.routines →
      ∀ (context : Context) (frame : Frame) (s : Encoder),
        s.Ready made π Γ (Set.Ico p.bindings p'.bindings) →
        (Encode.actuals args frame).Does made (Set.Ico p.bindings p'.bindings) s fun _ s' =>
          s'.Final π → (⟨context, ⟨.actuals args, frame, s⟩⟩ : Visit).Pushes args
            (shapes.map FormalShape.words)
  | _, _, .empty, _, _, context, frame, s, _ => by
    unfold Encode.actuals
    exact .pure fun _ => ⟨rfl, fun hat => by cases hat⟩
  | _, _, .one hfirst, hknown, hplan, context, frame, s, hready => by
    unfold Encode.actuals
    refine (hfirst.encodes hknown hplan frame s hready).mono subset_rfl ?_
    intro n s₁ hrun _ hyields hfinal
    obtain ⟨_, ⟨rfl, _⟩, _⟩ := hyields hfinal
    exact .one hrun
  | _, _, .more hfirst hrest, ⟨hknown₁, hknown₂⟩, hplan, context, frame, s, hready => by
    obtain ⟨hplan₁, hplan₂⟩ := List.append_subset.1 hplan
    have hlo := hfirst.before.bindings
    have hhi := hrest.before.bindings
    unfold Encode.actuals
    refine (hfirst.encodes hknown₁ hplan₁ frame s (hready.front hhi)).bind
      (Set.Ico_subset_Ico_right hhi) ?_
    intro n₁ s₁ hrun₁ hbefore₁ hyields₁
    refine (Encode.grow_does frame n₁).step ?_
    intro frame' s₂ hrun₂ hbefore₂ ⟨_, hframe⟩
    have hready₂ := (hready.back hbefore₁ hlo).step hbefore₂
    refine (hrest.pushes hknown₂ hplan₂ context frame' s₂ hready₂).bind
      (Set.Ico_subset_Ico_left hlo) ?_
    intro n₂ s₃ _ hbefore₃ hpushes
    refine (Encode.word_does (n₁ + n₂)).last ?_
    intro n s₄ _ hbefore₄ _ hfinal
    -- what is final at the end was final all along, so no step reported anything
    have hfinal₃ := hbefore₄.final hfinal
    have hfinal₂ := hbefore₃.final hfinal₃
    obtain rfl : frame' = frame.more n₁ := hframe hfinal₂.quiet
    obtain ⟨_, ⟨rfl, _⟩, _⟩ := hyields₁ (hbefore₂.final hfinal₂)
    exact .more hrun₁ hrun₂ (hpushes hfinal₃)

/-! ## Parameters -/

theorem Formals.words_eq_sum (formals : Formals) :
    formals.words = (formals.list.map Formal.words).sum := by
  cases formals with
  | empty => rfl
  | one _ first => exact (Int.add_zero _).symm
  | more _ first rest =>
    rw [words, rest.words_eq_sum, list, List.map_cons, List.sum_cons]

/-- Each parameter lies below the words of those after it. -/
theorem Formals.Placed.at {level : Nat} {below : Int} {formal : Formal} :
    ∀ {formals : Formals} {i : Nat}, formals.Placed π level below →
      formals.list[i]? = some formal →
      formal.Placed π level (below + ((formals.list.drop (i + 1)).map Formal.words).sum)
  | .empty _, _, _, hat => by cases hat
  | .one _ first, 0, h, hat => by
    obtain rfl := Option.some.inj hat
    show first.Placed π level (below + 0)
    rw [Int.add_zero]
    exact h
  | .more _ first rest, 0, ⟨hfirst, _⟩, hat => by
    obtain rfl := Option.some.inj hat
    rw [rest.words_eq_sum] at hfirst
    exact hfirst
  | .more _ _ rest, i + 1, ⟨_, hrest⟩, hat => by
    have hrest : rest.Placed π level below := hrest
    exact hrest.at hat

/-- Counted from the link data, a parameter lies where an argument goes that was pushed above
    those before it. -/
theorem Formals.Placed.storage?_eq {formals : Formals} {level : Nat} {i : Nat} {formal : Formal}
    (h : formals.Placed π level 0) (hat : formals.list[i]? = some formal) :
    (Item.parameter formal).storage? π.entity =
      some ⟨level, ((formals.list.map Formal.words).take i).sum -
        (formals.list.map Formal.words).sum, formal.words⟩ := by
  have hsum : (formals.list.map Formal.words).sum =
      ((formals.list.map Formal.words).take i).sum +
        (formal.words + ((formals.list.drop (i + 1)).map Formal.words).sum) := by
    obtain ⟨hi, hget⟩ := List.getElem?_eq_some_iff.1 hat
    rw [← List.sum_cons, ← List.map_cons, ← hget, ← List.drop_eq_getElem_cons hi, List.map_drop,
      ← List.sum_append, List.take_append_drop]
  rw [(h.at hat).storage?_eq]
  congr 2
  omega

/-! ## Declarations that are visited -/

/-- The encoder comes to every part of a sound visit. -/
theorem Visit.Sound.comes {visit : Visit} (h : visit.Sound made π) {part : Part}
    (hpart : part ∈ visit.call.phrase.parts) :
    part.meets visit.call.frame ∧ ∃ frame s,
      (part.reach visit.call.frame).exec visit.call.encoder = (.ok frame, s) ∧
      part.opening.Frames π visit.call.frame frame ∧
      visit.Leads ⟨part.opening.context visit.context, ⟨part.phrase, frame, s⟩⟩ := by
  obtain ⟨Γ, -, hsound⟩ := h
  obtain ⟨hmeets, frame, s, hrun, hframes, -⟩ := hsound.parts part hpart
  exact ⟨hmeets, frame, s, hrun, hframes, Visit.leads_part part hpart hmeets hrun⟩

/-- From a declaration the encoder comes to each of the declarations in it. -/
theorem Visit.Sound.comes_single {single : Declaration} :
    ∀ (declaration : Declaration) {visit : Visit}, visit.Sound made π →
      visit.call.phrase = .declaration declaration → .declared single ∈ declaration.items →
      ∃ visit', visit.Leads visit' ∧ visit'.call.phrase = .declaration single
  | .const .., visit, _, hphrase, hmem | .var .., visit, _, hphrase, hmem
  | .proc .., visit, _, hphrase, hmem | .func .., visit, _, hphrase, hmem
  | .type .., visit, _, hphrase, hmem => by
    obtain rfl := Item.declared.inj (List.mem_singleton.1 hmem)
    exact ⟨visit, .refl, hphrase⟩
  | .sequence span first second, visit, h, hphrase, hmem => by
    -- the first declaration is the first part, and the second one the other
    have hcomes (phrase : Declaration)
        (hpart : ∃ part ∈ (Declaration.sequence span first second).parts,
          part.phrase = .declaration phrase) :
        ∃ visit', visit.Leads visit' ∧ visit'.call.phrase = .declaration phrase := by
      obtain ⟨part, hpart, heq⟩ := hpart
      have hpart' : part ∈ visit.call.phrase.parts := by
        rw [hphrase]
        exact hpart
      obtain ⟨-, frame, s, -, -, hleads⟩ := h.comes hpart'
      exact ⟨_, hleads, heq⟩
    rcases List.mem_append.1 hmem with hmem | hmem
    · obtain ⟨visit', hleads, hphrase'⟩ :=
        hcomes second ⟨_, List.mem_cons_of_mem _ List.mem_cons_self, rfl⟩
      obtain ⟨visit'', hleads', hphrase''⟩ :=
        comes_single second (h.leads hleads) hphrase' hmem
      exact ⟨visit'', hleads.trans hleads', hphrase''⟩
    · obtain ⟨visit', hleads, hphrase'⟩ := hcomes first ⟨_, List.mem_cons_self, rfl⟩
      obtain ⟨visit'', hleads', hphrase''⟩ := comes_single first (h.leads hleads) hphrase' hmem
      exact ⟨visit'', hleads.trans hleads', hphrase''⟩

/-- What is new in a part was declared in front of it, or is a routine and its parameters. -/
def Opening.From (phrase : Phrase) : Opening → Prop
  | same => True
  | after declaration => ∃ part ∈ phrase.parts, part.phrase = .declaration declaration
  | body routine _ => phrase = .declaration routine

theorem Phrase.opening_from : ∀ phrase : Phrase, ∀ part ∈ phrase.parts, part.opening.From phrase
  | .command phrase => by
    cases phrase <;>
      simp [parts, Command.parts, Part.pair, Part.branches, Part.first, Part.inside, Opening.From]
  | .expression phrase => by
    cases phrase <;>
      simp [parts, Expression.parts, Part.pair, Part.branches, Part.first, Part.inside,
        Part.sized, Opening.From]
  | .arrayAggregate phrase => by
    cases phrase <;>
      simp [parts, ArrayAggregate.parts, Part.pair, Part.first, Part.inside, Opening.From]
  | .recordAggregate phrase => by
    cases phrase <;>
      simp [parts, RecordAggregate.parts, Part.pair, Part.first, Part.inside, Opening.From]
  | .vname phrase => by
    cases phrase <;> simp [parts, Vname.parts, Part.first, Part.inside, Opening.From]
  | .declaration phrase => by
    cases phrase <;>
      simp [parts, Declaration.parts, Part.pair, Part.first, Part.inside, Part.bodyOf,
        Opening.From]
  | .actuals phrase => by
    cases phrase <;>
      simp [parts, Actuals.parts, Part.pair, Part.first, Part.inside, Opening.From]
  | .actual phrase => by
    cases phrase <;> simp [parts, Actual.parts, Part.first, Part.inside, Opening.From]

/-- An item in scope was in scope at the start, or is new in a part of a phrase on the way. -/
theorem Visit.Leads.origin {start visit : Visit} (h : start.Leads visit) {item : Item}
    (hmem : item ∈ visit.context.items) : item ∈ start.context.items ∨
      ∃ visit' part, start.Leads visit' ∧ part ∈ visit'.call.phrase.parts ∧
        item ∈ part.opening.items := by
  induction h with
  | refl => exact .inl hmem
  | @part visit part frame s hleads hpart _ _ ih =>
    rcases List.mem_append.1 hmem with hnew | hold
    · exact .inr ⟨visit, part, hleads, hpart, hnew⟩
    · exact ih hold

/-- The encoder came to every declaration that is in scope. -/
theorem Visit.Leads.comes_declared {start visit : Visit} (h : start.Leads visit)
    (hsound : start.Sound made π) (hstart : start.context = .standard) {declaration : Declaration}
    (hmem : .declared declaration ∈ visit.context.items) :
    ∃ visit', start.Leads visit' ∧ visit'.call.phrase = .declaration declaration := by
  rcases h.origin hmem with hitem | ⟨visit', part, hleads, hpart, hnew⟩
  · -- at the start there are standard items alone
    rw [hstart] at hitem
    obtain ⟨_, -, heq⟩ := List.mem_map.1 (List.mem_reverse.1 hitem)
    cases heq
  · have hfrom := Phrase.opening_from _ part hpart
    cases hopening : part.opening with
    | same =>
      rw [hopening] at hnew
      exact absurd hnew List.not_mem_nil
    | after declared =>
      rw [hopening] at hnew hfrom
      obtain ⟨part', hpart', hphrase⟩ := hfrom
      have hvisit := hsound.leads hleads
      obtain ⟨-, frame, s, -, -, hleads'⟩ := hvisit.comes hpart'
      obtain ⟨visit'', hleads'', hphrase'⟩ :=
        (hvisit.leads hleads').comes_single declared hphrase hnew
      exact ⟨visit'', (hleads.trans hleads').trans hleads'', hphrase'⟩
    | body routine parameters =>
      rw [hopening] at hnew hfrom
      rcases List.mem_append.1 hnew with hparameter | hself
      · obtain ⟨_, heq⟩ := parameters.eq_parameter_of_mem_items hparameter
        cases heq
      · obtain rfl := Item.declared.inj (List.mem_singleton.1 hself)
        exact ⟨visit', hleads, hfrom⟩

/-- A standard item in scope is one of a standard declaration. -/
theorem Visit.Leads.mem_standard {start visit : Visit} (h : start.Leads visit)
    (hstart : start.context = .standard) {declaration : StandardDeclaration} {id : BindingId}
    (hmem : .standard declaration id ∈ visit.context.items) :
    declaration ∈ Standard.declarations := by
  rcases h.origin hmem with hitem | ⟨_, part, -, -, hnew⟩
  · rw [hstart] at hitem
    obtain ⟨numbered, hnumbered, heq⟩ := List.mem_map.1 (List.mem_reverse.1 hitem)
    obtain ⟨rfl, -⟩ := Item.standard.inj heq
    exact List.mem_of_getElem? (List.mem_zipIdx_iff_getElem?.1 hnumbered)
  · cases hopening : part.opening with
    | same =>
      rw [hopening] at hnew
      exact absurd hnew List.not_mem_nil
    | after declared =>
      rw [hopening] at hnew
      obtain ⟨_, heq⟩ := Declaration.eq_declared_of_mem_items hnew
      cases heq
    | body routine parameters =>
      rw [hopening] at hnew
      rcases List.mem_append.1 hnew with hparameter | hself
      · obtain ⟨_, heq⟩ := parameters.eq_parameter_of_mem_items hparameter
        cases heq
      · cases List.mem_singleton.1 hself

/-! ## Routines that are visited -/

/-- The name of a routine that is declared, its parameters, and the words of its result. -/
def Declaration.routine? : Declaration → Option (Name × Formals × Int)
  | .proc _ _ name parameters _ => some (name, parameters, 0)
  | .func _ _ name parameters result _ => some (name, parameters, result.size)
  | .const .. | .var .. | .type .. | .sequence .. => none

/-- At a sound visit of a declaration there is the code of the scheme. -/
theorem Visit.Sound.exists_code {visit : Visit} (h : visit.Sound made π)
    {declaration : Declaration} (hphrase : visit.call.phrase = .declaration declaration) :
    ∃ lines extra, Declaration.Code π visit.call.frame visit.call.encoder.start declaration lines
      extra := by
  obtain ⟨context, phrase, frame, s⟩ := visit
  obtain rfl : phrase = .declaration declaration := hphrase
  obtain ⟨Γ, -, ⟨p, p', ⟨⟨source, Γ', htyped⟩, hknown, hplan⟩, hready⟩, extra, s', hrun,
    hfinal⟩ := h
  have hyields := ((htyped.encodes hknown hplan frame s hready).ends hrun).2
  obtain ⟨lines, hcode, -⟩ := hyields hfinal
  exact ⟨lines, extra, hcode⟩

/-- A routine whose declaration the encoder came to: it is planned, it starts behind the jump over
    its code, a level inside of it the parameters have their places below the link data, and in
    its body they are in scope. -/
theorem Visit.Sound.routine {visit : Visit} (h : visit.Sound made π) {declaration : Declaration}
    {name : Name} {formals : Formals} {result : Int}
    (hphrase : visit.call.phrase = .declaration declaration)
    (hroutine : declaration.routine? = some (name, formals, result)) :
    (∃ id, name.binding = some id ∧ ⟨id, ⟨formals.words, result⟩, true⟩ ∈ π.routines ∧
      π.entity id = some (.knownRoutine Machine.closureSize
        ⟨visit.call.frame.level, (visit.call.encoder.start + 1 : Nat)⟩)) ∧
    formals.Placed π (visit.call.frame.level + 1) 0 ∧
    ∃ visit', visit.Leads visit' ∧ visit'.call.frame.level = visit.call.frame.level + 1 ∧
      ∀ item ∈ formals.items, item ∈ visit'.context.items := by
  have hplanned : declaration.routines ⊆ π.routines := by
    obtain ⟨_, -, ⟨_, _, ⟨-, -, hplan⟩, -⟩, -⟩ := h
    rw [hphrase] at hplan
    exact hplan
  obtain ⟨lines, extra, hcode⟩ := h.exists_code hphrase
  -- the only part of the declaration is the body, which the encoder comes to
  have hbody (phrase : Phrase)
      (hparts : declaration.parts = [Part.bodyOf declaration name formals phrase]) :
      formals.Placed π (visit.call.frame.level + 1) 0 ∧
      ∃ visit', visit.Leads visit' ∧ visit'.call.frame.level = visit.call.frame.level + 1 ∧
        ∀ item ∈ formals.items, item ∈ visit'.context.items := by
    have hpart : Part.bodyOf declaration name formals phrase ∈ visit.call.phrase.parts := by
      rw [hphrase, Phrase.parts, hparts]
      exact List.mem_singleton_self _
    obtain ⟨-, frame, s, -, ⟨-, rfl, hplaced⟩, hleads⟩ := h.comes hpart
    refine ⟨hplaced, _, hleads, rfl, fun item hmem => ?_⟩
    exact List.mem_append_left _ (List.mem_append_left _ hmem)
  cases declaration with
  | proc span duplicated name' parameters body =>
    obtain ⟨rfl, rfl, rfl⟩ : name' = name ∧ parameters = formals ∧ 0 = result := by
      simpa [Declaration.routine?] using hroutine
    cases hcode with
    | proc hname hentity _ =>
      refine ⟨⟨_, hname, hplanned (List.mem_append_left _ ?_), hentity⟩, hbody _ rfl⟩
      rw [Name.routine, hname]
      exact List.mem_singleton_self _
  | func span duplicated name' parameters type body =>
    obtain ⟨rfl, rfl, rfl⟩ : name' = name ∧ parameters = formals ∧ type.size = result := by
      simpa [Declaration.routine?] using hroutine
    cases hcode with
    | func hname hentity _ =>
      refine ⟨⟨_, hname, hplanned (List.mem_append_left _ ?_), hentity⟩, hbody _ rfl⟩
      rw [Name.routine, hname]
      exact List.mem_singleton_self _
  | _ => cases hroutine

end TriangleTam
