import TriangleTam.Proofs.Coding.Storage

/-! # Walking over a decorated tree

  Wherever the encoder comes to in a decorated tree, it is ready for what is
  there: the phrase is a decoration in an environment whose entries are those
  of the items in scope, the run for the phrase returns, and what is
  represented is represented as planned. That is a **sound** visit. From a sound
  visit the encoder comes to sound visits only, so it is enough to look at one
  phrase and its parts.
-/

namespace TriangleTam

variable {made : List TypeDenoter} {π : Plan} {Γ Γ' : Env} {p p' : Supply} {frame : Frame}
  {s s' : Encoder}

/-! ## Sound calls -/

namespace Phrase

/-- The phrase is a decoration. -/
def TypedIn (Γ : Env) (p p' : Supply) : Phrase → Prop
  | .command phrase => ∃ source, Command.Typed Γ p source phrase p'
  | .expression phrase => ∃ source type, Expression.Typed Γ p source phrase type p'
  | .arrayAggregate phrase => ∃ source type, ArrayAggregate.Typed Γ p source phrase type p'
  | .recordAggregate phrase => ∃ source types, RecordAggregate.Typed Γ p source phrase types p'
  | .vname phrase => ∃ source type, Vname.Typed Γ p source phrase type p'
  | .declaration phrase => ∃ source Γ', Declaration.Typed Γ p source phrase Γ' p'
  | .actuals phrase => ∃ source shapes, Actuals.Typed Γ p source shapes phrase p'
  | .actual phrase => ∃ source shape, Actual.Typed Γ p source shape phrase p'

/-- All types in the phrase are known. -/
def Known (made : List TypeDenoter) : Phrase → Prop
  | .command phrase => phrase.All (TypeDenoter.Known made) (Finds (TypeDenoter.Known made))
  | .expression phrase => phrase.All (TypeDenoter.Known made) (Finds (TypeDenoter.Known made))
  | .arrayAggregate phrase => phrase.All (TypeDenoter.Known made) (Finds (TypeDenoter.Known made))
  | .recordAggregate phrase => phrase.All (TypeDenoter.Known made) (Finds (TypeDenoter.Known made))
  | .vname phrase => phrase.All (TypeDenoter.Known made) (Finds (TypeDenoter.Known made))
  | .declaration phrase => phrase.All (TypeDenoter.Known made) (Finds (TypeDenoter.Known made))
  | .actuals phrase => phrase.All (TypeDenoter.Known made) (Finds (TypeDenoter.Known made))
  | .actual phrase => phrase.All (TypeDenoter.Known made) (Finds (TypeDenoter.Known made))

def routines : Phrase → List Routine
  | .command phrase => phrase.routines
  | .expression phrase => phrase.routines
  | .arrayAggregate phrase => phrase.routines
  | .recordAggregate phrase => phrase.routines
  | .vname phrase => phrase.routines
  | .declaration phrase => phrase.routines
  | .actuals phrase => phrase.routines
  | .actual phrase => phrase.routines

end Phrase

/-- The phrase is part of a decorated tree whose routines are planned. -/
structure Phrase.Checked (made : List TypeDenoter) (π : Plan) (Γ : Env) (p p' : Supply)
    (phrase : Phrase) : Prop where
  typed : phrase.TypedIn Γ p p'
  known : phrase.Known made
  plan  : phrase.routines ⊆ π.routines

/-- The encoder is ready for the phrase, and the run for it ends as planned. -/
structure Call.Sound (made : List TypeDenoter) (π : Plan) (Γ : Env) (call : Call) : Prop where
  checked : ∃ p p', call.phrase.Checked made π Γ p p' ∧
    call.encoder.Ready made π Γ (Set.Ico p.bindings p'.bindings)
  ends    : ∃ words s', (call.phrase.encode call.frame).exec call.encoder = (.ok words, s') ∧
    s'.Final π

/-- What the frame of a part has to do with the frame of its phrase. -/
def Opening.Frames (π : Plan) (frame frame' : Frame) : Opening → Prop
  | same => ∃ n, 0 ≤ n ∧ frame' = frame.more n
  | after declaration =>
    ∃ extra, declaration.Stores π frame extra ∧ frame' = frame.more extra
  | body routine parameters =>
    routine.IsRoutine ∧ frame' = frame.push Machine.linkDataSize ∧
      parameters.Placed π (frame.level + 1) 0

/-- The encoder comes to the part, and is ready for it. -/
structure Part.Sound (made : List TypeDenoter) (π : Plan) (Γ : Env) (frame : Frame) (s : Encoder)
    (part : Part) : Prop where
  meets : part.meets frame
  comes : ∃ frame' s', (part.reach frame).exec s = (.ok frame', s') ∧
    part.opening.Frames π frame frame' ∧
    ∃ Γ' : Env, Γ'.entries.map some = part.opening.items.map Item.entered? ++ Γ.entries.map some ∧
      (⟨part.phrase, frame', s'⟩ : Call).Sound made π Γ'

/-! ## Runs of single phrases -/

@[simp] theorem Frame.more_zero (frame : Frame) : frame.more 0 = frame := by
  unfold Frame.more
  rw [Int.add_zero]

theorem Access.pending_nonneg (access : Access) : 0 ≤ access.pending := by
  unfold Access.pending
  split
  · decide
  · decide

/-! ## Phrases that are walked over -/

section

variable (made : List TypeDenoter) (π : Plan) (Γ : Env) (lo hi : Nat)

def Command.Walks (command : Command) : Prop :=
  ∀ frame s, s.Ready made π Γ (Set.Ico lo hi) →
    (Encode.command command frame).Does made (Set.Ico lo hi) s fun _ s' =>
      s'.Final π → (⟨.command command, frame, s⟩ : Call).Sound made π Γ

/-- The value of an expression has no negative size. -/
def Expression.Walks (expression : Expression) : Prop :=
  ∀ frame s, s.Ready made π Γ (Set.Ico lo hi) →
    (Encode.expression expression frame).Does made (Set.Ico lo hi) s fun n s' =>
      s'.Final π → 0 ≤ n ∧ (⟨.expression expression, frame, s⟩ : Call).Sound made π Γ

def ArrayAggregate.Walks (elements : ArrayAggregate) : Prop :=
  ∀ frame s, s.Ready made π Γ (Set.Ico lo hi) →
    (Encode.arrayAggregate elements frame).Does made (Set.Ico lo hi) s fun _ s' =>
      s'.Final π → (⟨.arrayAggregate elements, frame, s⟩ : Call).Sound made π Γ

def RecordAggregate.Walks (fields : RecordAggregate) : Prop :=
  ∀ frame s, s.Ready made π Γ (Set.Ico lo hi) →
    (Encode.recordAggregate fields frame).Does made (Set.Ico lo hi) s fun _ s' =>
      s'.Final π → (⟨.recordAggregate fields, frame, s⟩ : Call).Sound made π Γ

/-- What the entity of a variable is asked to do, it can do. -/
def Vname.Walks (vname : Vname) : Prop :=
  ∀ frame s, s.Ready made π Γ (Set.Ico lo hi) →
    (Encode.place vname frame).Does made (Set.Ico lo hi) s fun place s' =>
      place.1.IsValue ∧ (vname.isVariable = true → place.1.IsVariable) ∧
        (s'.Final π → (⟨.vname vname, frame, s⟩ : Call).Sound made π Γ)

def Declaration.Walks (Γ' : Env) (declaration : Declaration) : Prop :=
  ∀ frame s, s.Ready made π Γ (Set.Ico lo hi) →
    (Encode.declaration declaration frame).Does made (Set.Ico lo hi) s fun extra s' =>
      (∀ entry ∈ Γ'.entries, s'.Fits π entry) ∧
        (s'.Final π → declaration.Stores π frame extra ∧
          (⟨.declaration declaration, frame, s⟩ : Call).Sound made π Γ)

def Actuals.Walks (actuals : Actuals) : Prop :=
  ∀ frame s, s.Ready made π Γ (Set.Ico lo hi) →
    (Encode.actuals actuals frame).Does made (Set.Ico lo hi) s fun _ s' =>
      s'.Final π → (⟨.actuals actuals, frame, s⟩ : Call).Sound made π Γ

def Actual.Walks (actual : Actual) : Prop :=
  ∀ frame s, s.Ready made π Γ (Set.Ico lo hi) →
    (Encode.actual actual frame).Does made (Set.Ico lo hi) s fun n s' =>
      s'.Final π → 0 ≤ n ∧ (⟨.actual actual, frame, s⟩ : Call).Sound made π Γ

/-- The encoder comes to every part of the phrase. -/
def Phrase.Opens (phrase : Phrase) : Prop :=
  ∀ frame s, s.Ready made π Γ (Set.Ico lo hi) →
    (phrase.encode frame).Does made (Set.Ico lo hi) s fun _ s' =>
      s'.Final π → ∀ part ∈ phrase.parts, part.Sound made π Γ frame s

end

theorem Command.Typed.walks {source command : Command} (h : Command.Typed Γ p source command p')
    (hknown : (Phrase.command command).Known made) (hplan : command.routines ⊆ π.routines) :
    command.Walks made π Γ p.bindings p'.bindings := by
  intro frame s hready
  refine (h.encodes hknown hplan frame s hready).mono subset_rfl ?_
  intro _ s' hrun _ _ hfinal
  have hreturns : ((Phrase.command command).encode frame).exec s = (.ok 0, s') :=
    Encode.exec_bind hrun
  exact ⟨⟨p, p', ⟨⟨_, h⟩, hknown, hplan⟩, hready⟩, 0, s', hreturns, hfinal⟩

theorem Expression.Typed.walks {source expression : Expression} {type : TypeDenoter}
    (h : Expression.Typed Γ p source expression type p')
    (hknown : (Phrase.expression expression).Known made)
    (hplan : expression.routines ⊆ π.routines) :
    expression.Walks made π Γ p.bindings p'.bindings := by
  intro frame s hready
  refine (h.encodes hknown hplan frame s hready).mono subset_rfl ?_
  intro n s' hrun _ hyields hfinal
  obtain ⟨_, ⟨hexact, rfl, _⟩, _⟩ := hyields hfinal
  refine ⟨?_, ⟨p, p', ⟨⟨_, _, h⟩, hknown, hplan⟩, hready⟩, _, s', hrun, hfinal⟩
  rw [← hexact.size_eq]
  exact (h.known_of_all hknown).size_nonneg

theorem ArrayAggregate.Typed.walks {source elements : ArrayAggregate} {type : TypeDenoter}
    (h : ArrayAggregate.Typed Γ p source elements type p')
    (hknown : (Phrase.arrayAggregate elements).Known made)
    (hplan : elements.routines ⊆ π.routines) :
    elements.Walks made π Γ p.bindings p'.bindings := by
  intro frame s hready
  refine (h.encodes hknown hplan frame s hready).mono subset_rfl ?_
  intro n s' hrun _ _ hfinal
  exact ⟨⟨p, p', ⟨⟨_, _, h⟩, hknown, hplan⟩, hready⟩, n, s', hrun, hfinal⟩

theorem RecordAggregate.Typed.walks {source fields : RecordAggregate} {types : Fields}
    (h : RecordAggregate.Typed Γ p source fields types p')
    (hknown : (Phrase.recordAggregate fields).Known made)
    (hplan : fields.routines ⊆ π.routines) :
    fields.Walks made π Γ p.bindings p'.bindings := by
  intro frame s hready
  refine (h.encodes hknown hplan frame s hready).mono subset_rfl ?_
  intro n s' hrun _ _ hfinal
  exact ⟨⟨p, p', ⟨⟨_, _, h⟩, hknown, hplan⟩, hready⟩, n, s', hrun, hfinal⟩

theorem Vname.Typed.walks {source vname : Vname} {type : TypeDenoter}
    (h : Vname.Typed Γ p source vname type p') (hknown : (Phrase.vname vname).Known made)
    (hplan : vname.routines ⊆ π.routines) : vname.Walks made π Γ p.bindings p'.bindings := by
  intro frame s hready
  refine (h.encodes hknown hplan frame s hready).mono subset_rfl ?_
  intro place s' hrun _ ⟨hholds, hvariable, _⟩
  refine ⟨hholds.isValue, hvariable, fun hfinal => ?_⟩
  have hreturns : ((Phrase.vname vname).encode frame).exec s = (.ok place.2.pending, s') :=
    Encode.exec_bind hrun
  exact ⟨⟨p, p', ⟨⟨_, _, h⟩, hknown, hplan⟩, hready⟩, _, s', hreturns, hfinal⟩

theorem Declaration.Typed.walks {source declaration : Declaration}
    (h : Declaration.Typed Γ p source declaration Γ' p')
    (hknown : (Phrase.declaration declaration).Known made)
    (hplan : declaration.routines ⊆ π.routines) :
    declaration.Walks made π Γ p.bindings p'.bindings Γ' := by
  intro frame s hready
  refine (h.encodes hknown hplan frame s hready).mono subset_rfl ?_
  intro extra s' hrun _ ⟨hfits, _⟩
  refine ⟨hfits, fun hfinal => ?_⟩
  have hstores := (h.fills hknown hplan frame s hready).ends hrun hfinal
  exact ⟨hstores, ⟨p, p', ⟨⟨_, _, h⟩, hknown, hplan⟩, hready⟩, extra, s', hrun, hfinal⟩

theorem Actuals.Typed.walks {source actuals : Actuals} {shapes : Signature}
    (h : Actuals.Typed Γ p source shapes actuals p')
    (hknown : (Phrase.actuals actuals).Known made) (hplan : actuals.routines ⊆ π.routines) :
    actuals.Walks made π Γ p.bindings p'.bindings := by
  intro frame s hready
  refine (h.encodes hknown hplan frame s hready).mono subset_rfl ?_
  intro n s' hrun _ _ hfinal
  exact ⟨⟨p, p', ⟨⟨_, _, h⟩, hknown, hplan⟩, hready⟩, n, s', hrun, hfinal⟩

theorem Actual.Typed.words_nonneg {source actual : Actual} {shape : FormalShape}
    (h : Actual.Typed Γ p source shape actual p') (hknown : (Phrase.actual actual).Known made) :
    0 ≤ shape.words := by
  cases h with
  | const hvalue hequivalent =>
    show 0 ≤ TypeDenoter.size _
    rw [TypeDenoter.size_eq_of_equivalent hequivalent]
    exact (hvalue.known_of_all hknown).size_nonneg
  | var => exact (by decide : (0 : Int) ≤ Machine.addressSize)
  | proc | func => exact (by decide : (0 : Int) ≤ Machine.closureSize)

theorem Actual.Typed.walks {source actual : Actual} {shape : FormalShape}
    (h : Actual.Typed Γ p source shape actual p') (hknown : (Phrase.actual actual).Known made)
    (hplan : actual.routines ⊆ π.routines) : actual.Walks made π Γ p.bindings p'.bindings := by
  intro frame s hready
  refine (h.encodes hknown hplan frame s hready).mono subset_rfl ?_
  intro n s' hrun _ hyields hfinal
  obtain ⟨_, ⟨rfl, _⟩, _⟩ := hyields hfinal
  exact ⟨h.words_nonneg hknown, ⟨p, p', ⟨⟨_, _, h⟩, hknown, hplan⟩, hready⟩, _, s', hrun, hfinal⟩

/-! ## Parts -/

namespace Part.Sound

variable {phrase phrase₁ phrase₂ : Phrase} {opening : Opening} {part : Part} {frame' : Frame}
  {s₁ s₂ : Encoder}

/-- A part that sees what its phrase sees is reached after some steps, in a frame with some more
    words. -/
theorem inside {reach : Frame → Encode Frame} {n : Int} (hn : 0 ≤ n)
    (hreach : (reach frame).exec s = (.ok (frame.more n), s₁))
    (h : (⟨phrase, frame.more n, s₁⟩ : Call).Sound made π Γ) :
    (Part.inside phrase reach).Sound made π Γ frame s :=
  ⟨trivial, _, _, hreach, ⟨n, hn, rfl⟩, Γ, rfl, h⟩

theorem same {reach : Frame → Encode Frame} (hreach : (reach frame).exec s = (.ok frame, s₁))
    (h : (⟨phrase, frame, s₁⟩ : Call).Sound made π Γ) :
    (Part.inside phrase reach).Sound made π Γ frame s := by
  have hmore : frame = frame.more 0 := (Frame.more_zero frame).symm
  exact ⟨trivial, frame, s₁, hreach, ⟨0, Int.le_refl 0, hmore⟩, Γ, rfl, h⟩

theorem first (h : (⟨phrase, frame, s⟩ : Call).Sound made π Γ) :
    (Part.first phrase).Sound made π Γ frame s :=
  same rfl h

/-- A scope that is still empty makes no difference. -/
theorem of_enclose (h : part.Sound made π Γ.enclose frame s) : part.Sound made π Γ frame s := by
  obtain ⟨hmeets, frame', s', hreach, hframes, Γ', hentries, hsound⟩ := h
  rw [Env.entries_enclose] at hentries
  exact ⟨hmeets, frame', s', hreach, hframes, Γ', hentries, hsound⟩

theorem pair {n : Int} (hrun : (phrase₁.encode frame).exec s = (.ok n, s₁))
    (hgrow : (Encode.grow frame n).exec s₁ = (.ok frame', s₂))
    (hfirst : (⟨phrase₁, frame, s⟩ : Call).Sound made π Γ)
    (hframes : opening.Frames π frame frame')
    (hentries : Γ'.entries.map some = opening.items.map Item.entered? ++ Γ.entries.map some)
    (hsecond : (⟨phrase₂, frame', s₂⟩ : Call).Sound made π Γ') :
    ∀ part ∈ Part.pair phrase₁ phrase₂ opening, part.Sound made π Γ frame s := by
  intro part hmem
  rcases List.mem_cons.1 hmem with rfl | hmem
  · exact .first hfirst
  · obtain rfl := List.mem_singleton.1 hmem
    have hreach : (do Encode.grow frame (← phrase₁.encode frame)).exec s = (.ok frame', s₂) :=
      (Encode.exec_bind hrun).trans hgrow
    exact ⟨trivial, frame', s₂, hreach, hframes, Γ', hentries, hsecond⟩

/-- The second of two phrases in a row lies above the words of the first. -/
theorem pair_same {n : Int} (hrun : (phrase₁.encode frame).exec s = (.ok n, s₁))
    (hgrow : (Encode.grow frame n).exec s₁ = (.ok (frame.more n), s₂)) (hn : 0 ≤ n)
    (hfirst : (⟨phrase₁, frame, s⟩ : Call).Sound made π Γ)
    (hsecond : (⟨phrase₂, frame.more n, s₂⟩ : Call).Sound made π Γ) :
    ∀ part ∈ Part.pair phrase₁ phrase₂ .same, part.Sound made π Γ frame s :=
  pair hrun hgrow hfirst ⟨n, hn, rfl⟩ rfl hsecond

/-- A body that follows its declaration lies above the storage. -/
theorem pair_after {declared : Declaration} {extra : Int}
    (hrun : (Encode.declaration declared frame).exec s = (.ok extra, s₁))
    (hgrow : (Encode.grow frame extra).exec s₁ = (.ok (frame.more extra), s₂))
    (hstores : declared.Stores π frame extra)
    (hentries : Γ'.entries.map some = declared.items.map Item.entered? ++ Γ.entries.map some)
    (hdeclared : (⟨.declaration declared, frame, s⟩ : Call).Sound made π Γ)
    (hbody : (⟨phrase, frame.more extra, s₂⟩ : Call).Sound made π Γ') :
    ∀ part ∈ Part.pair (.declaration declared) phrase (.after declared),
      part.Sound made π Γ frame s := by
  have hreturns : ((Phrase.declaration declared).encode frame).exec s = (.ok extra, s₁) := hrun
  exact pair hreturns hgrow hdeclared ⟨extra, hstores, rfl⟩ hentries hbody

theorem branches {condition : Expression} {encodeThen : Frame → Encode Unit} {n toElse toEnd : Int}
    {s₃ s₄ s₅ : Encoder} (hcondition : (Encode.expression condition frame).exec s = (.ok n, s₁))
    (htoElse : (Encode.emitForward .jumpIf Machine.falseRep).exec s₁ = (.ok toElse, s₂))
    (hthen : (encodeThen frame).exec s₂ = (.ok (), s₃))
    (htoEnd : (Encode.emitForward .jump 0).exec s₃ = (.ok toEnd, s₄))
    (hpatch : (Encode.patch toElse).exec s₄ = (.ok (), s₅))
    (h : (⟨.expression condition, frame, s⟩ : Call).Sound made π Γ)
    (h' : (⟨phrase₁, frame, s₂⟩ : Call).Sound made π Γ)
    (h'' : (⟨phrase₂, frame, s₅⟩ : Call).Sound made π Γ) :
    ∀ part ∈ Part.branches condition phrase₁ phrase₂ encodeThen, part.Sound made π Γ frame s := by
  intro part hmem
  simp only [Part.branches, List.mem_cons, List.not_mem_nil, or_false] at hmem
  rcases hmem with rfl | rfl | rfl
  · exact .first h
  · refine .same ?_ h'
    rw [Encode.exec_bind hcondition, Encode.exec_bind htoElse]
    rfl
  · refine .same ?_ h''
    rw [Encode.exec_bind hcondition, Encode.exec_bind htoElse, Encode.exec_bind hthen,
      Encode.exec_bind htoEnd, Encode.exec_bind hpatch]
    rfl

theorem sized {type : Option TypeDenoter} {span : Span} {n : Int}
    (hsize : (Encode.sizeOf? type span).exec s = (.ok n, s₁))
    (h : part.Sound made π Γ frame s₁) : (part.sized type span).Sound made π Γ frame s := by
  obtain ⟨hmeets, frame', s', hreach, hframes, hsound⟩ := h
  have hreach' : ((part.sized type span).reach frame).exec s = (.ok frame', s') :=
    (Encode.exec_bind hsize).trans hreach
  exact ⟨hmeets, frame', s', hreach', hframes, hsound⟩

theorem all_sized {type : Option TypeDenoter} {span : Span} {n : Int} {parts : List Part}
    (hsize : (Encode.sizeOf? type span).exec s = (.ok n, s₁))
    (h : ∀ part ∈ parts, part.Sound made π Γ frame s₁) :
    ∀ part ∈ parts.map (Part.sized type span), part.Sound made π Γ frame s := by
  intro part hmem
  obtain ⟨part', hmem', rfl⟩ := List.mem_map.1 hmem
  exact sized hsize (h part' hmem')

end Part.Sound

/-! ## Items and entries -/

/-- A parameter makes an entry. -/
theorem Formal.Typed.entries_eq {formal formal' : Formal} {shape : FormalShape}
    (h : Formal.Typed Γ p formal formal' shape Γ' p') :
    Γ'.entries.map some = (Item.parameter formal').entered? :: Γ.entries.map some := by
  have hshape := h.shape_eq
  cases h with
  | const | var => rfl
  | proc | func =>
    simp only [Env.entries_enter, List.map_cons, Item.entered?, hshape]
    rfl

theorem Formals.Typed.entries_eq {formals formals' : Formals} {shapes : Signature} :
    ∀ {Γ Γ' : Env} {p p' : Supply}, Formals.Typed Γ p formals formals' shapes Γ' p' →
      Γ'.entries.map some = formals'.items.map Item.entered? ++ Γ.entries.map some
  | _, _, _, _, .empty => rfl
  | _, _, _, _, .one hfirst => hfirst.entries_eq
  | _, _, _, _, .more hfirst hrest => by
    rw [hrest.entries_eq, hfirst.entries_eq, Formals.items, List.map_append, List.append_assoc]
    rfl

/-- A declaration makes the entries of its items. -/
theorem Declaration.Typed.entries_eq {declaration declaration' : Declaration} {Γ Γ' : Env}
    {p p' : Supply} (h : Declaration.Typed Γ p declaration declaration' Γ' p') :
    Γ'.entries.map some = declaration'.items.map Item.entered? ++ Γ.entries.map some := by
  cases h with
  | const hvalue =>
    simp only [Env.entries_enter, List.map_cons, Declaration.items, Item.entered?,
      Declaration.introduces, hvalue.type_eq]
    rfl
  | var | type => rfl
  | proc _ hparameters | func _ _ hparameters =>
    simp only [Env.entries_enter, List.map_cons, Declaration.items, Item.entered?,
      Declaration.introduces, hparameters.shapes_eq]
    rfl
  | sequence hfirst hsecond =>
    rw [hsecond.entries_eq, hfirst.entries_eq, Declaration.items, List.map_append,
      List.append_assoc]

/-! ## Parts of commands -/

variable {lo mid mid' hi : Nat}

namespace Command

/-- It is enough to look at the run for the command itself. -/
theorem opens {command : Command}
    (h : ∀ frame s, s.Ready made π Γ (Set.Ico lo hi) →
      (Encode.command command frame).Does made (Set.Ico lo hi) s fun _ s' =>
        s'.Final π → ∀ part ∈ command.parts, part.Sound made π Γ frame s) :
    (Phrase.command command).Opens made π Γ lo hi := by
  intro frame s hready
  refine (h frame s hready).bind subset_rfl ?_
  intro _ s' _ _ hparts
  exact .pure hparts

theorem assign_opens {span : Span} {target : Vname} {value : Expression}
    (htarget : target.Walks made π Γ lo mid) (hvalue : value.Walks made π Γ mid hi)
    (hlo : lo ≤ mid) (hhi : mid ≤ hi) (hvariable : target.isVariable = true) :
    (Phrase.command (.assign span target value)).Opens made π Γ lo hi := by
  apply opens
  intro frame s hready
  unfold Encode.command
  have hready₀ := hready.mono (Set.Ico_subset_Ico_left hlo)
  refine (hvalue frame s hready₀).bind (Set.Ico_subset_Ico_left hlo) ?_
  intro n s₁ hrun₁ hbefore₁ hsound₁
  have hready₁ := (hready.front hhi).after hbefore₁ Set.Ico_disjoint_Ico_same.symm
  refine (Encode.grow_does frame n).step ?_
  intro frame' s₂ hrun₂ hbefore₂ ⟨_, hframe⟩
  refine (htarget frame' s₂ (hready₁.step hbefore₂)).bind (Set.Ico_subset_Ico_right hhi) ?_
  intro ⟨entity, access⟩ s₃ _ hbefore₃ ⟨_, hentity, hsound₃⟩
  refine (Encode.store_does (hentity hvariable) access frame' n).last ?_
  intro _ s₄ _ hbefore₄ _ hfinal
  have hfinal₃ := hbefore₄.final hfinal
  have hfinal₂ := hbefore₃.final hfinal₃
  obtain rfl : frame' = frame.more n := hframe hfinal₂.quiet
  obtain ⟨hn, hsound⟩ := hsound₁ (hbefore₂.final hfinal₂)
  exact .pair_same hrun₁ hrun₂ hn hsound (hsound₃ hfinal₃)

theorem call_opens {span : Span} {callee : Name} {args : Actuals} {name : String} {id : BindingId}
    {shapes : Signature} (hargs : args.Walks made π Γ lo hi) (hname : callee.binding = some id)
    (hfind : Γ.find? name = some (id, .proc shapes)) :
    (Phrase.command (.call span callee args)).Opens made π Γ lo hi := by
  apply opens
  intro frame s hready
  unfold Encode.command
  obtain ⟨entity, hat, htransfers⟩ := hready.found hfind fun _ => BindingKind.noConfusion
  refine (hargs frame s hready).bind subset_rfl ?_
  intro n s₁ _ hbefore₁ hsound₁
  refine (Encode.entityOf_does hname (hbefore₁.keeps hat)).step ?_
  rintro _ _ - - ⟨rfl, rfl⟩
  refine (Encode.requesting_does (Entity.call_appends htransfers.1.isRoutine _ _)).last ?_
  intro _ s₂ _ hbefore₂ _ hfinal part hmem
  obtain rfl := List.mem_singleton.1 hmem
  exact .first (hsound₁ (hbefore₂.final hfinal))

theorem sequence_opens {span : Span} {first second : Command} (hfirst : first.Walks made π Γ lo mid)
    (hsecond : second.Walks made π Γ mid hi) (hlo : lo ≤ mid) (hhi : mid ≤ hi) :
    (Phrase.command (.sequence span first second)).Opens made π Γ lo hi := by
  apply opens
  intro frame s hready
  unfold Encode.command
  refine (hfirst frame s (hready.front hhi)).bind (Set.Ico_subset_Ico_right hhi) ?_
  intro _ s₁ hrun₁ hbefore₁ hsound₁
  refine (hsecond frame s₁ (hready.back hbefore₁ hlo)).mono (Set.Ico_subset_Ico_left hlo) ?_
  intro _ s₂ _ hbefore₂ hsound₂ hfinal part hmem
  simp only [parts, List.mem_cons, List.not_mem_nil, or_false] at hmem
  rcases hmem with rfl | rfl
  · exact .first (hsound₁ (hbefore₂.final hfinal))
  · exact .same (Encode.exec_bind hrun₁) (hsound₂ hfinal)

theorem letIn_opens {span : Span} {declared : Declaration} {body : Command} {Γ' : Env}
    (hdeclared : declared.Walks made π Γ.enclose lo mid Γ') (hbody : body.Walks made π Γ' mid hi)
    (hentries : Γ'.entries.map some = declared.items.map Item.entered? ++ Γ.enclose.entries.map some)
    (hlo : lo ≤ mid) (hhi : mid ≤ hi) :
    (Phrase.command (.letIn span declared body)).Opens made π Γ lo hi := by
  apply opens
  intro frame s hready
  unfold Encode.command
  refine (hdeclared frame s (hready.front hhi).enclose).bind (Set.Ico_subset_Ico_right hhi) ?_
  intro extra s₁ hrun₁ hbefore₁ ⟨hfits, hsound₁⟩
  refine (Encode.grow_does frame extra).step ?_
  intro frame' s₂ hrun₂ hbefore₂ ⟨_, hframe⟩
  have hready₁ := (hready.back hbefore₁ hlo).entering hfits
  refine (hbody frame' s₂ (hready₁.step hbefore₂)).bind (Set.Ico_subset_Ico_left hlo) ?_
  intro _ s₃ _ hbefore₃ hsound₃
  refine (Encode.release_does (frame.size + extra) 0 extra).last ?_
  intro _ s₄ _ hbefore₄ _ hfinal
  have hfinal₃ := hbefore₄.final hfinal
  have hfinal₂ := hbefore₃.final hfinal₃
  obtain rfl : frame' = frame.more extra := hframe hfinal₂.quiet
  obtain ⟨hstores, hsound⟩ := hsound₁ (hbefore₂.final hfinal₂)
  have hpair := Part.Sound.pair_after hrun₁ hrun₂ hstores hentries hsound (hsound₃ hfinal₃)
  exact fun part hmem => (hpair part hmem).of_enclose

theorem ifElse_opens {span : Span} {condition : Expression} {thenBranch elseBranch : Command}
    (hcondition : condition.Walks made π Γ lo mid) (hthen : thenBranch.Walks made π Γ mid mid')
    (helse : elseBranch.Walks made π Γ mid' hi) (hlo : lo ≤ mid) (hmid : mid ≤ mid')
    (hhi : mid' ≤ hi) :
    (Phrase.command (.ifElse span condition thenBranch elseBranch)).Opens made π Γ lo hi := by
  apply opens
  intro frame s hready
  unfold Encode.command
  -- forwards through the steps, with the states that the parts start in
  have hfront := hready.front (Nat.le_trans hmid hhi)
  refine (hcondition frame s hfront).bind
    (Set.Ico_subset_Ico_right (Nat.le_trans hmid hhi)) ?_
  intro _ s₁ hrun₁ hbefore₁ hsound₁
  refine (Encode.emitForward_does .jumpIf Machine.falseRep).step ?_
  intro toElse s₂ hrun₂ hbefore₂ ⟨htoElse, _⟩
  have hready₂ := (hready.back hbefore₁ hlo).step hbefore₂
  refine (hthen frame s₂ (hready₂.front hhi)).bind (Set.Ico_subset_Ico hlo hhi) ?_
  intro _ s₃ hrun₃ hbefore₃ hsound₃
  refine (Encode.emitForward_does .jump 0).step ?_
  intro toEnd s₄ hrun₄ hbefore₄ ⟨htoEnd, _⟩
  subst htoElse htoEnd
  refine (Encode.patch_does s₁.start).step ?_
  intro _ s₅ hrun₅ hbefore₅ _
  have hready₅ := ((hready₂.back hbefore₃ hmid).step hbefore₄).step hbefore₅
  refine (helse frame s₅ hready₅).bind (Set.Ico_subset_Ico_left (Nat.le_trans hlo hmid)) ?_
  intro _ s₆ _ hbefore₆ hsound₆
  refine (Encode.patch_does s₃.start).last ?_
  intro _ s₇ _ hbefore₇ _ hfinal
  -- backwards from the end: where it is final, each part is sound
  have hfinal₆ := hbefore₇.final hfinal
  have hfinal₃ := hbefore₄.final (hbefore₅.final (hbefore₆.final hfinal₆))
  have hfinal₁ := hbefore₂.final (hbefore₃.final hfinal₃)
  exact .branches hrun₁ hrun₂ hrun₃ hrun₄ hrun₅ (hsound₁ hfinal₁).2 (hsound₃ hfinal₃)
    (hsound₆ hfinal₆)

theorem whileDo_opens {span : Span} {condition : Expression} {body : Command}
    (hcondition : condition.Walks made π Γ lo mid) (hbody : body.Walks made π Γ mid hi)
    (hlo : lo ≤ mid) (hhi : mid ≤ hi) :
    (Phrase.command (.whileDo span condition body)).Opens made π Γ lo hi := by
  apply opens
  intro frame s hready
  unfold Encode.command
  refine (Encode.emitForward_does .jump 0).step ?_
  rintro _ s₁ hrun₁ hbefore₁ ⟨rfl, _⟩
  refine Encode.next_does.step ?_
  rintro _ _ - - ⟨rfl, rfl⟩
  have hready₁ := hready.step hbefore₁
  refine (hbody frame s₁ (hready₁.mono (Set.Ico_subset_Ico_left hlo))).bind
    (Set.Ico_subset_Ico_left hlo) ?_
  intro _ s₂ hrun₂ hbefore₂ hsound₂
  refine (Encode.patch_does s.start).step ?_
  intro _ s₃ hrun₃ hbefore₃ _
  have hready₂ := (hready₁.front hhi).after hbefore₂ Set.Ico_disjoint_Ico_same.symm
  refine (hcondition frame s₃ (hready₂.step hbefore₃)).bind (Set.Ico_subset_Ico_right hhi) ?_
  intro _ s₄ _ hbefore₄ hsound₄
  refine (Encode.emit_does .jumpIf Machine.trueRep .cb s₁.start).last ?_
  intro _ s₅ _ hbefore₅ _ hfinal part hmem
  have hfinal₄ := hbefore₅.final hfinal
  simp only [parts, List.mem_cons, List.not_mem_nil, or_false] at hmem
  rcases hmem with rfl | rfl
  · exact .same (Encode.exec_bind hrun₁) (hsound₂ (hbefore₃.final (hbefore₄.final hfinal₄)))
  · refine .same ?_ (hsound₄ hfinal₄).2
    rw [Encode.exec_bind hrun₁, Encode.exec_bind hrun₂, Encode.exec_bind hrun₃]
    rfl

theorem repeatUntil_opens {span : Span} {body : Command} {condition : Expression}
    (hbody : body.Walks made π Γ lo mid) (hcondition : condition.Walks made π Γ mid hi)
    (hlo : lo ≤ mid) (hhi : mid ≤ hi) :
    (Phrase.command (.repeatUntil span body condition)).Opens made π Γ lo hi := by
  apply opens
  intro frame s hready
  unfold Encode.command
  refine Encode.next_does.step ?_
  rintro _ _ - - ⟨rfl, rfl⟩
  refine (hbody frame s (hready.front hhi)).bind (Set.Ico_subset_Ico_right hhi) ?_
  intro _ s₁ hrun₁ hbefore₁ hsound₁
  refine (hcondition frame s₁ (hready.back hbefore₁ hlo)).bind (Set.Ico_subset_Ico_left hlo) ?_
  intro _ s₂ _ hbefore₂ hsound₂
  refine (Encode.emit_does .jumpIf Machine.falseRep .cb s.start).last ?_
  intro _ s₃ _ hbefore₃ _ hfinal part hmem
  have hfinal₂ := hbefore₃.final hfinal
  simp only [parts, List.mem_cons, List.not_mem_nil, or_false] at hmem
  rcases hmem with rfl | rfl
  · exact .first (hsound₁ (hbefore₂.final hfinal₂))
  · exact .same (Encode.exec_bind hrun₁) (hsound₂ hfinal₂).2

theorem loopWhile_opens {span : Span} {body tail : Command} {condition : Expression}
    (hbody : body.Walks made π Γ lo mid) (hcondition : condition.Walks made π Γ mid mid')
    (htail : tail.Walks made π Γ mid' hi) (hlo : lo ≤ mid) (hmid : mid ≤ mid') (hhi : mid' ≤ hi) :
    (Phrase.command (.loopWhile span body condition tail)).Opens made π Γ lo hi := by
  apply opens
  intro frame s hready
  unfold Encode.command
  refine Encode.next_does.step ?_
  rintro _ _ - - ⟨rfl, rfl⟩
  -- forwards through the steps, with the states that the parts start in
  have hfront := hready.front (Nat.le_trans hmid hhi)
  refine (hbody frame s hfront).bind (Set.Ico_subset_Ico_right (Nat.le_trans hmid hhi)) ?_
  intro _ s₁ hrun₁ hbefore₁ hsound₁
  have hready₁ := hready.back hbefore₁ hlo
  refine (hcondition frame s₁ (hready₁.front hhi)).bind (Set.Ico_subset_Ico hlo hhi) ?_
  intro _ s₂ hrun₂ hbefore₂ hsound₂
  refine (Encode.emitForward_does .jumpIf Machine.falseRep).step ?_
  rintro _ s₃ hrun₃ hbefore₃ ⟨rfl, _⟩
  have hready₃ := (hready₁.back hbefore₂ hmid).step hbefore₃
  refine (htail frame s₃ hready₃).bind (Set.Ico_subset_Ico_left (Nat.le_trans hlo hmid)) ?_
  intro _ s₄ _ hbefore₄ hsound₄
  refine (Encode.emit_does .jump 0 .cb s.start).step ?_
  intro _ s₅ _ hbefore₅ _
  refine (Encode.patch_does s₂.start).last ?_
  intro _ s₆ _ hbefore₆ _ hfinal part hmem
  -- backwards from the end: where it is final, each part is sound
  have hfinal₄ := hbefore₅.final (hbefore₆.final hfinal)
  have hfinal₂ := hbefore₃.final (hbefore₄.final hfinal₄)
  simp only [parts, List.mem_cons, List.not_mem_nil, or_false] at hmem
  rcases hmem with rfl | rfl | rfl
  · exact .first (hsound₁ (hbefore₂.final hfinal₂))
  · exact .same (Encode.exec_bind hrun₁) (hsound₂ hfinal₂).2
  · refine .same ?_ (hsound₄ hfinal₄)
    rw [Encode.exec_bind hrun₁, Encode.exec_bind hrun₂, Encode.exec_bind hrun₃]
    rfl

end Command

/-! ## Parts of expressions -/

namespace Expression

/-- It is enough to look at what follows after the size of the type was asked for. -/
theorem opens {expression : Expression} {type : TypeDenoter} {span : Span}
    {rest : Frame → Int → Encode Int} (parts' : List Part) (hknown : type.Known made)
    (hencode : ∀ frame, Encode.expression expression frame =
      Encode.sizeOf? (some type) span >>= rest frame)
    (hparts : expression.parts = parts'.map (Part.sized (some type) span))
    (h : ∀ frame s, s.Ready made π Γ (Set.Ico lo hi) →
      (rest frame type.size).Does made (Set.Ico lo hi) s fun _ s' =>
        s'.Final π → ∀ part ∈ parts', part.Sound made π Γ frame s) :
    (Phrase.expression expression).Opens made π Γ lo hi := by
  intro frame s hready
  show (Encode.expression expression frame).Does made _ s _
  rw [hencode]
  refine (Encode.sizeOf?_does hknown hready.laid span).step ?_
  rintro _ s₁ hrun₁ hbefore₁ ⟨rfl, _, _⟩
  refine (h frame s₁ (hready.step hbefore₁)).mono subset_rfl ?_
  intro n s₂ _ _ hsound hfinal
  show ∀ part ∈ expression.parts, part.Sound made π Γ frame s
  rw [hparts]
  exact .all_sized hrun₁ (hsound hfinal)

/-- A single part comes first. -/
theorem single {phrase : Phrase} (h : (⟨phrase, frame, s⟩ : Call).Sound made π Γ) :
    ∀ part ∈ [Part.first phrase], part.Sound made π Γ frame s := by
  intro part hmem
  obtain rfl := List.mem_singleton.1 hmem
  exact .first h

theorem vname_opens {span : Span} {type : TypeDenoter} {found : Vname}
    (hfound : found.Walks made π Γ lo hi) (hknown : type.Known made) :
    (Phrase.expression (.vname span (some type) found)).Opens made π Γ lo hi := by
  refine opens [.first (.vname found)] hknown
    (fun _ => by rw [Encode.expression]) rfl fun frame s hready => ?_
  refine (hfound frame s hready).bind subset_rfl ?_
  intro ⟨entity, access⟩ s₁ _ _ ⟨hvalue, _, hsound⟩
  refine (Encode.fetch_does hvalue access frame type.size).step ?_
  intro _ s₂ _ hbefore₂ _
  exact .pure fun hfinal => single (hsound (hbefore₂.final hfinal))

theorem call_opens {span : Span} {result : TypeDenoter} {callee : Name} {args : Actuals}
    {name : String} {id : BindingId} {shapes : Signature} (hargs : args.Walks made π Γ lo hi)
    (hname : callee.binding = some id) (hfind : Γ.find? name = some (id, .func shapes result))
    (hknown : result.Known made) :
    (Phrase.expression (.call span (some result) callee args)).Opens made π Γ lo hi := by
  refine opens [.first (.actuals args)] hknown
    (fun _ => by rw [Encode.expression]) rfl fun frame s hready => ?_
  obtain ⟨entity, hat, htransfers⟩ := hready.found hfind fun _ => BindingKind.noConfusion
  refine (hargs frame s hready).bind subset_rfl ?_
  intro n s₁ _ hbefore₁ hsound₁
  refine (Encode.entityOf_does hname (hbefore₁.keeps hat)).step ?_
  rintro _ _ - - ⟨rfl, rfl⟩
  refine (Encode.requesting_does (Entity.call_appends htransfers.1.isRoutine _ _)).step ?_
  intro _ s₂ _ hbefore₂ _
  exact .pure fun hfinal => single (hsound₁ (hbefore₂.final hfinal))

theorem unary_opens {span : Span} {result : TypeDenoter} {operator : Name} {operand : Expression}
    {name : String} {id : BindingId} {expected : TypeDenoter}
    (hoperand : operand.Walks made π Γ lo hi) (hname : operator.binding = some id)
    (hfind : Γ.find? name = some (id, .unary expected result)) (hknown : result.Known made) :
    (Phrase.expression (.unary span (some result) operator operand)).Opens made π Γ lo hi := by
  refine opens [.first (.expression operand)] hknown
    (fun _ => by rw [Encode.expression]) rfl fun frame s hready => ?_
  obtain ⟨entity, hat, htransfers⟩ := hready.found hfind fun _ => BindingKind.noConfusion
  refine (hoperand frame s hready).bind subset_rfl ?_
  intro n s₁ _ hbefore₁ hsound₁
  refine (Encode.entityOf_does hname (hbefore₁.keeps hat)).step ?_
  rintro _ _ - - ⟨rfl, rfl⟩
  refine (Encode.requesting_does (Entity.call_appends htransfers.1.isRoutine _ _)).step ?_
  intro _ s₂ _ hbefore₂ _
  exact .pure fun hfinal => single (hsound₁ (hbefore₂.final hfinal)).2

/-- The operator is a routine, whichever it is. -/
theorem binary_opens {span : Span} {result : TypeDenoter} {operator : Name}
    {left right : Expression} {name : String} {id : BindingId}
    {expectedLeft expectedRight : TypeDenoter} (hleft : left.Walks made π Γ lo mid)
    (hright : right.Walks made π Γ mid hi) (hlo : lo ≤ mid) (hhi : mid ≤ hi)
    (hname : operator.binding = some id)
    (hfind : Γ.find? name = some (id, .binary expectedLeft expectedRight result))
    (hknown : result.Known made) :
    (Phrase.expression (.binary span (some result) left operator right)).Opens made π Γ lo hi := by
  refine opens (Part.pair (.expression left) (.expression right) .same) hknown
    (fun _ => by rw [Encode.expression]) rfl fun frame s hready => ?_
  obtain ⟨entity, hat, hrep⟩ := hready.found hfind fun _ => BindingKind.noConfusion
  -- a routine of the standard environment, or an equality
  have hroutine : entity.IsRoutine := by
    rcases hrep with ⟨-, htransfers⟩ | ⟨-, -, p, -, rfl⟩
    · exact htransfers.1.isRoutine
    · exact trivial
  refine (hleft frame s (hready.front hhi)).bind (Set.Ico_subset_Ico_right hhi) ?_
  intro n₁ s₁ hrun₁ hbefore₁ hsound₁
  refine (Encode.grow_does frame n₁).step ?_
  intro frame' s₂ hrun₂ hbefore₂ ⟨_, hframe⟩
  have hready₂ := (hready.back hbefore₁ hlo).step hbefore₂
  refine (hright frame' s₂ hready₂).bind (Set.Ico_subset_Ico_left hlo) ?_
  intro n₂ s₃ _ hbefore₃ hsound₃
  refine (Encode.word_does (n₁ + n₂)).step ?_
  intro n s₄ _ hbefore₄ _
  -- the operator is represented as it was before the operands
  have hat₄ := hbefore₄.keeps (hbefore₃.keeps (hbefore₂.keeps (hbefore₁.keeps hat)))
  refine (Encode.entityOf_does hname hat₄).step ?_
  rintro _ _ - - ⟨rfl, rfl⟩
  refine (Encode.requesting_does (Entity.call_appends hroutine _ _)).step ?_
  intro _ s₅ _ hbefore₅ _
  refine .pure fun hfinal => ?_
  have hfinal₃ := hbefore₄.final (hbefore₅.final hfinal)
  have hfinal₂ := hbefore₃.final hfinal₃
  obtain rfl : frame' = frame.more n₁ := hframe hfinal₂.quiet
  obtain ⟨hn, hsound⟩ := hsound₁ (hbefore₂.final hfinal₂)
  exact .pair_same hrun₁ hrun₂ hn hsound (hsound₃ hfinal₃).2

theorem ifElse_opens {span : Span} {type : TypeDenoter}
    {condition thenBranch elseBranch : Expression} (hcondition : condition.Walks made π Γ lo mid)
    (hthen : thenBranch.Walks made π Γ mid mid') (helse : elseBranch.Walks made π Γ mid' hi)
    (hlo : lo ≤ mid) (hmid : mid ≤ mid') (hhi : mid' ≤ hi) (hknown : type.Known made) :
    (Phrase.expression (.ifElse span (some type) condition thenBranch elseBranch)).Opens
      made π Γ lo hi := by
  refine opens (Part.branches condition (.expression thenBranch)
    (.expression elseBranch) fun frame => do
      let _ ← Encode.expression thenBranch frame) hknown
    (fun _ => by rw [Encode.expression]) rfl fun frame s hready => ?_
  have hfront := hready.front (Nat.le_trans hmid hhi)
  refine (hcondition frame s hfront).bind
    (Set.Ico_subset_Ico_right (Nat.le_trans hmid hhi)) ?_
  intro _ s₁ hrun₁ hbefore₁ hsound₁
  refine (Encode.emitForward_does .jumpIf Machine.falseRep).step ?_
  intro toElse s₂ hrun₂ hbefore₂ ⟨htoElse, _⟩
  have hready₂ := (hready.back hbefore₁ hlo).step hbefore₂
  refine (hthen frame s₂ (hready₂.front hhi)).bind (Set.Ico_subset_Ico hlo hhi) ?_
  intro _ s₃ hrun₃ hbefore₃ hsound₃
  refine (Encode.emitForward_does .jump 0).step ?_
  intro toEnd s₄ hrun₄ hbefore₄ ⟨htoEnd, _⟩
  subst htoElse htoEnd
  refine (Encode.patch_does s₁.start).step ?_
  intro _ s₅ hrun₅ hbefore₅ _
  have hready₅ := ((hready₂.back hbefore₃ hmid).step hbefore₄).step hbefore₅
  refine (helse frame s₅ hready₅).bind (Set.Ico_subset_Ico_left (Nat.le_trans hlo hmid)) ?_
  intro _ s₆ _ hbefore₆ hsound₆
  refine (Encode.patch_does s₃.start).step ?_
  intro _ s₇ _ hbefore₇ _
  refine .pure fun hfinal => ?_
  have hfinal₆ := hbefore₇.final hfinal
  have hfinal₃ := hbefore₄.final (hbefore₅.final (hbefore₆.final hfinal₆))
  have hfinal₁ := hbefore₂.final (hbefore₃.final hfinal₃)
  exact .branches hrun₁ hrun₂ (Encode.exec_bind hrun₃) hrun₄ hrun₅ (hsound₁ hfinal₁).2
    (hsound₃ hfinal₃).2 (hsound₆ hfinal₆).2

theorem letIn_opens {span : Span} {type : TypeDenoter} {declared : Declaration} {body : Expression}
    {Γ' : Env} (hdeclared : declared.Walks made π Γ.enclose lo mid Γ')
    (hbody : body.Walks made π Γ' mid hi)
    (hentries : Γ'.entries.map some = declared.items.map Item.entered? ++ Γ.enclose.entries.map some)
    (hlo : lo ≤ mid) (hhi : mid ≤ hi) (hknown : type.Known made) :
    (Phrase.expression (.letIn span (some type) declared body)).Opens made π Γ lo hi := by
  refine opens (Part.pair (.declaration declared) (.expression body) (.after declared))
    hknown (fun _ => by rw [Encode.expression]) rfl fun frame s hready => ?_
  refine (hdeclared frame s (hready.front hhi).enclose).bind (Set.Ico_subset_Ico_right hhi) ?_
  intro extra s₁ hrun₁ hbefore₁ ⟨hfits, hsound₁⟩
  refine (Encode.grow_does frame extra).step ?_
  intro frame' s₂ hrun₂ hbefore₂ ⟨_, hframe⟩
  have hready₁ := (hready.back hbefore₁ hlo).entering hfits
  refine (hbody frame' s₂ (hready₁.step hbefore₂)).bind (Set.Ico_subset_Ico_left hlo) ?_
  intro n s₃ _ hbefore₃ hsound₃
  rw [Encode.ite_bind]
  refine (Encode.release_does (frame.size + extra + n) n extra).step ?_
  intro _ s₄ _ hbefore₄ _
  refine .pure fun hfinal => ?_
  have hfinal₃ := hbefore₄.final hfinal
  have hfinal₂ := hbefore₃.final hfinal₃
  obtain rfl : frame' = frame.more extra := hframe hfinal₂.quiet
  obtain ⟨hstores, hsound⟩ := hsound₁ (hbefore₂.final hfinal₂)
  have hpair := Part.Sound.pair_after hrun₁ hrun₂ hstores hentries hsound (hsound₃ hfinal₃).2
  exact fun part hmem => (hpair part hmem).of_enclose

theorem array_opens {span : Span} {type : TypeDenoter} {elements : ArrayAggregate}
    (helements : elements.Walks made π Γ lo hi) (hknown : type.Known made) :
    (Phrase.expression (.array span (some type) elements)).Opens made π Γ lo hi := by
  refine opens [.first (.arrayAggregate elements)] hknown
    (fun _ => by rw [Encode.expression]) rfl fun frame s hready => ?_
  refine (helements frame s hready).mono subset_rfl ?_
  intro n s₁ _ _ hsound hfinal
  exact single (hsound hfinal)

theorem record_opens {span : Span} {type : TypeDenoter} {fields : RecordAggregate}
    (hfields : fields.Walks made π Γ lo hi) (hknown : type.Known made) :
    (Phrase.expression (.record span (some type) fields)).Opens made π Γ lo hi := by
  refine opens [.first (.recordAggregate fields)] hknown
    (fun _ => by rw [Encode.expression]) rfl fun frame s hready => ?_
  refine (hfields frame s hready).mono subset_rfl ?_
  intro n s₁ _ _ hsound hfinal
  exact single (hsound hfinal)

end Expression

/-! ## Parts of lists and vnames -/

/-- Two phrases in a row, and the sum of what they leave. -/
theorem Encode.pair_opens (phrase₁ phrase₂ : Phrase) {opening : Opening} {Γ' : Env}
    (hready : s.Ready made π Γ (Set.Ico lo hi)) (hlo : lo ≤ mid) (hhi : mid ≤ hi)
    (h₁ : (phrase₁.encode frame).Does made (Set.Ico lo mid) s fun n s' =>
      (∀ entry ∈ Γ'.entries, s'.Fits π entry) ∧
        (s'.Final π → opening.Frames π frame (frame.more n) ∧
          (⟨phrase₁, frame, s⟩ : Call).Sound made π Γ))
    (hentries : Γ'.entries.map some = opening.items.map Item.entered? ++ Γ.entries.map some)
    (h₂ : ∀ frame s, s.Ready made π Γ' (Set.Ico mid hi) →
      (phrase₂.encode frame).Does made (Set.Ico mid hi) s fun _ s' =>
        s'.Final π → (⟨phrase₂, frame, s⟩ : Call).Sound made π Γ') :
    (do
      let n ← phrase₁.encode frame
      let n' ← phrase₂.encode (← grow frame n)
      word (n + n')).Does made (Set.Ico lo hi) s fun _ s' =>
        s'.Final π → ∀ part ∈ Part.pair phrase₁ phrase₂ opening, part.Sound made π Γ frame s := by
  refine h₁.bind (Set.Ico_subset_Ico_right hhi) ?_
  intro n₁ s₁ hrun₁ hbefore₁ ⟨hfits₁, hsound₁⟩
  refine (grow_does frame n₁).step ?_
  intro frame' s₂ hrun₂ hbefore₂ ⟨_, hframe⟩
  have hready₂ := ((hready.back hbefore₁ hlo).entering hfits₁).step hbefore₂
  refine (h₂ frame' s₂ hready₂).bind (Set.Ico_subset_Ico_left hlo) ?_
  intro n₂ s₃ _ hbefore₃ hsound₃
  refine (word_does (n₁ + n₂)).last ?_
  intro n s₄ _ hbefore₄ _ hfinal
  have hfinal₃ := hbefore₄.final hfinal
  have hfinal₂ := hbefore₃.final hfinal₃
  obtain rfl : frame' = frame.more n₁ := hframe hfinal₂.quiet
  obtain ⟨hframes, hsound⟩ := hsound₁ (hbefore₂.final hfinal₂)
  exact .pair hrun₁ hrun₂ hsound hframes hentries (hsound₃ hfinal₃)

/-- The rest of a list sees what its first element sees. -/
theorem Encode.list_opens (phrase₁ phrase₂ : Phrase) (hready : s.Ready made π Γ (Set.Ico lo hi))
    (hlo : lo ≤ mid) (hhi : mid ≤ hi)
    (h₁ : ∀ frame s, s.Ready made π Γ (Set.Ico lo mid) →
      (phrase₁.encode frame).Does made (Set.Ico lo mid) s fun n s' =>
        s'.Final π → 0 ≤ n ∧ (⟨phrase₁, frame, s⟩ : Call).Sound made π Γ)
    (h₂ : ∀ frame s, s.Ready made π Γ (Set.Ico mid hi) →
      (phrase₂.encode frame).Does made (Set.Ico mid hi) s fun _ s' =>
        s'.Final π → (⟨phrase₂, frame, s⟩ : Call).Sound made π Γ) :
    (do
      let n ← phrase₁.encode frame
      let n' ← phrase₂.encode (← grow frame n)
      word (n + n')).Does made (Set.Ico lo hi) s fun _ s' =>
        s'.Final π → ∀ part ∈ Part.pair phrase₁ phrase₂ .same, part.Sound made π Γ frame s := by
  refine pair_opens phrase₁ phrase₂ hready hlo hhi ?_ rfl h₂
  have hfront := hready.front hhi
  refine ((h₁ frame s hfront).fits hfront).mono subset_rfl ?_
  intro n s' _ _ ⟨hfits, hsound⟩
  refine ⟨hfits, fun hfinal => ?_⟩
  obtain ⟨hn, hsound⟩ := hsound hfinal
  exact ⟨⟨n, hn, rfl⟩, hsound⟩

namespace ArrayAggregate

theorem one_opens {span : Span} {element : Expression} (helement : element.Walks made π Γ lo hi) :
    (Phrase.arrayAggregate (.one span element)).Opens made π Γ lo hi := by
  intro frame s hready
  refine (helement frame s hready).mono subset_rfl ?_
  intro n s' _ _ hsound hfinal
  exact Expression.single (hsound hfinal).2

theorem more_opens {span : Span} {element : Expression} {rest : ArrayAggregate}
    (helement : element.Walks made π Γ lo mid) (hrest : rest.Walks made π Γ mid hi)
    (hlo : lo ≤ mid) (hhi : mid ≤ hi) :
    (Phrase.arrayAggregate (.more span element rest)).Opens made π Γ lo hi := by
  intro frame s hready
  exact Encode.list_opens (.expression element) (.arrayAggregate rest) hready hlo hhi helement hrest

end ArrayAggregate

namespace RecordAggregate

theorem one_opens {span : Span} {field : Name} {value : Expression}
    (hvalue : value.Walks made π Γ lo hi) :
    (Phrase.recordAggregate (.one span field value)).Opens made π Γ lo hi := by
  intro frame s hready
  refine (hvalue frame s hready).mono subset_rfl ?_
  intro n s' _ _ hsound hfinal
  exact Expression.single (hsound hfinal).2

theorem more_opens {span : Span} {field : Name} {value : Expression} {rest : RecordAggregate}
    (hvalue : value.Walks made π Γ lo mid) (hrest : rest.Walks made π Γ mid hi)
    (hlo : lo ≤ mid) (hhi : mid ≤ hi) :
    (Phrase.recordAggregate (.more span field value rest)).Opens made π Γ lo hi := by
  intro frame s hready
  exact Encode.list_opens (.expression value) (.recordAggregate rest) hready hlo hhi hvalue hrest

end RecordAggregate

namespace Actual

theorem const_opens {span : Span} {value : Expression} (hvalue : value.Walks made π Γ lo hi) :
    (Phrase.actual (.const span value)).Opens made π Γ lo hi := by
  intro frame s hready
  refine (hvalue frame s hready).mono subset_rfl ?_
  intro n s' _ _ hsound hfinal
  exact Expression.single (hsound hfinal).2

theorem var_opens {span : Span} {found : Vname} (hfound : found.Walks made π Γ lo hi)
    (hvariable : found.isVariable = true) :
    (Phrase.actual (.var span found)).Opens made π Γ lo hi := by
  intro frame s hready
  show (Encode.actual (.var span found) frame).Does made _ s _
  unfold Encode.actual
  refine (hfound frame s hready).bind subset_rfl ?_
  intro ⟨entity, access⟩ s₁ _ _ ⟨_, hentity, hsound⟩
  refine (Encode.fetchAddress_does (hentity hvariable) access frame).step ?_
  intro _ s₂ _ hbefore₂ _
  exact .pure fun hfinal => Expression.single (hsound (hbefore₂.final hfinal))

end Actual

namespace Actuals

theorem one_opens {span : Span} {first : Actual} (hfirst : first.Walks made π Γ lo hi) :
    (Phrase.actuals (.one span first)).Opens made π Γ lo hi := by
  intro frame s hready
  refine (hfirst frame s hready).mono subset_rfl ?_
  intro n s' _ _ hsound hfinal
  exact Expression.single (hsound hfinal).2

theorem more_opens {span : Span} {first : Actual} {rest : Actuals}
    (hfirst : first.Walks made π Γ lo mid) (hrest : rest.Walks made π Γ mid hi)
    (hlo : lo ≤ mid) (hhi : mid ≤ hi) :
    (Phrase.actuals (.more span first rest)).Opens made π Γ lo hi := by
  intro frame s hready
  exact Encode.list_opens (.actual first) (.actuals rest) hready hlo hhi hfirst hrest

end Actuals

namespace Vname

theorem dot_opens {span : Span} {type fieldType : TypeDenoter} {record : Vname} {field : Name}
    {serial : Nat} {recordSpan : Span} {fields : Fields} (hrecord : record.Walks made π Γ lo hi)
    (htype : record.type = some (.record serial recordSpan fields))
    (hfind : fields.find? field.spelling = some fieldType)
    (hknown : (TypeDenoter.record serial recordSpan fields).Known made) :
    (Phrase.vname (.dot span (some type) record.isVariable record field)).Opens made π Γ lo hi := by
  intro frame s hready
  have hplace : (Encode.place (.dot span (some type) record.isVariable record field) frame).Does
      made (Set.Ico lo hi) s fun _ s' =>
        s'.Final π → (⟨.vname record, frame, s⟩ : Call).Sound made π Γ := by
    unfold Encode.place
    refine (hrecord frame s hready).bind subset_rfl ?_
    intro ⟨entity, access⟩ s₁ _ hbefore₁ ⟨_, _, hsound⟩
    refine (Encode.fieldOffset_does htype hfind hknown (hbefore₁.laid hready.laid)).step ?_
    intro position s₂ _ hbefore₂ _
    refine (Encode.word_does (access.offset + position)).step ?_
    intro offset s₃ _ hbefore₃ _
    exact .pure fun hfinal => hsound (hbefore₂.final (hbefore₃.final hfinal))
  refine hplace.bind subset_rfl ?_
  intro _ s₁ _ _ hsound
  exact .pure fun hfinal => Expression.single (hsound hfinal)

/-- A literal index is not encoded. -/
theorem known_opens {span : Span} {element : TypeDenoter} {array : Vname} {index : Expression}
    {value : Int} (harray : array.Walks made π Γ lo hi)
    (hindex : index.integerValue? = some value) (hknown : element.Known made) :
    (Phrase.vname (.subscript span (some element) array.isVariable array index)).Opens made π Γ
      lo hi := by
  intro frame s hready
  have hplace : (Encode.place (.subscript span (some element) array.isVariable array index)
      frame).Does made (Set.Ico lo hi) s fun _ s' =>
        s'.Final π → (⟨.vname array, frame, s⟩ : Call).Sound made π Γ := by
    unfold Encode.place
    refine (harray frame s hready).bind subset_rfl ?_
    intro ⟨entity, access⟩ s₁ _ hbefore₁ ⟨_, _, hsound⟩
    refine (Encode.sizeOf?_does hknown (hbefore₁.laid hready.laid) span).step ?_
    rintro _ s₂ - hbefore₂ ⟨rfl, _, _⟩
    simp only [hindex]
    refine (Encode.word_does (value * element.size)).step ?_
    intro distance s₃ _ hbefore₃ _
    refine (Encode.word_does (access.offset + distance)).step ?_
    intro offset s₄ _ hbefore₄ _
    exact .pure fun hfinal =>
      hsound (hbefore₂.final (hbefore₃.final (hbefore₄.final hfinal)))
  refine hplace.bind subset_rfl ?_
  intro _ s₁ _ _ hsound
  refine .pure fun hfinal => ?_
  rw [Phrase.parts, parts, hindex]
  exact Expression.single (hsound hfinal)

/-- Any other index lies above the one that waits, if there is one. -/
theorem unknown_opens {span : Span} {element : TypeDenoter} {array : Vname} {index : Expression}
    (harray : array.Walks made π Γ lo mid) (hindex : index.Walks made π Γ mid hi)
    (hlo : lo ≤ mid) (hhi : mid ≤ hi) (hvalue : index.integerValue? = none)
    (hknown : element.Known made) :
    (Phrase.vname (.subscript span (some element) array.isVariable array index)).Opens made π Γ
      lo hi := by
  intro frame s hready
  -- its parts are those of its place
  have hplace : (Encode.place (.subscript span (some element) array.isVariable array index)
      frame).Does made (Set.Ico lo hi) s fun _ s' =>
        s'.Final π → ∀ part ∈ (Phrase.vname (.subscript span (some element) array.isVariable array
          index)).parts, part.Sound made π Γ frame s := by
    rw [Encode.place_unknown hvalue]
    refine (harray frame s (hready.front hhi)).bind (Set.Ico_subset_Ico_right hhi) ?_
    intro ⟨entity, access⟩ s₁ hrun₁ hbefore₁ ⟨_, _, hsound₁⟩
    have hready₁ := hready.back hbefore₁ hlo
    refine (Encode.sizeOf?_does hknown hready₁.laid span).step ?_
    rintro _ s₂ hrun₂ hbefore₂ ⟨rfl, _, _⟩
    refine (Encode.indexFrame_does frame access).step ?_
    intro frame' s₃ hrun₃ hbefore₃ ⟨_, hframe⟩
    have hready₃ := (hready₁.step hbefore₂).step hbefore₃
    refine (hindex frame' s₃ hready₃).bind (Set.Ico_subset_Ico_left hlo) ?_
    intro n s₄ _ hbefore₄ hsound₄
    refine (Encode.scale_does element.size).step ?_
    intro _ s₅ _ hbefore₅ _
    refine (Encode.addIndex_does access).step ?_
    intro _ s₆ _ hbefore₆ _
    refine .pure fun hfinal => ?_
    have hfinal₄ := hbefore₅.final (hbefore₆.final hfinal)
    have hfinal₃ := hbefore₄.final hfinal₄
    -- with no report the frame has grown by the index that waits
    obtain rfl : frame' = frame.more access.pending := hframe hfinal₃.quiet
    rw [Phrase.parts, parts, hvalue]
    intro part hmem
    rcases List.mem_cons.1 hmem with rfl | hmem
    · exact .first (hsound₁ (hbefore₂.final (hbefore₃.final hfinal₃)))
    · obtain rfl := List.mem_singleton.1 hmem
      refine .inside access.pending_nonneg ?_ (hsound₄ hfinal₄).2
      rw [Encode.exec_bind hrun₁, Encode.exec_bind hrun₂]
      exact hrun₃
  refine hplace.bind subset_rfl ?_
  intro _ s₁ _ _ hsound
  exact .pure hsound

end Vname

/-! ## Parts of declarations -/

namespace Declaration

theorem literal_opens {span : Span} {duplicated : Bool} {name : Name} {value : Expression}
    {known : Int} (hliteral : value.literalValue? = some known)
    (hencodes : (Declaration.const span duplicated name value).Walks made π Γ lo hi Γ') :
    (Phrase.declaration (.const span duplicated name value)).Opens made π Γ lo hi := by
  intro frame s hready
  refine (hencodes frame s hready).mono subset_rfl ?_
  intro _ s' _ _ _ _ part hmem
  have hmem' : part ∈ (Declaration.const span duplicated name value).parts := hmem
  rw [parts, hliteral] at hmem'
  cases hmem'

theorem const_opens {span : Span} {duplicated : Bool} {name : Name} {value : Expression}
    {id : BindingId} (hvalue : value.Walks made π Γ lo mid) (hname : name.binding = some id)
    (hid : id ∈ Set.Ico mid hi) (hlo : lo ≤ mid) (hliteral : value.literalValue? = none) :
    (Phrase.declaration (.const span duplicated name value)).Opens made π Γ lo hi := by
  intro frame s hready
  have hhi : mid ≤ hi := Nat.le_of_lt (Nat.lt_of_le_of_lt hid.1 hid.2)
  show (Encode.declaration (.const span duplicated name value) frame).Does made _ s _
  unfold Encode.declaration
  rw [hliteral]
  refine (hvalue frame s (hready.front hhi)).bind (Set.Ico_subset_Ico_right hhi) ?_
  intro n s₁ _ hbefore₁ hsound
  have hready₁ := hready.back hbefore₁ hlo
  refine (Encode.bind_does hname (hready₁.fresh id hid) (.unknownValue n frame.address)).bind
    (Set.singleton_subset_iff.2 ⟨Nat.le_trans hlo hid.1, hid.2⟩) ?_
  intro _ s₂ _ hbefore₂ _
  refine .pure fun hfinal => ?_
  rw [Phrase.parts, parts, hliteral]
  exact Expression.single (hsound (hbefore₂.final hfinal)).2

theorem sequence_opens {span : Span} {first second : Declaration} {Γ' Γ'' : Env}
    (hfirst : first.Walks made π Γ lo mid Γ') (hsecond : second.Walks made π Γ' mid hi Γ'')
    (hentries : Γ'.entries.map some = first.items.map Item.entered? ++ Γ.entries.map some)
    (hlo : lo ≤ mid) (hhi : mid ≤ hi) :
    (Phrase.declaration (.sequence span first second)).Opens made π Γ lo hi := by
  intro frame s hready
  refine Encode.pair_opens (.declaration first) (.declaration second) hready hlo hhi ?_ hentries ?_
  · refine (hfirst frame s (hready.front hhi)).mono subset_rfl ?_
    intro extra s' _ _ ⟨hfits, hsound⟩
    refine ⟨hfits, fun hfinal => ?_⟩
    obtain ⟨hstores, hsound⟩ := hsound hfinal
    exact ⟨⟨extra, hstores, rfl⟩, hsound⟩
  · intro frame s hready
    refine (hsecond frame s hready).mono subset_rfl ?_
    intro _ s' _ _ ⟨_, hsound⟩ hfinal
    exact (hsound hfinal).2

/-- The body of a routine sees the parameters and the routine. -/
theorem body_sound {routine : Declaration} {name : Name} {parameters : Formals} {phrase : Phrase}
    {Γ' : Env} {new : Set BindingId} (hroutine : routine.IsRoutine)
    (h : Encode.Enters made π Γ' new (parameters.Placed π) name parameters frame phrase.encode s)
    (hentries : Γ'.entries.map some =
      (parameters.items ++ [Item.declared routine]).map Item.entered? ++ Γ.entries.map some)
    (hchecked : ∃ p p', phrase.Checked made π Γ' p p' ∧ new = Set.Ico p.bindings p'.bindings) :
    ∀ part ∈ [Part.bodyOf routine name parameters phrase], part.Sound made π Γ frame s := by
  intro part hmem
  obtain rfl := List.mem_singleton.1 hmem
  obtain ⟨hlevel, hplaced, s₁, hreach, hready, n, s₂, hrun, hfinal⟩ := h
  obtain ⟨p, p', hchecked, rfl⟩ := hchecked
  exact ⟨hlevel, _, s₁, hreach, ⟨hroutine, rfl, hplaced⟩, Γ', hentries,
    ⟨⟨p, p', hchecked, hready⟩, n, s₂, hrun, hfinal⟩⟩

theorem proc_opens {span : Span} {duplicated : Bool} {name : Name} {parameters : Formals}
    {body : Command} {shapes : Signature} {Γ' : Env} {id : BindingId} {inner : Nat}
    (hname : name.binding = some id) (hid : lo ≤ id) (hinner : id < inner) (hmid : inner ≤ mid)
    (hhi : mid ≤ hi) (hplan : ⟨id, ⟨parameters.words, 0⟩, true⟩ ∈ π.routines)
    (hwords : parameters.words = Signature.words shapes)
    (hparameters : Formals.Places made π (Γ.enter name.spelling id (.proc shapes)).enclose inner mid
      Γ' parameters.words (parameters.Placed π) (Encode.formals parameters))
    (hbody : body.Encodes made π Γ' mid hi)
    (hentries : Γ'.entries.map some = (parameters.items ++
      [Item.declared (.proc span duplicated name parameters body)]).map Item.entered? ++
        Γ.entries.map some)
    (hchecked : ∃ p p', (Phrase.command body).Checked made π Γ' p p' ∧
      Set.Ico mid hi = Set.Ico p.bindings p'.bindings) :
    (Phrase.declaration (.proc span duplicated name parameters body)).Opens made π Γ lo hi := by
  intro frame s hready
  show (Encode.declaration (.proc span duplicated name parameters body) frame).Does made _ s _
  unfold Encode.declaration
  refine (Encode.routine_does hname hid hinner hmid hhi (Encodes.proc_represented hplan hwords)
    hparameters (C := fun frame a n lines => n = 0 ∧ Command.Code π frame a body lines)
    (Encodes.leaves_nothing hbody) hready).bind subset_rfl ?_
  intro _ s₁ _ _ ⟨_, henters, _⟩
  exact .pure fun hfinal => body_sound trivial (henters hfinal) hentries hchecked

theorem func_opens {span : Span} {duplicated : Bool} {name : Name} {parameters : Formals}
    {result bodyType : TypeDenoter} {body : Expression} {shapes : Signature} {Γ' : Env}
    {id : BindingId} {inner : Nat} (hname : name.binding = some id) (hid : lo ≤ id)
    (hinner : id < inner) (hmid : inner ≤ mid) (hhi : mid ≤ hi)
    (hplan : ⟨id, ⟨parameters.words, result.size⟩, true⟩ ∈ π.routines)
    (hwords : parameters.words = Signature.words shapes)
    (hparameters : Formals.Places made π (Γ.enter name.spelling id (.func shapes result)).enclose
      inner mid Γ' parameters.words (parameters.Placed π) (Encode.formals parameters))
    (hbody : body.Encodes made π Γ' mid hi bodyType)
    (hentries : Γ'.entries.map some = (parameters.items ++
      [Item.declared (.func span duplicated name parameters result body)]).map Item.entered? ++
        Γ.entries.map some)
    (hchecked : ∃ p p', (Phrase.expression body).Checked made π Γ' p p' ∧
      Set.Ico mid hi = Set.Ico p.bindings p'.bindings) :
    (Phrase.declaration (.func span duplicated name parameters result body)).Opens made π Γ
      lo hi := by
  intro frame s hready
  show (Encode.declaration (.func span duplicated name parameters result body) frame).Does
    made _ s _
  unfold Encode.declaration
  refine (Encode.routine_does hname hid hinner hmid hhi (Encodes.func_represented hplan hwords)
    hparameters (C := fun frame a n lines => bodyType.Exact ∧ n = bodyType.width ∧
      Expression.Code π frame a body lines n) hbody hready).bind subset_rfl ?_
  intro _ s₁ _ _ ⟨_, henters, _⟩
  exact .pure fun hfinal => body_sound trivial (henters hfinal) hentries hchecked

end Declaration

/-! ## Steps and runs -/

open TypeDenoter (Known)

theorem Command.Typed.opens {source command : Command} (h : Command.Typed Γ p source command p')
    (hknown : (Phrase.command command).Known made) (hplan : command.routines ⊆ π.routines) :
    (Phrase.command command).Opens made π Γ p.bindings p'.bindings := by
  cases h with
  | empty => exact Command.opens fun _ _ _ => ⟨(), _, rfl, .refl _, nofun⟩
  | assign htarget hvalue hvariable _ =>
    obtain ⟨hplan₁, hplan₂⟩ := List.append_subset.1 hplan
    exact Command.assign_opens (htarget.walks hknown.1 hplan₁) (hvalue.walks hknown.2 hplan₂)
      htarget.before.bindings hvalue.before.bindings hvariable
  | call hfind hargs => exact Command.call_opens (hargs.walks hknown hplan) rfl hfind
  | sequence hfirst hsecond =>
    obtain ⟨hplan₁, hplan₂⟩ := List.append_subset.1 hplan
    exact Command.sequence_opens (hfirst.walks hknown.1 hplan₁) (hsecond.walks hknown.2 hplan₂)
      hfirst.before.bindings hsecond.before.bindings
  | letIn hdeclared hbody =>
    obtain ⟨hplan₁, hplan₂⟩ := List.append_subset.1 hplan
    exact Command.letIn_opens (hdeclared.walks hknown.1 hplan₁) (hbody.walks hknown.2 hplan₂)
      hdeclared.entries_eq hdeclared.before.bindings hbody.before.bindings
  | ifElse hcondition hthen helse =>
    obtain ⟨hplan₁, hplan⟩ := List.append_subset.1 hplan
    obtain ⟨hplan₂, hplan₃⟩ := List.append_subset.1 hplan
    obtain ⟨hknown₁, hknown₂, hknown₃⟩ := hknown
    exact Command.ifElse_opens (hcondition.walks hknown₁ hplan₁) (hthen.walks hknown₂ hplan₂)
      (helse.walks hknown₃ hplan₃) hcondition.before.bindings hthen.before.bindings
      helse.before.bindings
  | whileDo hcondition hbody =>
    obtain ⟨hplan₁, hplan₂⟩ := List.append_subset.1 hplan
    exact Command.whileDo_opens (hcondition.walks hknown.1 hplan₁) (hbody.walks hknown.2 hplan₂)
      hcondition.before.bindings hbody.before.bindings
  | repeatUntil hbody hcondition =>
    obtain ⟨hplan₁, hplan₂⟩ := List.append_subset.1 hplan
    exact Command.repeatUntil_opens (hbody.walks hknown.1 hplan₁)
      (hcondition.walks hknown.2 hplan₂) hbody.before.bindings hcondition.before.bindings
  | loopWhile hbody hcondition htail =>
    obtain ⟨hplan₁, hplan⟩ := List.append_subset.1 hplan
    obtain ⟨hplan₂, hplan₃⟩ := List.append_subset.1 hplan
    obtain ⟨hknown₁, hknown₂, hknown₃⟩ := hknown
    exact Command.loopWhile_opens (hbody.walks hknown₁ hplan₁) (hcondition.walks hknown₂ hplan₂)
      (htail.walks hknown₃ hplan₃) hbody.before.bindings hcondition.before.bindings
      htail.before.bindings

theorem Expression.Typed.opens {source expression : Expression} {type : TypeDenoter}
    (h : Expression.Typed Γ p source expression type p')
    (hknown : (Phrase.expression expression).Known made)
    (hplan : expression.routines ⊆ π.routines) :
    (Phrase.expression expression).Opens made π Γ p.bindings p'.bindings := by
  have htype : type.Known made := h.known_of_all hknown
  cases h with
  | integer | character =>
    refine Expression.opens [] htype (fun _ => by rw [Encode.expression]) rfl fun frame s _ => ?_
    refine (Encode.emitPlain_does .loadL 0 _).step ?_
    intro _ s₁ _ _ _
    exact .pure fun _ => nofun
  | vname hfound => exact Expression.vname_opens (hfound.walks hknown.2 hplan) htype
  | call hfind hargs => exact Expression.call_opens (hargs.walks hknown.2 hplan) rfl hfind htype
  | ifElse hcondition hthen helse _ =>
    obtain ⟨hplan₁, hplan⟩ := List.append_subset.1 hplan
    obtain ⟨hplan₂, hplan₃⟩ := List.append_subset.1 hplan
    obtain ⟨-, hknown₁, hknown₂, hknown₃⟩ := hknown
    exact Expression.ifElse_opens (hcondition.walks hknown₁ hplan₁) (hthen.walks hknown₂ hplan₂)
      (helse.walks hknown₃ hplan₃) hcondition.before.bindings hthen.before.bindings
      helse.before.bindings htype
  | letIn hdeclared hbody =>
    obtain ⟨hplan₁, hplan₂⟩ := List.append_subset.1 hplan
    obtain ⟨-, hknown₁, hknown₂⟩ := hknown
    exact Expression.letIn_opens (hdeclared.walks hknown₁ hplan₁) (hbody.walks hknown₂ hplan₂)
      hdeclared.entries_eq hdeclared.before.bindings hbody.before.bindings htype
  | unary hoperand hfind _ =>
    exact Expression.unary_opens (hoperand.walks hknown.2 hplan) rfl hfind htype
  | binary hleft hright hfind _ _ | equality hleft hright hfind _ =>
    obtain ⟨hplan₁, hplan₂⟩ := List.append_subset.1 hplan
    obtain ⟨-, hknown₁, hknown₂⟩ := hknown
    exact Expression.binary_opens (hleft.walks hknown₁ hplan₁) (hright.walks hknown₂ hplan₂)
      hleft.before.bindings hright.before.bindings rfl hfind htype
  | array helements =>
    have hwalks := helements.walks hknown.2 hplan
    exact Expression.array_opens hwalks htype
  | record hfields =>
    have hwalks := hfields.walks hknown.2 hplan
    exact Expression.record_opens hwalks htype

theorem ArrayAggregate.Typed.opens {source elements : ArrayAggregate} {type : TypeDenoter}
    (h : ArrayAggregate.Typed Γ p source elements type p')
    (hknown : (Phrase.arrayAggregate elements).Known made)
    (hplan : elements.routines ⊆ π.routines) :
    (Phrase.arrayAggregate elements).Opens made π Γ p.bindings p'.bindings := by
  cases h with
  | one helement => exact ArrayAggregate.one_opens (helement.walks hknown hplan)
  | more helement hrest _ =>
    obtain ⟨hplan₁, hplan₂⟩ := List.append_subset.1 hplan
    exact ArrayAggregate.more_opens (helement.walks hknown.1 hplan₁)
      (hrest.walks hknown.2 hplan₂) helement.before.bindings hrest.before.bindings

theorem RecordAggregate.Typed.opens {source fields : RecordAggregate} {types : Fields}
    (h : RecordAggregate.Typed Γ p source fields types p')
    (hknown : (Phrase.recordAggregate fields).Known made)
    (hplan : fields.routines ⊆ π.routines) :
    (Phrase.recordAggregate fields).Opens made π Γ p.bindings p'.bindings := by
  cases h with
  | one hvalue => exact RecordAggregate.one_opens (hvalue.walks hknown hplan)
  | more hvalue hrest _ =>
    obtain ⟨hplan₁, hplan₂⟩ := List.append_subset.1 hplan
    exact RecordAggregate.more_opens (hvalue.walks hknown.1 hplan₁)
      (hrest.walks hknown.2 hplan₂) hvalue.before.bindings hrest.before.bindings

theorem Vname.Typed.opens {source vname : Vname} {type : TypeDenoter}
    (h : Vname.Typed Γ p source vname type p') (hknown : (Phrase.vname vname).Known made)
    (hplan : vname.routines ⊆ π.routines) :
    (Phrase.vname vname).Opens made π Γ p.bindings p'.bindings := by
  have htype : type.Known made := h.known_of_all hknown
  have hwalks := h.walks hknown hplan
  cases h with
  | const | var =>
    intro frame s hready
    refine (hwalks frame s hready).bind subset_rfl ?_
    intro _ s₁ _ _ _
    exact .pure fun _ => nofun
  | dot hrecord hfind =>
    exact Vname.dot_opens (hrecord.walks hknown.2 hplan) hrecord.type_eq hfind
      (hrecord.known_of_all hknown.2)
  | subscript harray hindex =>
    obtain ⟨hplan₁, hplan₂⟩ := List.append_subset.1 hplan
    obtain ⟨-, hknown₁, hknown₂⟩ := hknown
    have harray' := harray.walks hknown₁ hplan₁
    have hindex' := hindex.walks hknown₂ hplan₂
    cases hvalue : Expression.integerValue? _ with
    | some value =>
      have hsame := hindex.eq_of_literalValue? (Expression.literalValue?_of_integerValue? hvalue)
      rw [hsame]
      exact Vname.known_opens harray' hvalue htype
    | none =>
      exact Vname.unknown_opens harray' hindex' harray.before.bindings hindex.before.bindings
        hvalue htype

theorem Declaration.Typed.opens {source declaration : Declaration}
    (h : Declaration.Typed Γ p source declaration Γ' p')
    (hknown : (Phrase.declaration declaration).Known made)
    (hplan : declaration.routines ⊆ π.routines) :
    (Phrase.declaration declaration).Opens made π Γ p.bindings p'.bindings := by
  have hwalks := h.walks hknown hplan
  cases h with
  | @const _ _ _ _ _ _ value _ p₁ hvalue _ =>
    have hvalue' := hvalue.walks hknown hplan
    cases hliteral : value.literalValue? with
    | some known => exact Declaration.literal_opens hliteral hwalks
    | none =>
      exact Declaration.const_opens hvalue' rfl ⟨Nat.le_refl _, Nat.lt_succ_self _⟩
        hvalue.before.bindings hliteral
  | var | type =>
    intro frame s hready
    refine (hwalks frame s hready).mono subset_rfl ?_
    intro _ _ _ _ _ _
    exact nofun
  | proc _ hparameters hbody =>
    obtain ⟨hknown₁, hknown₂⟩ := hknown
    obtain ⟨hplan₁, hplan⟩ := List.append_subset.1 hplan
    obtain ⟨hplan₂, hplan₃⟩ := List.append_subset.1 hplan
    -- the body is entered with the procedure and its parameters in scope
    refine Declaration.proc_opens rfl (Nat.le_refl _) (Nat.lt_succ_self _)
      hparameters.before.bindings hbody.before.bindings (hplan₁ (List.mem_singleton_self _))
      hparameters.words_eq (hparameters.places hknown₁ hplan₂) (hbody.encodes hknown₂ hplan₃) ?_
      ⟨_, _, ⟨⟨_, hbody⟩, hknown₂, hplan₃⟩, rfl⟩
    -- these are the entries that the parameters and the procedure itself add
    rw [hparameters.entries_eq, List.map_append, List.append_assoc, Env.entries_enclose]
    simp only [Env.entries_enter, List.map_cons, Item.entered?, Declaration.introduces,
      hparameters.shapes_eq]
    rfl
  | func hresult _ hparameters hbody hequivalent =>
    obtain ⟨hknown₁, -, hknown₂⟩ := hknown
    obtain ⟨hplan₁, hplan⟩ := List.append_subset.1 hplan
    obtain ⟨hplan₂, hplan₃⟩ := List.append_subset.1 hplan
    -- the body is entered with the function and its parameters in scope
    refine Declaration.func_opens rfl hresult.before.bindings (Nat.lt_succ_self _)
      hparameters.before.bindings hbody.before.bindings (hplan₁ (List.mem_singleton_self _))
      hparameters.words_eq (hparameters.places hknown₁ hplan₂) (hbody.encodes hknown₂ hplan₃) ?_
      ⟨_, _, ⟨⟨_, _, hbody⟩, hknown₂, hplan₃⟩, rfl⟩
    rw [hparameters.entries_eq, List.map_append, List.append_assoc, Env.entries_enclose]
    simp only [Env.entries_enter, List.map_cons, Item.entered?, Declaration.introduces,
      hparameters.shapes_eq]
    rfl
  | sequence hfirst hsecond =>
    obtain ⟨hplan₁, hplan₂⟩ := List.append_subset.1 hplan
    exact Declaration.sequence_opens (hfirst.walks hknown.1 hplan₁)
      (hsecond.walks hknown.2 hplan₂) hfirst.entries_eq hfirst.before.bindings
      hsecond.before.bindings

theorem Actuals.Typed.opens {source actuals : Actuals} {shapes : Signature}
    (h : Actuals.Typed Γ p source shapes actuals p')
    (hknown : (Phrase.actuals actuals).Known made) (hplan : actuals.routines ⊆ π.routines) :
    (Phrase.actuals actuals).Opens made π Γ p.bindings p'.bindings := by
  have hwalks := h.walks hknown hplan
  cases h with
  | empty =>
    intro frame s hready
    refine (hwalks frame s hready).mono subset_rfl ?_
    intro _ _ _ _ _ _
    exact nofun
  | one hfirst => exact Actuals.one_opens (hfirst.walks hknown hplan)
  | more hfirst hrest =>
    obtain ⟨hplan₁, hplan₂⟩ := List.append_subset.1 hplan
    exact Actuals.more_opens (hfirst.walks hknown.1 hplan₁) (hrest.walks hknown.2 hplan₂)
      hfirst.before.bindings hrest.before.bindings

theorem Actual.Typed.opens {source actual : Actual} {shape : FormalShape}
    (h : Actual.Typed Γ p source shape actual p') (hknown : (Phrase.actual actual).Known made)
    (hplan : actual.routines ⊆ π.routines) :
    (Phrase.actual actual).Opens made π Γ p.bindings p'.bindings := by
  have hwalks := h.walks hknown hplan
  cases h with
  | const hvalue _ => exact Actual.const_opens (hvalue.walks hknown hplan)
  | var hfound hvariable _ => exact Actual.var_opens (hfound.walks hknown hplan) hvariable
  | proc | func =>
    intro frame s hready
    refine (hwalks frame s hready).mono subset_rfl ?_
    intro _ _ _ _ _ _
    exact nofun

/-- The encoder comes to every part of a phrase of a decorated tree. -/
theorem Phrase.Checked.opens {phrase : Phrase} (h : phrase.Checked made π Γ p p') :
    phrase.Opens made π Γ p.bindings p'.bindings := by
  obtain ⟨htyped, hknown, hplan⟩ := h
  cases phrase with
  | command =>
    obtain ⟨_, htyped⟩ := htyped
    exact htyped.opens hknown hplan
  | declaration =>
    obtain ⟨_, _, htyped⟩ := htyped
    exact htyped.opens hknown hplan
  | expression | arrayAggregate | recordAggregate | vname | actuals | actual =>
    obtain ⟨_, _, htyped⟩ := htyped
    exact htyped.opens hknown hplan

theorem Call.Sound.parts {call : Call} (h : call.Sound made π Γ) :
    ∀ part ∈ call.phrase.parts, part.Sound made π Γ call.frame call.encoder := by
  obtain ⟨⟨p, p', hchecked, hready⟩, words, s', hrun, hfinal⟩ := h
  exact (hchecked.opens call.frame call.encoder hready).ends hrun hfinal

/-- The items in scope make the entries of the environment that the call is sound in. -/
def Visit.Sound (made : List TypeDenoter) (π : Plan) (visit : Visit) : Prop :=
  ∃ Γ : Env, visit.context.items.map Item.entered? = Γ.entries.map some ∧
    visit.call.Sound made π Γ

/-- From a sound visit the encoder comes to sound visits. -/
theorem Visit.Sound.part {visit : Visit} (h : visit.Sound made π) {part : Part}
    (hpart : part ∈ visit.call.phrase.parts)
    (hrun : (part.reach visit.call.frame).exec visit.call.encoder = (.ok frame, s)) :
    part.opening.Frames π visit.call.frame frame ∧
      Visit.Sound made π ⟨part.opening.context visit.context, ⟨part.phrase, frame, s⟩⟩ := by
  obtain ⟨Γ, hentries, hsound⟩ := h
  obtain ⟨-, frame', s', hrun', hframes, Γ', hentries', hsound'⟩ := hsound.parts part hpart
  rw [hrun] at hrun'
  obtain ⟨hframe, rfl⟩ := Prod.mk.inj hrun'
  obtain rfl := Except.ok.inj hframe
  refine ⟨hframes, Γ', ?_, hsound'⟩
  rw [hentries', ← hentries, ← List.map_append]
  rfl

theorem Visit.Sound.leads {visit visit' : Visit} (h : visit.Sound made π)
    (hleads : visit.Leads visit') : visit'.Sound made π := by
  induction hleads with
  | refl => exact h
  | part _ hpart _ hrun ih => exact (ih.part hpart hrun).2

end TriangleTam
