import TriangleTam.Proofs.Meaning.Source

/-! # Fuel

  Fuel only bounds how far a run is followed. A run that has ended, well or
  with a fault, ends in the same way with more fuel; so a program **ends** in
  one way at most, or it **diverges**, which is to end with no fuel at all.
-/

namespace TriangleTam

/-! ## Steps with more fuel -/

/-- The first step ran out of fuel, or the second does the same. -/
def Prolongs {α : Type} (x y : Except Stop α) : Prop := x = .error .timeout ∨ x = y

namespace Prolongs

variable {α β : Type}

theorem refl (x : Except Stop α) : Prolongs x x := .inr rfl

theorem bind {x y : Except Stop α} {f g : α → Except Stop β} (h : Prolongs x y)
    (hfg : ∀ a, Prolongs (f a) (g a)) : Prolongs (x >>= f) (y >>= g) := by
  rcases h with rfl | rfl
  · exact .inl rfl
  · cases x with
    | error reason => exact .refl _
    | ok a => exact hfg a

/-- The same step goes on. -/
theorem after (x : Except Stop α) {f g : α → Except Stop β} (hfg : ∀ a, Prolongs (f a) (g a)) :
    Prolongs (x >>= f) (x >>= g) := (refl x).bind hfg

/-- The step is followed by the same one. -/
theorem before {x y : Except Stop α} (h : Prolongs x y) (f : α → Except Stop β) :
    Prolongs (x >>= f) (y >>= f) := h.bind fun a => .refl (f a)

end Prolongs

/-- The second way to apply functions gives what the first gives, unless that ran out of fuel. -/
def Application.Prolongs (application application' : Application) : Prop :=
  ∀ meaning arguments w,
    TriangleTam.Prolongs (application meaning arguments w) (application' meaning arguments w)

section

variable {I : Interpretation} {application application' : Application}

theorem Application.Prolongs.apply (h : application.Prolongs application') (meaning : Meaning)
    (arguments : List Meaning) (w : World) :
    TriangleTam.Prolongs (meaning.apply I application arguments w)
      (meaning.apply I application' arguments w) := by
  cases meaning with
  | primitive => exact .refl _
  | _ => exact h _ _ _

mutual

theorem Expression.eval_prolongs (h : application.Prolongs application') (scene : Scene)
    (w : World) : (e : Expression) →
    Prolongs (e.eval I application scene w) (e.eval I application' scene w)
  | .integer .. | .character .. => .refl _
  | .vname _ _ found => (found.locate_prolongs h scene w).before _
  | .call _ _ callee args =>
    (args.eval_prolongs h scene w).bind fun arguments =>
      .after _ fun meaning => h.apply meaning arguments w
  | .ifElse _ _ condition thenBranch elseBranch => by
    simp only [Expression.eval]
    refine (condition.eval_prolongs h scene w).bind fun value => .after _ fun holds => ?_
    cases holds with
    | true => exact thenBranch.eval_prolongs h scene w
    | false => exact elseBranch.eval_prolongs h scene w
  | .letIn _ _ declared body => by
    simp only [Expression.eval]
    exact (declared.elaborate_prolongs h scene w).bind fun inner => body.eval_prolongs h _ _
  | .unary _ _ operator operand => (operand.eval_prolongs h scene w).before _
  | .binary _ _ left operator right =>
    (left.eval_prolongs h scene w).bind fun _ => (right.eval_prolongs h scene w).before _
  | .array _ _ elements => elements.eval_prolongs h scene w
  | .record _ _ fields => fields.eval_prolongs h scene w

theorem ArrayAggregate.eval_prolongs (h : application.Prolongs application') (scene : Scene)
    (w : World) : (elements : ArrayAggregate) →
    Prolongs (elements.eval I application scene w) (elements.eval I application' scene w)
  | .one _ element => element.eval_prolongs h scene w
  | .more _ element rest =>
    (element.eval_prolongs h scene w).bind fun _ => (rest.eval_prolongs h scene w).before _

theorem RecordAggregate.eval_prolongs (h : application.Prolongs application') (scene : Scene)
    (w : World) : (fields : RecordAggregate) →
    Prolongs (fields.eval I application scene w) (fields.eval I application' scene w)
  | .one _ _ value => value.eval_prolongs h scene w
  | .more _ _ value rest =>
    (value.eval_prolongs h scene w).bind fun _ => (rest.eval_prolongs h scene w).before _

theorem Vname.locate_prolongs (h : application.Prolongs application') (scene : Scene)
    (w : World) : (v : Vname) →
    Prolongs (v.locate I application scene w) (v.locate I application' scene w)
  | .simple .. => .refl _
  | .dot _ _ _ record _ => (record.locate_prolongs h scene w).before _
  | .subscript _ _ _ array index =>
    (array.locate_prolongs h scene w).bind fun _ => (index.eval_prolongs h scene w).before _

theorem Declaration.elaborate_prolongs (h : application.Prolongs application') (scene : Scene)
    (w : World) : (d : Declaration) →
    Prolongs (d.elaborate I application scene w) (d.elaborate I application' scene w)
  | .const _ _ _ value => (value.eval_prolongs h scene w).before _
  | .var .. | .proc .. | .func .. | .type .. => .refl _
  | .sequence _ first second =>
    (first.elaborate_prolongs h scene w).bind fun _ => second.elaborate_prolongs h _ _

theorem Actuals.eval_prolongs (h : application.Prolongs application') (scene : Scene)
    (w : World) : (args : Actuals) →
    Prolongs (args.eval I application scene w) (args.eval I application' scene w)
  | .empty _ => .refl _
  | .one _ first => (first.eval_prolongs h scene w).before _
  | .more _ first rest =>
    (first.eval_prolongs h scene w).bind fun _ => (rest.eval_prolongs h scene w).before _

theorem Actual.eval_prolongs (h : application.Prolongs application') (scene : Scene)
    (w : World) : (a : Actual) →
    Prolongs (a.eval I application scene w) (a.eval I application' scene w)
  | .const _ value => (value.eval_prolongs h scene w).before _
  | .var _ found => (found.locate_prolongs h scene w).before _
  | .proc .. | .func .. => .refl _

end

end

/-! ## Commands -/

namespace Run

variable {α β : Type}

/-- A step and what comes after it, if the step returns. -/
theorem exec_bind (m : Run α) (f : α → Run β) (w : World) :
    (m >>= f).exec w = match m.exec w with
      | (.ok a, w') => (f a).exec w'
      | (.error reason, w') => (.error reason, w') := by
  unfold exec ExceptT.run StateT.run
  simp only [Bind.bind, ExceptT.bind, ExceptT.mk, StateT.bind, ExceptT.bindCont]
  cases m w with
  | mk outcome w' => cases outcome <;> rfl

/-- Whatever the world, the first step ran out of fuel, or the second does the same. -/
def Prolongs (m m' : Run α) : Prop := ∀ w, (m.exec w).1 = .error .timeout ∨ m.exec w = m'.exec w

namespace Prolongs

theorem refl (m : Run α) : m.Prolongs m := fun _ => .inr rfl

theorem lift {x y : Except Stop α} (h : TriangleTam.Prolongs x y) :
    Run.Prolongs (liftM x) (liftM y) := by
  intro w
  rcases h with rfl | rfl
  · exact .inl rfl
  · exact .inr rfl

theorem bind {m m' : Run α} {f g : α → Run β} (h : m.Prolongs m')
    (hfg : ∀ a, (f a).Prolongs (g a)) : (m >>= f).Prolongs (m' >>= g) := by
  intro w
  rw [exec_bind m f, exec_bind m' g]
  rcases h w with hout | hsame
  · cases hm : m.exec w with
    | mk outcome w' =>
      rw [hm] at hout
      obtain rfl : outcome = .error .timeout := hout
      exact .inl rfl
  · rw [← hsame]
    cases m.exec w with
    | mk outcome w' =>
      cases outcome with
      | error reason => exact .inr rfl
      | ok a => exact hfg a w'

theorem ask {x y : World → Except Stop α} (h : ∀ w, TriangleTam.Prolongs (x w) (y w)) :
    (ask x).Prolongs (ask y) := fun w => lift (h w) w

/-- More fuel prolongs a loop. -/
theorem iterate {test test' : Run Bool} {body body' : Run Unit} (htest : test.Prolongs test')
    (hbody : body.Prolongs body') {fuel fuel' : Nat} (hle : fuel ≤ fuel') :
    (iterate test body fuel).Prolongs (iterate test' body' fuel') := by
  induction fuel generalizing fuel' with
  | zero => exact fun _ => .inl rfl
  | succ fuel ih =>
    cases fuel' with
    | zero => exact absurd hle (Nat.not_succ_le_zero fuel)
    | succ fuel' =>
      simp only [Run.iterate]
      refine htest.bind fun holds => ?_
      cases holds with
      | false => exact .refl _
      | true => exact hbody.bind fun _ => ih (Nat.le_of_succ_le_succ hle)

end Prolongs

end Run

/-- The second way to call routines has the more fuel. -/
structure Callees.Prolongs (callees callees' : Callees) : Prop where
  fuel    : callees.fuel ≤ callees'.fuel
  apply   : callees.apply.Prolongs callees'.apply
  perform : ∀ meaning arguments,
    (callees.perform meaning arguments).Prolongs (callees'.perform meaning arguments)

section

variable {I : Interpretation} {callees callees' : Callees}

theorem Callees.Prolongs.perform_meaning (h : callees.Prolongs callees') (meaning : Meaning)
    (arguments : List Meaning) :
    (meaning.perform I callees arguments).Prolongs (meaning.perform I callees' arguments) := by
  cases meaning with
  | primitive => exact .refl _
  | _ => exact h.perform _ _

theorem Callees.Prolongs.test (h : callees.Prolongs callees') (scene : Scene)
    (condition : Expression) :
    (condition.test I callees scene).Prolongs (condition.test I callees' scene) :=
  .ask fun w => (condition.eval_prolongs h.apply scene w).before _

mutual

theorem Command.perform_prolongs (h : callees.Prolongs callees') (scene : Scene) :
    (c : Command) → (c.perform I callees scene).Prolongs (c.perform I callees' scene)
  | .empty _ => .refl _
  | .assign _ target value => by
    simp only [Command.perform]
    refine (Run.Prolongs.ask fun w => target.locate_prolongs h.apply scene w).bind fun place => ?_
    exact (Run.Prolongs.ask fun w => value.eval_prolongs h.apply scene w).bind fun _ => .refl _
  | .call _ callee args => by
    simp only [Command.perform]
    refine (Run.Prolongs.ask fun w => args.eval_prolongs h.apply scene w).bind fun arguments => ?_
    exact (Run.Prolongs.refl _).bind fun meaning => h.perform_meaning meaning arguments
  | .sequence _ first second => by
    simp only [Command.perform]
    exact (first.perform_prolongs h scene).bind fun _ => second.perform_prolongs h scene
  | .letIn _ declared body => by
    simp only [Command.perform]
    refine (Run.Prolongs.refl _).bind fun before => ?_
    refine (Run.Prolongs.lift (declared.elaborate_prolongs h.apply scene before)).bind
      fun inner => ?_
    refine (Run.Prolongs.refl _).bind fun _ => ?_
    exact (body.perform_prolongs h inner.1).bind fun _ => .refl _
  | .ifElse _ condition thenBranch elseBranch => by
    simp only [Command.perform]
    refine (h.test scene condition).bind fun holds => ?_
    cases holds with
    | true => exact thenBranch.perform_prolongs h scene
    | false => exact elseBranch.perform_prolongs h scene
  | .whileDo _ condition body =>
    .iterate (h.test scene condition) (body.perform_prolongs h scene) h.fuel
  | .repeatUntil _ body condition => by
    simp only [Command.perform]
    -- the body is performed once before the rounds
    refine (body.perform_prolongs h scene).bind fun _ => ?_
    exact .iterate ((h.test scene condition).bind fun _ => .refl _)
      (body.perform_prolongs h scene) h.fuel
  | .loopWhile _ body condition tail => by
    simp only [Command.perform]
    refine (body.perform_prolongs h scene).bind fun _ => ?_
    exact .iterate (h.test scene condition)
      ((tail.perform_prolongs h scene).bind fun _ => body.perform_prolongs h scene) h.fuel

end

end

/-! ## Programs -/

variable {I : Interpretation}

theorem applyWith_prolongs {fuel fuel' : Nat} (hle : fuel ≤ fuel') :
    (applyWith I fuel).Prolongs (applyWith I fuel') := by
  induction fuel generalizing fuel' with
  | zero => exact fun _ _ _ => .inl rfl
  | succ fuel ih =>
    cases fuel' with
    | zero => exact absurd hle (Nat.not_succ_le_zero fuel)
    | succ fuel' =>
      intro meaning arguments w
      cases meaning with
      | function id formals body scene =>
        refine Prolongs.after _ fun inner => ?_
        exact body.eval_prolongs (ih (Nat.le_of_succ_le_succ hle)) inner w
      | _ => exact .refl _

theorem Interpretation.callees_prolongs {fuel fuel' : Nat} (hle : fuel ≤ fuel') :
    (I.callees fuel).Prolongs (I.callees fuel') := by
  induction fuel generalizing fuel' with
  | zero => exact ⟨hle, applyWith_prolongs hle, fun _ _ _ => .inl rfl⟩
  | succ fuel ih =>
    cases fuel' with
    | zero => exact absurd hle (Nat.not_succ_le_zero fuel)
    | succ fuel' =>
      refine ⟨hle, applyWith_prolongs hle, fun meaning arguments => ?_⟩
      cases meaning with
      | procedure id formals body scene =>
        refine (Run.Prolongs.refl _).bind fun inner => ?_
        exact body.perform_prolongs (ih (Nat.le_of_succ_le_succ hle)) inner
      | _ => exact .refl _

namespace Program

/-- The program ends, well or with a fault, in a world. -/
def Ends (program : Program) (I : Interpretation) (outcome : Except Stop Unit) (w : World) : Prop :=
  outcome ≠ .error .timeout ∧ ∃ fuel, program.run I fuel = (outcome, w)

/-- The program never ends. -/
def Diverges (program : Program) (I : Interpretation) : Prop :=
  ∀ fuel, (program.run I fuel).1 = .error .timeout

/-- A run that has ended does not change with more fuel. -/
theorem run_prolongs (program : Program) (I : Interpretation) {fuel fuel' : Nat}
    (hle : fuel ≤ fuel') :
    (program.run I fuel).1 = .error .timeout ∨ program.run I fuel = program.run I fuel' :=
  program.command.perform_prolongs (Interpretation.callees_prolongs hle) .standard .empty

/-- A program ends in one way at most. -/
theorem Ends.unique {program : Program} {outcome outcome' : Except Stop Unit} {w w' : World}
    (h : program.Ends I outcome w) (h' : program.Ends I outcome' w') :
    outcome = outcome' ∧ w = w' := by
  obtain ⟨hends, fuel, hrun⟩ := h
  obtain ⟨hends', fuel', hrun'⟩ := h'
  have hsame : program.run I fuel = program.run I fuel' := by
    rcases Nat.le_total fuel fuel' with hle | hle
    · rcases program.run_prolongs I hle with hout | hsame
      · rw [hrun] at hout
        exact absurd hout hends
      · exact hsame
    · rcases program.run_prolongs I hle with hout | hsame
      · rw [hrun'] at hout
        exact absurd hout hends'
      · exact hsame.symm
  rw [hrun, hrun'] at hsame
  exact Prod.mk.inj hsame

/-- A program ends if it does not diverge. -/
theorem diverges_or_ends (program : Program) (I : Interpretation) :
    program.Diverges I ∨ ∃ outcome w, program.Ends I outcome w := by
  by_cases h : program.Diverges I
  · exact .inl h
  · obtain ⟨fuel, hfuel⟩ := Classical.not_forall.1 h
    exact .inr ⟨_, _, hfuel, fuel, rfl⟩

end Program

end TriangleTam
