import TriangleTam.Proofs.Coding.Representation

/-! # Encoding of commands

  A command encodes if its parts do. The parts are encoded one after the
  other, each with the encoder that the parts before it leave, and each binds
  names in its own share of the new bindings.
-/

namespace TriangleTam

variable {made : List TypeDenoter} {π : Plan} {Γ : Env} {lo mid hi : Nat}

-- the equations of the encoder are made here, once, and not by many proofs at the same time
attribute [local simp] Encode.command Encode.expression Encode.arrayAggregate
  Encode.recordAggregate Encode.place Encode.declaration Encode.actuals Encode.actual
  Encode.formals Encode.formal Command.inner Expression.inner ArrayAggregate.inner
  RecordAggregate.inner Vname.inner Declaration.inner Actuals.inner Actual.inner

/-! ## Storage that is given up -/

namespace Encode

theorem ite_bind {α : Type} (c : Prop) [Decidable c] (m : Encode PUnit) (k : PUnit → Encode α) :
    (if c then m >>= k else k ⟨⟩) = (if c then m else pure ⟨⟩) >>= k := by
  by_cases hc : c
  · rw [if_pos hc, if_pos hc]
  · rw [if_neg hc, if_neg hc, pure_bind]

/-- Storage is given up if there is any. -/
theorem release_does {s : Encoder} (depth n extra : Int) :
    (if extra > 0 then emitPlain .pop n extra else pure ⟨⟩).Does made ∅ s fun _ s' =>
      s.Writes s' (codeOf (Line.release depth n extra)) := by
  unfold Line.release
  by_cases hextra : extra > 0
  · rw [if_pos hextra, if_pos hextra, codeOf_straight]
    exact emitPlain_does .pop n extra
  · rw [if_neg hextra, if_neg hextra]
    exact .pure (.refl s)

end Encode

/-- The value of a condition is one word. -/
theorem Expression.Encodes.test {condition : Expression}
    (h : condition.Encodes made π Γ lo hi .boolean) {frame : Frame} {s : Encoder}
    (hready : s.Ready made π Γ (Set.Ico lo hi)) :
    (Encode.expression condition frame).Does made (Set.Ico lo hi) s fun _ s' =>
      s.Yields π s' ((Phrase.expression condition).calls frame s (condition.inner frame s))
        frame.size (frame.size + 1) fun lines =>
          Expression.Code π frame s.start condition lines 1 := by
  refine (h frame s hready).mono subset_rfl ?_
  intro n s' _ _ hyields hfinal
  obtain ⟨lines, ⟨-, rfl, hcode⟩, hwrote⟩ := hyields hfinal
  exact ⟨lines, hcode, hwrote⟩

namespace Command.Encodes

/-- The call for the command itself comes on top of those it makes. -/
theorem of_inner {command : Command}
    (h : ∀ frame s, s.Ready made π Γ (Set.Ico lo hi) →
      (Encode.command command frame).Does made (Set.Ico lo hi) s fun _ s' =>
        s.Yields π s' (command.inner frame s) frame.size frame.size
          (Command.Code π frame s.start command)) :
    command.Encodes made π Γ lo hi := by
  intro frame s hready
  refine (h frame s hready).mono subset_rfl ?_
  intro _ s' hrun _ hyields hfinal
  obtain ⟨lines, hcode, hwrote⟩ := hyields hfinal
  have hreturns : ((Phrase.command command).encode frame).exec s = (.ok 0, s') :=
    Encode.exec_bind hrun
  exact ⟨lines, hcode, hwrote.call (Int.add_zero _).symm hreturns trivial hcode.closed⟩

theorem empty {span : Span} : (Command.empty span).Encodes made π Γ lo hi := by
  apply of_inner
  intro frame s _
  unfold Encode.command
  refine .pure fun hfinal => ⟨[], .empty, ?_⟩
  exact .nil (.refl s) hfinal.quiet frame.size

/-- The value is encoded before the target. -/
theorem assign {span : Span} {target : Vname} {value : Expression}
    {targetType valueType : TypeDenoter}
    (htarget : target.Encodes made π Γ lo mid targetType)
    (hvalue : value.Encodes made π Γ mid hi valueType)
    (hlo : lo ≤ mid) (hhi : mid ≤ hi) (hvariable : target.isVariable = true) :
    (Command.assign span target value).Encodes made π Γ lo hi := by
  apply of_inner
  intro frame s hready
  unfold Encode.command
  have hready₀ := hready.mono (Set.Ico_subset_Ico_left hlo)
  -- forwards through the steps: the target is encoded above the value
  refine (hvalue frame s hready₀).bind (Set.Ico_subset_Ico_left hlo) ?_
  intro n s₁ hrun₁ hbefore₁ hyields₁
  have hready₁ := (hready.front hhi).after hbefore₁ Set.Ico_disjoint_Ico_same.symm
  refine (Encode.grow_does frame n).step ?_
  intro frame' s₂ hrun₂ hbefore₂ ⟨hgrow, hframe⟩
  refine (htarget frame' s₂ (hready₁.step hbefore₂)).bind (Set.Ico_subset_Ico_right hhi) ?_
  intro ⟨entity, access⟩ s₃ _ hbefore₃ ⟨_, hentity, hyields₃⟩
  refine (Encode.store_does (hentity hvariable) access frame' n).last ?_
  intro _ s₄ _ hbefore₄ hstore hfinal
  -- backwards from the end: where it is final, each part wrote its code
  have hfinal₃ := hbefore₄.final hfinal
  have hfinal₂ := hbefore₃.final hfinal₃
  obtain rfl : frame' = frame.more n := hframe hfinal₂.quiet
  obtain ⟨l₁, ⟨-, -, hcode₁⟩, hwrote₁⟩ := hyields₁ (hbefore₂.final hfinal₂)
  obtain ⟨l₂, hcode₂, hwrote₂⟩ := hyields₃ hfinal₃
  have hwrote₁' := hwrote₁.append_nil hgrow hfinal₂.quiet
  rw [hwrote₁'.start_eq] at hcode₂
  refine ⟨_, .assign hcode₁ hcode₂ (hentity hvariable), ?_⟩
  rw [Command.inner, Encode.after_eq hrun₁, Encode.after_eq hrun₂]
  have hnil := (hentity hvariable).storeCode_ne_nil (frame.more n) n access
  exact hwrote₁'.append (hwrote₂.append_straight hstore hfinal.quiet fun h => absurd h hnil)

theorem call {span : Span} {callee : Name} {args : Actuals} {name : String} {id : BindingId}
    {shapes : Signature} (hargs : args.Encodes made π Γ lo hi shapes)
    (hname : callee.binding = some id) (hfind : Γ.find? name = some (id, .proc shapes)) :
    (Command.call span callee args).Encodes made π Γ lo hi := by
  apply of_inner
  intro frame s hready
  unfold Encode.command
  obtain ⟨entity, hat, htransfers⟩ := hready.found hfind nofun
  refine (hargs frame s hready).bind subset_rfl ?_
  intro n s₁ _ hbefore₁ hyields
  refine (Encode.entityOf_does hname (hbefore₁.keeps hat)).step ?_
  rintro _ _ - - ⟨rfl, rfl⟩
  refine (Encode.requesting_does (Entity.call_appends htransfers.1.isRoutine _ _)).last ?_
  intro _ s₂ _ hbefore₂ hwrites hfinal
  have hfinal₁ := hbefore₂.final hfinal
  obtain ⟨l, ⟨rfl, hcode⟩, hwrote⟩ := hyields hfinal₁
  refine ⟨_, .call hcode hname (hfinal₁.entities (hbefore₁.keeps hat)) htransfers.1 rfl, ?_⟩
  have hentry := (htransfers.1.closed_callLines frame 0).entry
  rw [Int.add_zero] at hentry
  exact hwrote.append_plain
    (.of_writes hwrites hfinal.quiet (htransfers.codeOf_callLines frame _) hentry)

theorem sequence {span : Span} {first second : Command}
    (hfirst : first.Encodes made π Γ lo mid) (hsecond : second.Encodes made π Γ mid hi)
    (hlo : lo ≤ mid) (hhi : mid ≤ hi) :
    (Command.sequence span first second).Encodes made π Γ lo hi := by
  apply of_inner
  intro frame s hready
  unfold Encode.command
  refine (hfirst frame s (hready.front hhi)).bind (Set.Ico_subset_Ico_right hhi) ?_
  intro _ s₁ hrun₁ hbefore₁ hyields₁
  refine (hsecond frame s₁ (hready.back hbefore₁ hlo)).mono (Set.Ico_subset_Ico_left hlo) ?_
  intro _ s₂ _ hbefore₂ hyields₂ hfinal
  obtain ⟨l₁, hcode₁, hwrote₁⟩ := hyields₁ (hbefore₂.final hfinal)
  obtain ⟨l₂, hcode₂, hwrote₂⟩ := hyields₂ hfinal
  rw [hwrote₁.start_eq] at hcode₂
  refine ⟨_, .sequence hcode₁ hcode₂, ?_⟩
  rw [Command.inner, Encode.after_eq hrun₁]
  exact hwrote₁.append hwrote₂

theorem letIn {span : Span} {declared : Declaration} {body : Command} {Γ' : Env}
    (hdeclared : declared.Encodes made π Γ.enclose lo mid Γ')
    (hbody : body.Encodes made π Γ' mid hi) (hlo : lo ≤ mid) (hhi : mid ≤ hi) :
    (Command.letIn span declared body).Encodes made π Γ lo hi := by
  apply of_inner
  intro frame s hready
  unfold Encode.command
  refine (hdeclared frame s (hready.front hhi).enclose).bind (Set.Ico_subset_Ico_right hhi) ?_
  intro extra s₁ hrun₁ hbefore₁ ⟨hfits, hyields₁⟩
  refine (Encode.grow_does frame extra).step ?_
  intro frame' s₂ hrun₂ hbefore₂ ⟨hgrow, hframe⟩
  have hready₁ := (hready.back hbefore₁ hlo).entering hfits
  refine (hbody frame' s₂ (hready₁.step hbefore₂)).bind (Set.Ico_subset_Ico_left hlo) ?_
  intro _ s₃ _ hbefore₃ hyields₃
  refine (Encode.release_does (frame.size + extra) 0 extra).last ?_
  intro _ s₄ _ hbefore₄ hrelease hfinal
  have hfinal₃ := hbefore₄.final hfinal
  have hfinal₂ := hbefore₃.final hfinal₃
  obtain rfl : frame' = frame.more extra := hframe hfinal₂.quiet
  obtain ⟨l₁, hcode₁, hwrote₁⟩ := hyields₁ (hbefore₂.final hfinal₂)
  obtain ⟨l₂, hcode₂, hwrote₂⟩ := hyields₃ hfinal₃
  have hwrote₁' := hwrote₁.append_nil hgrow hfinal₂.quiet
  rw [hwrote₁'.start_eq] at hcode₂
  refine ⟨_, .letIn hcode₁ hcode₂, ?_⟩
  rw [Command.inner, Encode.after_eq hrun₁, Encode.after_eq hrun₂]
  have hentry := Line.depthAt_release hcode₁.extra_nonneg
    (show frame.size = frame.size + extra - extra by omega) (n := 0)
  exact hwrote₁'.append (hwrote₂.append_plain (.of_writes hrelease hfinal.quiet rfl hentry))

theorem ifElse {span : Span} {condition : Expression} {thenBranch elseBranch : Command}
    {mid' : Nat} (hcondition : condition.Encodes made π Γ lo mid .boolean)
    (hthen : thenBranch.Encodes made π Γ mid mid') (helse : elseBranch.Encodes made π Γ mid' hi)
    (hlo : lo ≤ mid) (hmid : mid ≤ mid') (hhi : mid' ≤ hi) :
    (Command.ifElse span condition thenBranch elseBranch).Encodes made π Γ lo hi := by
  apply of_inner
  intro frame s hready
  unfold Encode.command
  have hfront := hready.front (Nat.le_trans hmid hhi)
  -- forwards through the steps
  refine (hcondition.test hfront).bind (Set.Ico_subset_Ico_right (Nat.le_trans hmid hhi)) ?_
  intro _ s₁ hrun₁ hbefore₁ hyields₁
  have hready₁ := hready.back hbefore₁ hlo
  refine (Encode.emitForward_does .jumpIf Machine.falseRep).step ?_
  intro toElse s₂ hrun₂ hbefore₂ ⟨htoElse, hjumpIf⟩
  have hready₂ := hready₁.step hbefore₂
  refine (hthen frame s₂ (hready₂.front hhi)).bind (Set.Ico_subset_Ico hlo hhi) ?_
  intro _ s₃ hrun₃ hbefore₃ hyields₃
  have hready₃ := hready₂.back hbefore₃ hmid
  refine (Encode.emitForward_does .jump 0).step ?_
  intro toEnd s₄ hrun₄ hbefore₄ ⟨htoEnd, hjump⟩
  subst htoElse htoEnd
  refine (Encode.patch_does s₁.start).step ?_
  intro _ s₅ hrun₅ hbefore₅ hpatch
  have hready₅ := (hready₃.step hbefore₄).step hbefore₅
  refine (helse frame s₅ hready₅).bind (Set.Ico_subset_Ico_left (Nat.le_trans hlo hmid)) ?_
  intro _ s₆ _ hbefore₆ hyields₆
  refine (Encode.patch_does s₃.start).last ?_
  intro _ s₇ _ hbefore₇ hpatch' hfinal
  -- backwards from the end: where it is final, each part wrote its code
  have hfinal₆ := hbefore₇.final hfinal
  have hfinal₄ := hbefore₅.final (hbefore₆.final hfinal₆)
  have hfinal₃ := hbefore₄.final hfinal₄
  have hfinal₂ := hbefore₃.final hfinal₃
  obtain ⟨l₁, hcode₁, hwrote₁⟩ := hyields₁ (hbefore₂.final hfinal₂)
  obtain ⟨l₂, hcode₂, hwrote₂⟩ := hyields₃ hfinal₃
  obtain ⟨l₃, hcode₃, hwrote₃⟩ := hyields₆ hfinal₆
  -- the parts and the two jumps, which were patched when their targets were known
  obtain ⟨hstart₂, hstart₅, hwrote⟩ := hwrote₁.ifElse hjumpIf hfinal₂.quiet hwrote₂ hjump
    hfinal₄.quiet hpatch hwrote₃ hpatch' rfl rfl
  rw [hstart₂] at hcode₂
  rw [hstart₅] at hcode₃
  refine ⟨_, .ifElse hcode₁ hcode₂ hcode₃, ?_⟩
  rw [Command.inner, Encode.after_eq hrun₁, Encode.after_eq hrun₂, Encode.after_eq hrun₃,
    Encode.after_eq hrun₄, Encode.after_eq hrun₅]
  exact hwrote

/-- The body is encoded before the condition. -/
theorem whileDo {span : Span} {condition : Expression} {body : Command}
    (hcondition : condition.Encodes made π Γ lo mid .boolean)
    (hbody : body.Encodes made π Γ mid hi) (hlo : lo ≤ mid) (hhi : mid ≤ hi) :
    (Command.whileDo span condition body).Encodes made π Γ lo hi := by
  apply of_inner
  intro frame s hready
  unfold Encode.command
  -- forwards through the steps
  refine (Encode.emitForward_does .jump 0).step ?_
  intro toTest s₁ hrun₁ hbefore₁ ⟨htoTest, hjump⟩
  subst htoTest
  refine Encode.next_does.step ?_
  rintro _ _ - - ⟨rfl, rfl⟩
  have hready₁ := hready.step hbefore₁
  have hready₁' := hready₁.mono (Set.Ico_subset_Ico_left hlo)
  refine (hbody frame s₁ hready₁').bind (Set.Ico_subset_Ico_left hlo) ?_
  intro _ s₂ hrun₂ hbefore₂ hyields₂
  refine (Encode.patch_does s.start).step ?_
  intro _ s₃ hrun₃ hbefore₃ hpatch
  have hready₂ := (hready₁.front hhi).after hbefore₂ Set.Ico_disjoint_Ico_same.symm
  refine (hcondition.test (hready₂.step hbefore₃)).bind (Set.Ico_subset_Ico_right hhi) ?_
  intro _ s₄ _ hbefore₄ hyields₄
  refine (Encode.emit_does .jumpIf Machine.trueRep .cb s₁.start).last ?_
  intro _ s₅ _ hbefore₅ hjumpIf hfinal
  -- backwards from the end: where it is final, each part wrote its code
  have hfinal₄ := hbefore₅.final hfinal
  have hfinal₂ := hbefore₃.final (hbefore₄.final hfinal₄)
  have hfinal₁ := hbefore₂.final hfinal₂
  obtain ⟨l₁, hcode₁, hwrote₁⟩ := hyields₂ hfinal₂
  obtain ⟨l₂, hcode₂, hwrote₂⟩ := hyields₄ hfinal₄
  -- the first jump gets its target after the body, which is written behind it
  let toTest : Line := ⟨.plain .jump 0 0, frame.size, ⟨0, 0⟩⟩
  have hforward : s.Wrote s₁ [] frame.size frame.size [toTest] :=
    .of_writes hjump hfinal₁.quiet rfl rfl
  have hstart₁ : s₁.start = s.start + 1 := hforward.start_eq
  have hstart₂ : s₂.start = s.start + 1 + l₁.length := by rw [hwrote₁.start_eq, hstart₁]
  have hpatched := (hforward.append hwrote₁.plain).patch [] hpatch rfl
  have hstart₃ : s₃.start = s₂.start := by
    rw [hpatched.start_eq, hstart₂]
    simp; omega
  rw [hstart₁] at hcode₁
  rw [hstart₃, hstart₂] at hcode₂
  refine ⟨_, .whileDo hcode₁ hcode₂, ?_⟩
  -- the last jump goes back to the start of the body
  have hback : s₄.Wrote s₅ [] (frame.size + 1) frame.size
      [Line.jumpIf Machine.trueRep (s.start + 1) (frame.size + 1)] := by
    rw [hstart₁] at hjumpIf
    exact .of_writes hjumpIf hfinal.quiet rfl rfl
  rw [Command.inner, Encode.after_eq hrun₁, Encode.after_eq hrun₂, Encode.after_eq hrun₃]
  have hwrote := hpatched.append (hwrote₂.plain.append hback)
  rw [hstart₂] at hwrote
  -- the calls in the body and in the condition are found again behind the first jump
  refine hwrote.with_calls fun call hmem => ?_
  rcases List.mem_append.1 hmem with hmem | hmem
  · have hplaced := hwrote₁.calls call hmem
    rw [hstart₁] at hplaced
    refine .cons (hplaced.append_left ?_)
    rw [Line.depthAt_append_left rfl (Nat.zero_le _)]
    exact hwrote₂.entry
  · have hplaced := hwrote₂.calls call hmem
    rw [hstart₃, hstart₂] at hplaced
    exact .cons (.append_right (hplaced.append_left rfl))

theorem repeatUntil {span : Span} {body : Command} {condition : Expression}
    (hbody : body.Encodes made π Γ lo mid)
    (hcondition : condition.Encodes made π Γ mid hi .boolean) (hlo : lo ≤ mid)
    (hhi : mid ≤ hi) : (Command.repeatUntil span body condition).Encodes made π Γ lo hi := by
  apply of_inner
  intro frame s hready
  unfold Encode.command
  refine Encode.next_does.step ?_
  rintro _ _ - - ⟨rfl, rfl⟩
  refine (hbody frame s (hready.front hhi)).bind (Set.Ico_subset_Ico_right hhi) ?_
  intro _ s₁ hrun₁ hbefore₁ hyields₁
  have hready₁ := hready.back hbefore₁ hlo
  refine (hcondition.test hready₁).bind (Set.Ico_subset_Ico_left hlo) ?_
  intro _ s₂ _ hbefore₂ hyields₂
  refine (Encode.emit_does .jumpIf Machine.falseRep .cb s.start).last ?_
  intro _ s₃ _ hbefore₃ hjumpIf hfinal
  have hfinal₂ := hbefore₃.final hfinal
  obtain ⟨l₁, hcode₁, hwrote₁⟩ := hyields₁ (hbefore₂.final hfinal₂)
  obtain ⟨l₂, hcode₂, hwrote₂⟩ := hyields₂ hfinal₂
  rw [hwrote₁.start_eq] at hcode₂
  refine ⟨_, .repeatUntil hcode₁ hcode₂, ?_⟩
  have hback : s₂.Wrote s₃ [] (frame.size + 1) frame.size
      [Line.jumpIf Machine.falseRep s.start (frame.size + 1)] :=
    .of_writes hjumpIf hfinal.quiet rfl rfl
  rw [Command.inner, Encode.after_eq hrun₁]
  exact hwrote₁.append (hwrote₂.append_plain hback)

theorem loopWhile {span : Span} {body tail : Command} {condition : Expression} {mid' : Nat}
    (hbody : body.Encodes made π Γ lo mid)
    (hcondition : condition.Encodes made π Γ mid mid' .boolean)
    (htail : tail.Encodes made π Γ mid' hi)
    (hlo : lo ≤ mid) (hmid : mid ≤ mid') (hhi : mid' ≤ hi) :
    (Command.loopWhile span body condition tail).Encodes made π Γ lo hi := by
  apply of_inner
  intro frame s hready
  unfold Encode.command
  refine Encode.next_does.step ?_
  rintro _ _ - - ⟨rfl, rfl⟩
  -- forwards through the steps
  have hfront := hready.front (Nat.le_trans hmid hhi)
  refine (hbody frame s hfront).bind (Set.Ico_subset_Ico_right (Nat.le_trans hmid hhi)) ?_
  intro _ s₁ hrun₁ hbefore₁ hyields₁
  have hready₁ := hready.back hbefore₁ hlo
  refine (hcondition.test (hready₁.front hhi)).bind (Set.Ico_subset_Ico hlo hhi) ?_
  intro _ s₂ hrun₂ hbefore₂ hyields₂
  have hready₂ := hready₁.back hbefore₂ hmid
  refine (Encode.emitForward_does .jumpIf Machine.falseRep).step ?_
  intro toEnd s₃ hrun₃ hbefore₃ ⟨htoEnd, hjumpIf⟩
  subst htoEnd
  have hready₃ := hready₂.step hbefore₃
  refine (htail frame s₃ hready₃).bind (Set.Ico_subset_Ico_left (Nat.le_trans hlo hmid)) ?_
  intro _ s₄ _ hbefore₄ hyields₄
  refine (Encode.emit_does .jump 0 .cb s.start).step ?_
  intro _ s₅ _ hbefore₅ hjump
  refine (Encode.patch_does s₂.start).last ?_
  intro _ s₆ _ hbefore₆ hpatch hfinal
  -- backwards from the end: where it is final, each part wrote its code
  have hfinal₅ := hbefore₆.final hfinal
  have hfinal₄ := hbefore₅.final hfinal₅
  have hfinal₃ := hbefore₄.final hfinal₄
  have hfinal₂ := hbefore₃.final hfinal₃
  obtain ⟨l₁, hcode₁, hwrote₁⟩ := hyields₁ (hbefore₂.final hfinal₂)
  obtain ⟨l₂, hcode₂, hwrote₂⟩ := hyields₂ hfinal₂
  obtain ⟨l₃, hcode₃, hwrote₃⟩ := hyields₄ hfinal₄
  -- the jump out gets its target after the tail, which is written behind it
  let toEnd : Line := ⟨.plain .jumpIf Machine.falseRep 0, frame.size + 1, ⟨1, 0⟩⟩
  have hforward : s₂.Wrote s₃ [] (frame.size + 1) frame.size [toEnd] :=
    .of_writes hjumpIf hfinal₃.quiet rfl rfl
  have hback : s₄.Wrote s₅ [] frame.size frame.size [Line.jump s.start frame.size] :=
    .of_writes hjump hfinal₅.quiet rfl rfl
  have hstart₃ : s₃.start = s.start + l₁.length + l₂.length + 1 := by
    rw [hforward.start_eq, hwrote₂.start_eq, hwrote₁.start_eq]
    rfl
  have hstart₅ : s₅.start = s.start + l₁.length + l₂.length + 1 + l₃.length + 1 := by
    rw [hback.start_eq, hwrote₃.start_eq, hstart₃]
    rfl
  rw [hwrote₁.start_eq] at hcode₂
  rw [hstart₃] at hcode₃
  refine ⟨_, .loopWhile hcode₁ hcode₂ hcode₃, ?_⟩
  have hbody := hwrote₁.append hwrote₂
  have hunpatched := hbody.plain.append (hforward.append (hwrote₃.plain.append hback))
  have hwrote := hunpatched.patch _ hpatch hbody.start_eq
  rw [hstart₅] at hwrote
  rw [Command.inner, Encode.after_eq hrun₁, Encode.after_eq hrun₂, Encode.after_eq hrun₃]
  rw [← List.append_assoc l₁, ← List.append_assoc (Phrase.calls ..)]
  -- the calls in the tail are found again behind the jump out
  refine hwrote.with_calls fun call hmem => ?_
  rcases List.mem_append.1 hmem with hmem | hmem
  · exact (hbody.calls call hmem).append_left rfl
  · have hplaced := hwrote₃.calls call hmem
    rw [hforward.start_eq, hbody.start_eq] at hplaced
    exact .append_right (.cons (hplaced.append_left rfl))

end Command.Encodes

end TriangleTam
