import TriangleTam.Proofs.Coding.Commands
import TriangleTam.Proofs.Text.Numeral

/-! # Encoding of expressions

  An expression encodes if its parts do, and returns the size of its type,
  which is the number of words that its code pushes. Every expression asks for
  the size of its type first, so that the type is exact from then on.
-/

namespace TriangleTam

variable {made : List TypeDenoter} {π : Plan} {Γ : Env} {lo mid hi : Nat}

namespace Expression.Encodes

/-- It is enough to look at what follows after the size of the type was asked for. -/
theorem of_sized {expression : Expression} {type : TypeDenoter} {span : Span}
    {rest : Frame → Int → Encode Int} (inner : Frame → Encoder → List Call)
    (htype : expression.type = some type) (hknown : type.Known made)
    (hencode : ∀ frame, Encode.expression expression frame =
      Encode.sizeOf? (some type) span >>= rest frame)
    (hinner : ∀ frame s s', (Encode.sizeOf? (some type) span).exec s = (.ok type.size, s') →
      expression.inner frame s = inner frame s')
    (h : ∀ frame s, s.Ready made π Γ (Set.Ico lo hi) →
      (rest frame type.size).Does made (Set.Ico lo hi) s fun n s' =>
        s'.Final π → type.Exact → ∃ lines,
          (n = type.width ∧ Expression.Code π frame s.start expression lines n) ∧
            s.Wrote s' (inner frame s) frame.size (frame.size + n) lines) :
    expression.Encodes made π Γ lo hi type := by
  intro frame s hready
  -- asking for the size writes nothing, and if it is answered the type is exact
  have hdoes : (Encode.expression expression frame).Does made (Set.Ico lo hi) s fun n s' =>
      s.Yields π s' (expression.inner frame s) frame.size (frame.size + n) fun lines =>
        type.Exact ∧ n = type.width ∧ Expression.Code π frame s.start expression lines n := by
    rw [hencode]
    refine (Encode.sizeOf?_does hknown hready.laid span).step ?_
    rintro _ s₁ hrun₁ hbefore₁ ⟨rfl, hsize, hexact⟩
    refine (h frame s₁ (hready.step hbefore₁)).mono subset_rfl ?_
    intro n s₂ _ hbefore₂ hlines hfinal
    have hquiet₁ := hbefore₂.quiet hfinal.quiet
    obtain ⟨lines, ⟨hn, hcode⟩, hwrote⟩ := hlines hfinal (hexact hquiet₁)
    have hstart : s₁.start = s.start := (Encoder.Wrote.nil hsize hquiet₁ 0).start_eq
    rw [hstart] at hcode
    rw [hinner frame s s₁ hrun₁]
    exact ⟨lines, ⟨hexact hquiet₁, hn, hcode⟩, .after_nil hsize hquiet₁ hwrote⟩
  refine hdoes.mono subset_rfl ?_
  intro n s' hrun _ hyields hfinal
  obtain ⟨lines, ⟨hexact, hn, hcode⟩, hwrote⟩ := hyields hfinal
  -- the whole is itself a call of the encoder, with what it leaves
  have hsize : (Phrase.expression expression).HasSize n := by
    refine ⟨type, htype, ?_⟩
    rw [hexact.size_eq, hn]
  exact ⟨lines, ⟨hexact, hn, hcode⟩, hwrote.call rfl hrun hsize hcode.closed⟩

/-! ## Literals and vnames -/

theorem integer {span : Span} {literal : IntegerLiteral} :
    (Expression.integer span (some .integer) literal).Encodes made π Γ lo hi .integer := by
  refine of_sized (fun _ _ => []) rfl (by exact trivial) (fun _ => by rw [Encode.expression])
    (fun _ _ _ _ => rfl) fun frame s _ => ?_
  refine (Encode.emitPlain_does .loadL 0 literal.value).step ?_
  intro _ s' _ _ hload
  refine .pure fun hfinal _ => ⟨_, ⟨rfl, .integer⟩, ?_⟩
  exact .of_writes hload hfinal.quiet (codeOf_straight _ _) rfl

theorem character {span : Span} {literal : CharacterLiteral} :
    (Expression.character span (some .character) literal).Encodes made π Γ lo hi .character := by
  refine of_sized (fun _ _ => []) rfl (by exact trivial) (fun _ => by rw [Encode.expression])
    (fun _ _ _ _ => rfl) fun frame s _ => ?_
  refine (Encode.emitPlain_does .loadL 0 literal.value).step ?_
  intro _ s' _ _ hload
  refine .pure fun hfinal _ => ⟨_, ⟨rfl, .character⟩, ?_⟩
  exact .of_writes hload hfinal.quiet (codeOf_straight _ _) rfl

theorem vname {span : Span} {type : TypeDenoter} {found : Vname}
    (hfound : found.Encodes made π Γ lo hi type) (hknown : type.Known made) :
    (Expression.vname span (some type) found).Encodes made π Γ lo hi type := by
  refine of_sized _ rfl hknown (fun _ => by rw [Encode.expression])
    (fun _ _ _ hrun => by rw [Expression.inner, Encode.after_eq hrun]) fun frame s hready => ?_
  refine (hfound frame s hready).bind subset_rfl ?_
  intro ⟨entity, access⟩ s₁ _ hbefore₁ ⟨hholds, _, hyields⟩
  refine (Encode.fetch_does hholds.isValue access frame type.size).step ?_
  intro _ s₂ _ hbefore₂ hfetch
  refine .pure fun hfinal hexact => ?_
  obtain ⟨l, hcode, hwrote⟩ := hyields (hbefore₂.final hfinal)
  rw [hexact.size_eq] at hfetch ⊢
  refine ⟨_, ⟨rfl, .vname hcode hholds.suits⟩, ?_⟩
  have hnil := hholds.isValue.fetchCode_ne_nil frame type.width access
  exact hwrote.append_straight hfetch hfinal.quiet fun h => absurd h hnil

/-! ## Calls and operators -/

theorem call {span : Span} {result : TypeDenoter} {callee : Name} {args : Actuals}
    {name : String} {id : BindingId} {shapes : Signature}
    (hargs : args.Encodes made π Γ lo hi shapes) (hname : callee.binding = some id)
    (hfind : Γ.find? name = some (id, .func shapes result)) (hknown : result.Known made) :
    (Expression.call span (some result) callee args).Encodes made π Γ lo hi result := by
  refine of_sized _ rfl hknown (fun _ => by rw [Encode.expression])
    (fun _ _ _ hrun => by rw [Expression.inner, Encode.after_eq hrun]) fun frame s hready => ?_
  obtain ⟨entity, hat, htransfers⟩ := hready.found hfind nofun
  refine (hargs frame s hready).bind subset_rfl ?_
  intro n s₁ _ hbefore₁ hyields
  have hat₁ := hbefore₁.keeps hat
  refine (Encode.entityOf_does hname hat₁).step ?_
  rintro _ _ - - ⟨rfl, rfl⟩
  refine (Encode.requesting_does (Entity.call_appends htransfers.1.isRoutine _ _)).step ?_
  intro _ s₂ _ hbefore₂ hwrites
  refine .pure fun hfinal hexact => ?_
  have hfinal₁ := hbefore₂.final hfinal
  obtain ⟨l, ⟨rfl, hcode⟩, hwrote⟩ := hyields hfinal₁
  refine ⟨_, ⟨hexact.size_eq, .call hcode hname (hfinal₁.entities hat₁) htransfers.1⟩, ?_⟩
  exact hwrote.append_plain (.of_writes hwrites hfinal.quiet
    (htransfers.codeOf_callLines frame _) (htransfers.1.closed_callLines frame 0).entry)

/-- The operand takes as many words as the operator expects. -/
theorem unary {span : Span} {result expected operandType : TypeDenoter} {operator : Name}
    {operand : Expression} {name : String} {id : BindingId}
    (hoperand : operand.Encodes made π Γ lo hi operandType) (hname : operator.binding = some id)
    (hfind : Γ.find? name = some (id, .unary expected result))
    (hequivalent : expected.equivalent operandType = true) (hknown : result.Known made) :
    (Expression.unary span (some result) operator operand).Encodes made π Γ lo hi result := by
  refine of_sized _ rfl hknown (fun _ => by rw [Encode.expression])
    (fun _ _ _ hrun => by rw [Expression.inner, Encode.after_eq hrun]) fun frame s hready => ?_
  obtain ⟨entity, hat, htransfers⟩ := hready.found hfind nofun
  refine (hoperand frame s hready).bind subset_rfl ?_
  intro n s₁ _ hbefore₁ hyields
  have hat₁ := hbefore₁.keeps hat
  refine (Encode.entityOf_does hname hat₁).step ?_
  rintro _ _ - - ⟨rfl, rfl⟩
  refine (Encode.requesting_does (Entity.call_appends htransfers.1.isRoutine _ _)).step ?_
  intro _ s₂ _ hbefore₂ hwrites
  refine .pure fun hfinal hexact => ?_
  have hfinal₁ := hbefore₂.final hfinal
  obtain ⟨l, ⟨hoperandExact, hn, hcode⟩, hwrote⟩ := hyields hfinal₁
  obtain rfl : n = expected.size := by
    rw [hn, ← hoperandExact.size_eq, TypeDenoter.size_eq_of_equivalent hequivalent]
  refine ⟨_, ⟨hexact.size_eq, .unary hcode hname (hfinal₁.entities hat₁) htransfers.1⟩, ?_⟩
  exact hwrote.append_plain (.of_writes hwrites hfinal.quiet
    (htransfers.codeOf_callLines frame _) (htransfers.1.closed_callLines frame 0).entry)

/-- Two operands and a call of an operator, which takes the words of both. -/
theorem binary_of_call {span : Span} {result leftType rightType : TypeDenoter} {operator : Name}
    {left right : Expression} {id : BindingId} {t : Transfer}
    (hleft : left.Encodes made π Γ lo mid leftType)
    (hright : right.Encodes made π Γ mid hi rightType)
    (hlo : lo ≤ mid) (hhi : mid ≤ hi) (hname : operator.binding = some id)
    (hrep : ∀ s : Encoder, s.Ready made π Γ (Set.Ico lo hi) → ∃ entity : Entity,
      s.entities.lookup id = some entity ∧ entity.Performs π id t ∧ ∀ frame : Frame,
        codeOf (entity.callLines frame t) = entity.callCode (frame.replace t.takes) t.takes)
    (htakes : t.takes = leftType.size + rightType.size) (hleaves : t.leaves = result.size)
    (hknown : result.Known made) :
    (Expression.binary span (some result) left operator right).Encodes made π Γ lo hi result := by
  refine of_sized _ rfl hknown (fun _ => by rw [Encode.expression])
    (fun _ _ _ hrun => by rw [Expression.inner, Encode.after_eq hrun]) fun frame s hready => ?_
  obtain ⟨entity, hat, hperforms, hcall⟩ := hrep s hready
  refine (hleft frame s (hready.front hhi)).bind (Set.Ico_subset_Ico_right hhi) ?_
  intro n₁ s₁ hrun₁ hbefore₁ hyields₁
  refine (Encode.grow_does frame n₁).step ?_
  intro frame' s₂ hrun₂ hbefore₂ ⟨hgrow, hframe⟩
  have hready₂ := (hready.back hbefore₁ hlo).step hbefore₂
  refine (hright frame' s₂ hready₂).bind (Set.Ico_subset_Ico_left hlo) ?_
  intro n₂ s₃ _ hbefore₃ hyields₃
  refine (Encode.word_does (n₁ + n₂)).step ?_
  intro n s₄ _ hbefore₄ ⟨hword, hn⟩
  have hat₄ := hbefore₄.keeps (hbefore₃.keeps (hbefore₂.keeps (hbefore₁.keeps hat)))
  refine (Encode.entityOf_does hname hat₄).step ?_
  rintro _ _ - - ⟨rfl, rfl⟩
  refine (Encode.requesting_does (Entity.call_appends hperforms.isRoutine _ _)).step ?_
  intro _ s₅ _ hbefore₅ hwrites
  refine .pure fun hfinal hexact => ?_
  have hfinal₄ := hbefore₅.final hfinal
  have hfinal₃ := hbefore₄.final hfinal₄
  have hfinal₂ := hbefore₃.final hfinal₃
  obtain rfl : frame' = frame.more n₁ := hframe hfinal₂.quiet
  obtain rfl := hn hfinal₄.quiet
  obtain ⟨l₁, ⟨hexact₁, hn₁, hcode₁⟩, hwrote₁⟩ := hyields₁ (hbefore₂.final hfinal₂)
  obtain ⟨l₂, ⟨hexact₂, hn₂, hcode₂⟩, hwrote₂⟩ := hyields₃ hfinal₃
  have hwrote₁' := hwrote₁.append_nil hgrow hfinal₂.quiet
  have hwrote₂' := hwrote₂.append_nil hword hfinal₄.quiet
  have htakes' : t.takes = n₁ + n₂ := by
    rw [htakes, hexact₁.size_eq, hexact₂.size_eq, hn₁, hn₂]
  rw [hwrote₁'.start_eq] at hcode₂
  rw [← hleaves]
  refine ⟨_, ⟨hleaves.trans hexact.size_eq, .binary hcode₁ hcode₂ hname
    (hfinal₄.entities hat₄) hperforms htakes'⟩, ?_⟩
  rw [Encode.after_eq hrun₁, Encode.after_eq hrun₂]
  refine hwrote₁'.append (hwrote₂'.append_plain (.of_writes hwrites hfinal.quiet ?_ ?_))
  · rw [hcall frame, htakes']
    rfl
  · rw [(hperforms.closed_callLines frame 0).entry, htakes']
    exact (Int.add_assoc _ _ _).symm

theorem binary {span : Span} {result leftType rightType expectedLeft expectedRight : TypeDenoter}
    {operator : Name} {left right : Expression} {name : String} {id : BindingId}
    (hleft : left.Encodes made π Γ lo mid leftType)
    (hright : right.Encodes made π Γ mid hi rightType)
    (hlo : lo ≤ mid) (hhi : mid ≤ hi) (hname : operator.binding = some id)
    (hfind : Γ.find? name = some (id, .binary expectedLeft expectedRight result))
    (hleftEquivalent : expectedLeft.equivalent leftType = true)
    (hrightEquivalent : expectedRight.equivalent rightType = true)
    (hknown : result.Known made) :
    (Expression.binary span (some result) left operator right).Encodes made π Γ lo hi result := by
  refine binary_of_call (t := ⟨expectedLeft.size + expectedRight.size, result.size⟩) hleft hright
    hlo hhi hname ?_ ?_ rfl hknown
  · intro s hready
    obtain ⟨entity, hat, hrep⟩ := hready.found hfind nofun
    rcases hrep with ⟨-, htransfers⟩ | ⟨rfl, -⟩
    · exact ⟨entity, hat, htransfers.1, fun frame => htransfers.codeOf_callLines frame _⟩
    · have hany := TypeDenoter.isAny_left_of_equivalent hleftEquivalent
      cases hany
  · rw [TypeDenoter.size_eq_of_equivalent hleftEquivalent,
      TypeDenoter.size_eq_of_equivalent hrightEquivalent]

/-- An equality takes twice the words of an operand. -/
theorem equality {span : Span} {result leftType rightType expectedRight : TypeDenoter}
    {operator : Name} {left right : Expression} {name : String} {id : BindingId}
    (hleft : left.Encodes made π Γ lo mid leftType)
    (hright : right.Encodes made π Γ mid hi rightType)
    (hlo : lo ≤ mid) (hhi : mid ≤ hi) (hname : operator.binding = some id)
    (hfind : Γ.find? name = some (id, .binary .any expectedRight result))
    (hequivalent : leftType.equivalent rightType = true) (hknown : result.Known made) :
    (Expression.binary span (some result) left operator right).Encodes made π Γ lo hi result := by
  have hrep (s : Encoder) (hready : s.Ready made π Γ (Set.Ico lo hi)) : result = .boolean ∧
      ∃ p : Primitive, p.IsEquality ∧ s.entities.lookup id = some (.equalityRoutine p) := by
    obtain ⟨entity, hat, hrep⟩ := hready.found hfind nofun
    rcases hrep with ⟨hne, -⟩ | ⟨-, hresult, p, hequality, rfl⟩
    · exact absurd rfl hne
    · exact ⟨hresult, p, hequality, hat⟩
  -- that the result is one word follows from the operator's entity, which is met in a run
  intro frame s hready
  obtain ⟨rfl, -⟩ := hrep s hready
  refine binary_of_call (t := ⟨2 * leftType.size, 1⟩) hleft hright hlo hhi hname ?_ ?_ rfl hknown
    frame s hready
  · intro s hready
    obtain ⟨-, p, hequality, hat⟩ := hrep s hready
    exact ⟨_, hat, .equality hequality, fun frame => Entity.codeOf_callLines _ frame _⟩
  · rw [TypeDenoter.size_eq_of_equivalent hequivalent]
    exact Int.two_mul _

/-! ## Branches and blocks -/

/-- Both branches push the same number of words. -/
theorem ifElse {span : Span} {condition thenBranch elseBranch : Expression}
    {thenType elseType : TypeDenoter} {mid' : Nat}
    (hcondition : condition.Encodes made π Γ lo mid .boolean)
    (hthen : thenBranch.Encodes made π Γ mid mid' thenType)
    (helse : elseBranch.Encodes made π Γ mid' hi elseType)
    (hlo : lo ≤ mid) (hmid : mid ≤ mid') (hhi : mid' ≤ hi)
    (hequivalent : thenType.equivalent elseType = true) (hknown : thenType.Known made) :
    (Expression.ifElse span (some thenType) condition thenBranch elseBranch).Encodes
      made π Γ lo hi thenType := by
  refine of_sized _ rfl hknown (fun _ => by rw [Encode.expression])
    (fun _ _ _ hrun => by rw [Expression.inner, Encode.after_eq hrun]) fun frame s hready => ?_
  -- forwards through the steps
  have hfront := hready.front (Nat.le_trans hmid hhi)
  refine (hcondition.test hfront).bind (Set.Ico_subset_Ico_right (Nat.le_trans hmid hhi)) ?_
  intro _ s₁ hrun₁ hbefore₁ hyields₁
  have hready₁ := hready.back hbefore₁ hlo
  refine (Encode.emitForward_does .jumpIf Machine.falseRep).step ?_
  intro toElse s₂ hrun₂ hbefore₂ ⟨htoElse, hjumpIf⟩
  have hready₂ := hready₁.step hbefore₂
  refine (hthen frame s₂ (hready₂.front hhi)).bind (Set.Ico_subset_Ico hlo hhi) ?_
  intro n₁ s₃ hrun₃ hbefore₃ hyields₃
  have hready₃ := hready₂.back hbefore₃ hmid
  refine (Encode.emitForward_does .jump 0).step ?_
  intro toEnd s₄ hrun₄ hbefore₄ ⟨htoEnd, hjump⟩
  subst htoElse htoEnd
  refine (Encode.patch_does s₁.start).step ?_
  intro _ s₅ hrun₅ hbefore₅ hpatch
  have hready₅ := (hready₃.step hbefore₄).step hbefore₅
  refine (helse frame s₅ hready₅).bind (Set.Ico_subset_Ico_left (Nat.le_trans hlo hmid)) ?_
  intro n₂ s₆ _ hbefore₆ hyields₆
  refine (Encode.patch_does s₃.start).step ?_
  intro _ s₇ _ hbefore₇ hpatch'
  refine .pure fun hfinal hexact => ?_
  -- backwards from the end: where it is final, each part wrote its code
  have hfinal₆ := hbefore₇.final hfinal
  have hfinal₄ := hbefore₅.final (hbefore₆.final hfinal₆)
  have hfinal₃ := hbefore₄.final hfinal₄
  have hfinal₂ := hbefore₃.final hfinal₃
  obtain ⟨l₁, hcode₁, hwrote₁⟩ := hyields₁ (hbefore₂.final hfinal₂)
  obtain ⟨l₂, ⟨-, hn₁, hcode₂⟩, hwrote₂⟩ := hyields₃ hfinal₃
  obtain ⟨l₃, ⟨hexact₃, hn₂, hcode₃⟩, hwrote₃⟩ := hyields₆ hfinal₆
  -- equivalent types have the same size
  obtain rfl : n₁ = n₂ := by
    rw [hn₁, hn₂, ← hexact.size_eq, ← hexact₃.size_eq,
      TypeDenoter.size_eq_of_equivalent hequivalent]
  obtain ⟨hstart₂, hstart₅, hwrote⟩ := hwrote₁.ifElse hjumpIf hfinal₂.quiet hwrote₂ hjump
    hfinal₄.quiet hpatch hwrote₃ hpatch' rfl rfl
  rw [hstart₂] at hcode₂
  rw [hstart₅] at hcode₃
  refine ⟨_, ⟨hn₁, .ifElse hcode₁ hcode₂ hcode₃⟩, ?_⟩
  rw [Encode.after_eq hrun₁, Encode.after_eq hrun₂, Encode.after_eq hrun₃, Encode.after_eq hrun₄,
    Encode.after_eq hrun₅]
  exact hwrote

theorem letIn {span : Span} {type : TypeDenoter} {declared : Declaration} {body : Expression}
    {Γ' : Env} (hdeclared : declared.Encodes made π Γ.enclose lo mid Γ')
    (hbody : body.Encodes made π Γ' mid hi type) (hlo : lo ≤ mid) (hhi : mid ≤ hi)
    (hknown : type.Known made) :
    (Expression.letIn span (some type) declared body).Encodes made π Γ lo hi type := by
  refine of_sized _ rfl hknown (fun _ => by rw [Encode.expression])
    (fun _ _ _ hrun => by rw [Expression.inner, Encode.after_eq hrun]) fun frame s hready => ?_
  refine (hdeclared frame s (hready.front hhi).enclose).bind (Set.Ico_subset_Ico_right hhi) ?_
  intro extra s₁ hrun₁ hbefore₁ ⟨hfits, hyields₁⟩
  refine (Encode.grow_does frame extra).step ?_
  intro frame' s₂ hrun₂ hbefore₂ ⟨hgrow, hframe⟩
  -- the declarations are represented when the body is encoded
  have hready₁ := (hready.back hbefore₁ hlo).entering hfits
  refine (hbody frame' s₂ (hready₁.step hbefore₂)).bind (Set.Ico_subset_Ico_left hlo) ?_
  intro n s₃ _ hbefore₃ hyields₃
  rw [Encode.ite_bind]
  refine (Encode.release_does (frame.size + extra + n) n extra).step ?_
  intro _ s₄ _ hbefore₄ hrelease
  refine .pure fun hfinal _ => ?_
  have hfinal₃ := hbefore₄.final hfinal
  have hfinal₂ := hbefore₃.final hfinal₃
  obtain rfl : frame' = frame.more extra := hframe hfinal₂.quiet
  obtain ⟨l₁, hcode₁, hwrote₁⟩ := hyields₁ (hbefore₂.final hfinal₂)
  obtain ⟨l₂, ⟨-, hn, hcode₂⟩, hwrote₂⟩ := hyields₃ hfinal₃
  have hwrote₁' := hwrote₁.append_nil hgrow hfinal₂.quiet
  rw [hwrote₁'.start_eq] at hcode₂
  refine ⟨_, ⟨hn, .letIn hcode₁ hcode₂⟩, ?_⟩
  rw [Encode.after_eq hrun₁, Encode.after_eq hrun₂]
  -- the words of the declarations are dropped from under the result
  have hentry := Line.depthAt_release hcode₁.extra_nonneg
    (show frame.size + n = frame.size + extra + n - extra by omega) (n := n)
  exact hwrote₁'.append (hwrote₂.append_plain (.of_writes hrelease hfinal.quiet rfl hentry))

end Expression.Encodes

/-! ## Lists -/

/-- Two phrases in a row, the second above what the first leaves. What they leave adds up. -/
theorem Encode.pair_does {Γ Γ' Γ'' : Env} (frame : Frame) {s : Encoder}
    {first second : Frame → Encode Int} {calls₁ calls₂ : Frame → Encoder → List Call}
    {C₁ C₂ : Frame → Encoder → Int → List Line → Prop}
    (hready : s.Ready made π Γ (Set.Ico lo hi)) (hlo : lo ≤ mid) (hhi : mid ≤ hi)
    (h₁ : ∀ frame s, s.Ready made π Γ (Set.Ico lo mid) →
      (first frame).Does made (Set.Ico lo mid) s fun n s' =>
        (∀ entry ∈ Γ'.entries, s'.Fits π entry) ∧
          s.Yields π s' (calls₁ frame s) frame.size (frame.size + n) (C₁ frame s n))
    (h₂ : ∀ frame s, s.Ready made π Γ' (Set.Ico mid hi) →
      (second frame).Does made (Set.Ico mid hi) s fun n s' =>
        (∀ entry ∈ Γ''.entries, s'.Fits π entry) ∧
          s.Yields π s' (calls₂ frame s) frame.size (frame.size + n) (C₂ frame s n)) :
    (do
      let n ← first frame
      let n' ← second (← grow frame n)
      word (n + n')).Does made (Set.Ico lo hi) s fun n s' =>
        (∀ entry ∈ Γ''.entries, s'.Fits π entry) ∧
          s.Yields π s'
            (calls₁ frame s ++ after (first frame) s fun n s => after (grow frame n) s calls₂)
            frame.size (frame.size + n) fun lines => ∃ n₁ n₂ l₁ l₂, ∃ s₂ : Encoder,
              n = n₁ + n₂ ∧ lines = l₁ ++ l₂ ∧ C₁ frame s n₁ l₁ ∧
                s₂.start = s.start + l₁.length ∧ C₂ (frame.more n₁) s₂ n₂ l₂ := by
  refine (h₁ frame s (hready.front hhi)).bind (Set.Ico_subset_Ico_right hhi) ?_
  intro n₁ s₁ hrun₁ hbefore₁ ⟨hfits₁, hyields₁⟩
  refine (grow_does frame n₁).step ?_
  intro frame' s₂ hrun₂ hbefore₂ ⟨hgrow, hframe⟩
  have hready₂ := ((hready.back hbefore₁ hlo).entering hfits₁).step hbefore₂
  refine (h₂ frame' s₂ hready₂).bind (Set.Ico_subset_Ico_left hlo) ?_
  intro n₂ s₃ _ hbefore₃ ⟨hfits₃, hyields₃⟩
  refine (word_does (n₁ + n₂)).last ?_
  intro n s₄ _ hbefore₄ ⟨hword, hn⟩
  refine ⟨fun entry hmem => (hfits₃ entry hmem).later hbefore₄, fun hfinal => ?_⟩
  have hfinal₃ := hbefore₄.final hfinal
  have hfinal₂ := hbefore₃.final hfinal₃
  -- with no report the frame has grown by just what the first phrase leaves
  obtain rfl : frame' = frame.more n₁ := hframe hfinal₂.quiet
  obtain rfl := hn hfinal.quiet
  obtain ⟨l₁, hcode₁, hwrote₁⟩ := hyields₁ (hbefore₂.final hfinal₂)
  obtain ⟨l₂, hcode₂, hwrote₂⟩ := hyields₃ hfinal₃
  have hwrote₁' := hwrote₁.append_nil hgrow hfinal₂.quiet
  refine ⟨_, ⟨n₁, n₂, l₁, l₂, s₂, rfl, rfl, hcode₁, hwrote₁'.start_eq, hcode₂⟩, ?_⟩
  rw [after_eq hrun₁, after_eq hrun₂]
  have hwrote := hwrote₁'.append (hwrote₂.append_nil hword hfinal.quiet)
  rwa [← Int.add_assoc]

/-- What fits before fits after. -/
theorem Encode.Does.fits {m : Encode Int} {s : Encoder} {new : Set BindingId}
    {Q : Int → Encoder → Prop} (h : m.Does made new s Q) (hready : s.Ready made π Γ new) :
    m.Does made new s fun n s' => (∀ entry ∈ Γ.entries, s'.Fits π entry) ∧ Q n s' := by
  refine h.mono subset_rfl ?_
  intro n s' _ hbefore hQ
  exact ⟨fun entry hmem => (hready.fits entry hmem).later hbefore, hQ⟩

/-- The call itself comes on top of those it makes. -/
theorem Encode.Does.call (phrase : Phrase) {frame : Frame} {s : Encoder} {new : Set BindingId}
    {calls : List Call} {C : Int → List Line → Prop}
    (h : (phrase.encode frame).Does made new s fun n s' =>
      s.Yields π s' calls frame.size (frame.size + n) (C n))
    (hsize : ∀ n, phrase.HasSize n)
    (hclosed : ∀ n lines, C n lines → Line.Closed s.start lines frame.size (frame.size + n)) :
    (phrase.encode frame).Does made new s fun n s' =>
      s.Yields π s' (phrase.calls frame s calls) frame.size (frame.size + n) (C n) := by
  refine h.mono subset_rfl ?_
  intro n s' hrun _ hyields hfinal
  obtain ⟨lines, hlines, hwrote⟩ := hyields hfinal
  exact ⟨lines, hlines, hwrote.call rfl hrun (hsize n) (hclosed n lines hlines)⟩

theorem ArrayAggregate.Encodes.of_inner {elements : ArrayAggregate} {type : TypeDenoter}
    (h : ∀ frame s, s.Ready made π Γ (Set.Ico lo hi) →
      (Encode.arrayAggregate elements frame).Does made (Set.Ico lo hi) s fun n s' =>
        s.Yields π s' (elements.inner frame s) frame.size (frame.size + n)
          fun lines => type.Exact ∧ n = elements.count * type.width ∧
            ArrayAggregate.Code π frame s.start elements lines n) :
    elements.Encodes made π Γ lo hi type := by
  intro frame s hready
  exact Encode.Does.call (.arrayAggregate elements) (h frame s hready) (fun _ => trivial)
    fun _ _ hcode => hcode.2.2.closed

theorem ArrayAggregate.Encodes.one {span : Span} {element : Expression} {type : TypeDenoter}
    (helement : element.Encodes made π Γ lo hi type) :
    (ArrayAggregate.one span element).Encodes made π Γ lo hi type := by
  apply of_inner
  intro frame s hready
  unfold Encode.arrayAggregate
  refine (helement frame s hready).mono subset_rfl ?_
  intro n s' _ _ hyields hfinal
  obtain ⟨l, ⟨hexact, hn, hcode⟩, hwrote⟩ := hyields hfinal
  refine ⟨l, ⟨hexact, ?_, .one hcode⟩, hwrote⟩
  rw [hn, ArrayAggregate.count, Int.natCast_one, Int.one_mul]

/-- All elements have the size of the first. -/
theorem ArrayAggregate.Encodes.more {span : Span} {element : Expression} {rest : ArrayAggregate}
    {type restType : TypeDenoter} (helement : element.Encodes made π Γ lo mid type)
    (hrest : rest.Encodes made π Γ mid hi restType) (hlo : lo ≤ mid) (hhi : mid ≤ hi)
    (hequivalent : type.equivalent restType = true) :
    (ArrayAggregate.more span element rest).Encodes made π Γ lo hi type := by
  apply of_inner
  intro frame s hready
  refine (Encode.pair_does frame hready hlo hhi
    (fun frame s hready => (helement frame s hready).fits hready)
    fun frame s hready => (hrest frame s hready).fits hready).mono subset_rfl ?_
  intro n s' _ _ ⟨_, hyields⟩ hfinal
  obtain ⟨_, ⟨n₁, n₂, l₁, l₂, s₂, rfl, rfl, ⟨hexact, hn₁, hcode₁⟩, hstart, hexact', hn₂, hcode₂⟩,
    hwrote⟩ := hyields hfinal
  rw [hstart] at hcode₂
  refine ⟨_, ⟨hexact, ?_, .more hcode₁ hcode₂⟩, hwrote⟩
  have hwidth : restType.width = type.width := by
    rw [← hexact.size_eq, ← hexact'.size_eq, TypeDenoter.size_eq_of_equivalent hequivalent]
  rw [hn₁, hn₂, hwidth, ArrayAggregate.count, Int.natCast_add, Int.natCast_one, Int.add_mul,
    Int.one_mul, Int.add_comm]

theorem RecordAggregate.Encodes.of_inner {fields : RecordAggregate} {types : Fields}
    (h : ∀ frame s, s.Ready made π Γ (Set.Ico lo hi) →
      (Encode.recordAggregate fields frame).Does made (Set.Ico lo hi) s fun n s' =>
        s.Yields π s' (fields.inner frame s) frame.size (frame.size + n)
          fun lines => n = types.width ∧ RecordAggregate.Code π frame s.start fields lines n) :
    fields.Encodes made π Γ lo hi types := by
  intro frame s hready
  exact Encode.Does.call (.recordAggregate fields) (h frame s hready) (fun _ => trivial)
    fun _ _ hcode => hcode.2.closed

theorem RecordAggregate.Encodes.one {span : Span} {field : Name} {value : Expression}
    {type : TypeDenoter} (hvalue : value.Encodes made π Γ lo hi type) :
    (RecordAggregate.one span field value).Encodes made π Γ lo hi (.one span field type) := by
  apply of_inner
  intro frame s hready
  unfold Encode.recordAggregate
  refine (hvalue frame s hready).mono subset_rfl ?_
  intro n s' _ _ hyields hfinal
  obtain ⟨l, ⟨-, hn, hcode⟩, hwrote⟩ := hyields hfinal
  exact ⟨l, ⟨hn, .one hcode⟩, hwrote⟩

theorem RecordAggregate.Encodes.more {span : Span} {field : Name} {value : Expression}
    {rest : RecordAggregate} {type : TypeDenoter} {types : Fields}
    (hvalue : value.Encodes made π Γ lo mid type) (hrest : rest.Encodes made π Γ mid hi types)
    (hlo : lo ≤ mid) (hhi : mid ≤ hi) :
    (RecordAggregate.more span field value rest).Encodes made π Γ lo hi
      (.more span field type types) := by
  apply of_inner
  intro frame s hready
  refine (Encode.pair_does frame hready hlo hhi
    (fun frame s hready => (hvalue frame s hready).fits hready)
    fun frame s hready => (hrest frame s hready).fits hready).mono subset_rfl ?_
  intro n s' _ _ ⟨_, hyields⟩ hfinal
  obtain ⟨_, ⟨n₁, n₂, l₁, l₂, s₂, rfl, rfl, ⟨_, hn₁, hcode₁⟩, hstart, hn₂, hcode₂⟩, hwrote⟩ :=
    hyields hfinal
  rw [hstart] at hcode₂
  refine ⟨_, ⟨?_, .more hcode₁ hcode₂⟩, hwrote⟩
  rw [hn₁, hn₂]
  rfl

theorem Expression.Encodes.record {span : Span} {serial : Nat} {recordSpan : Span} {types : Fields}
    {fields : RecordAggregate} (hfields : fields.Encodes made π Γ lo hi types)
    (hknown : (TypeDenoter.record serial recordSpan types).Known made) :
    (Expression.record span (some (.record serial recordSpan types)) fields).Encodes made π Γ lo hi
      (.record serial recordSpan types) := by
  refine of_sized _ rfl hknown (fun _ => by rw [Encode.expression])
    (fun _ _ _ hrun => by rw [Expression.inner, Encode.after_eq hrun]) fun frame s hready => ?_
  refine (hfields frame s hready).mono subset_rfl ?_
  intro n s' _ _ hyields hfinal _
  obtain ⟨l, ⟨hn, hcode⟩, hwrote⟩ := hyields hfinal
  exact ⟨l, ⟨hn, .record hcode⟩, hwrote⟩

/-! ## Extents of code -/

theorem ArrayAggregate.count_pos (elements : ArrayAggregate) : 0 < elements.count := by
  cases elements <;> exact Nat.succ_pos _

mutual

/-- The code of an expression is not empty. -/
theorem Expression.Code.length_pos {F : Frame} {a : Nat} {expression : Expression}
    {lines : List Line} {n : Int} :
    Expression.Code π F a expression lines n → 0 < lines.length
  | .integer | .character => Nat.one_pos
  | .vname _ hsuits => by
    rw [List.length_append, Line.length_straight]
    exact Nat.add_pos_right _ (List.length_pos_iff.2 (hsuits.isValue.fetchCode_ne_nil _ _ _))
  | .call hargs _ _ hperforms => by
    rw [List.length_append]
    rcases hperforms.callLines_pos F with hpos | htakes
    · exact Nat.add_pos_right _ hpos
    · exact Nat.add_pos_left (hargs.length_pos (by rw [htakes]; nofun)) _
  | .ifElse .. => by
    rw [List.length_append, List.length_cons]
    omega
  | .letIn _ hbody => by
    have hpos := hbody.length_pos
    rw [List.length_append, List.length_append]
    omega
  | .unary hoperand _ _ _ => by
    rw [List.length_append]
    exact Nat.add_pos_left hoperand.length_pos _
  | .binary hleft _ _ _ _ _ => by
    rw [List.length_append]
    exact Nat.add_pos_left hleft.length_pos _
  | .array helements => Nat.lt_of_lt_of_le (ArrayAggregate.count_pos _) helements.count_le
  | .record hfields => hfields.length_pos

/-- Every element has code of its own. -/
theorem ArrayAggregate.Code.count_le {F : Frame} {a : Nat} {elements : ArrayAggregate}
    {lines : List Line} {n : Int} :
    ArrayAggregate.Code π F a elements lines n → elements.count ≤ lines.length
  | .one helement => helement.length_pos
  | .more helement hrest => by
    have hpos := helement.length_pos
    have hle := hrest.count_le
    rw [List.length_append, ArrayAggregate.count]
    omega

theorem RecordAggregate.Code.length_pos {F : Frame} {a : Nat} {fields : RecordAggregate}
    {lines : List Line} {n : Int} :
    RecordAggregate.Code π F a fields lines n → 0 < lines.length
  | .one hvalue => hvalue.length_pos
  | .more hvalue _ => by
    rw [List.length_append]
    exact Nat.add_pos_left hvalue.length_pos _

/-- The code of arguments that take words is not empty. -/
theorem Actuals.Code.length_pos {F : Frame} {a : Nat} {actuals : Actuals}
    {lines : List Line} {n : Int} (hn : n ≠ 0) :
    Actuals.Code π F a actuals lines n → 0 < lines.length
  | .empty => absurd rfl hn
  | .one hfirst => hfirst.length_pos
  | .more hfirst _ => by
    rw [List.length_append]
    exact Nat.add_pos_left hfirst.length_pos _

theorem Actual.Code.length_pos {F : Frame} {a : Nat} {actual : Actual}
    {lines : List Line} {n : Int} :
    Actual.Code π F a actual lines n → 0 < lines.length
  | .const hvalue => hvalue.length_pos
  | .var _ hvariable => by
    rw [List.length_append, Line.length_straight]
    exact Nat.add_pos_right _ (List.length_pos_iff.2 (hvariable.addressCode_ne_nil _ _))
  | .proc _ _ hroutine | .func _ _ hroutine => by
    rw [Line.length_straight]
    exact List.length_pos_iff.2 (hroutine.closureCode_ne_nil _)

end

/-- The type of an array has the number of elements for its length. That this number is a word
    follows from the room in the code store. -/
theorem Expression.Encodes.array {span : Span} {serial : Nat} {arraySpan : Span}
    {element : TypeDenoter} {elements : ArrayAggregate}
    (helements : elements.Encodes made π Γ lo hi element)
    (hknown : (TypeDenoter.array serial arraySpan ⟨Numeral.ofNat elements.count, arraySpan⟩
      element).Known made) :
    (Expression.array span (some (.array serial arraySpan
      ⟨Numeral.ofNat elements.count, arraySpan⟩ element)) elements).Encodes made π Γ lo hi
      (.array serial arraySpan ⟨Numeral.ofNat elements.count, arraySpan⟩ element) := by
  refine of_sized _ rfl hknown (fun _ => by rw [Encode.expression])
    (fun _ _ _ hrun => by rw [Expression.inner, Encode.after_eq hrun]) fun frame s hready => ?_
  refine (helements frame s hready).mono subset_rfl ?_
  intro n s' _ hbefore hyields hfinal _
  obtain ⟨l, ⟨_, hn, hcode⟩, hwrote⟩ := hyields hfinal
  refine ⟨l, ⟨?_, .array hcode⟩, hwrote⟩
  have hroom : s'.start ≤ Machine.codeStoreSize := hbefore.emitter.room hready.room
  have hcount := hcode.count_le
  rw [hwrote.start_eq] at hroom
  have hword : (elements.count : Int) ≤ Word.greatest := by
    unfold Machine.codeStoreSize at hroom
    unfold Word.greatest
    omega
  rw [hn, TypeDenoter.width, IntegerLiteral.value_ofNat hword]

end TriangleTam
