import TriangleTam.Proofs.Misspelling.Steps

/-! # Checking a misspelt tree

  Checking follows the derivation of the tree without misspelt names. Where a
  name is misspelt it gets the type `error`, and everything else it finds is
  what the derivation says, eroded.
-/

namespace TriangleTam

variable {w : String} {formal : TypeDenoter → Prop}

namespace Check

/-! ## Type denoters -/

mutual

theorem typeDenoter_slips {W : Prop} {Γ : Env} {p p' : Supply} {spans : List Span}
    {type type' written : TypeDenoter} :
    TypeDenoter.Typed Γ p type type' p' → type.Misspelt w spans written →
      (typeDenoter written).Slips w formal W Γ p spans Γ p' type'.Erodes fun _ => W
  | .boolean, hmis => by
    cases hmis
    exact .pure .boolean id
  | .character, hmis => by
    cases hmis
    exact .pure .character id
  | .integer, hmis => by
    cases hmis
    exact .pure .integer id
  | .named hfind, hmis => by
    cases hmis with
    | named =>
      rw [typeDenoter]
      refine .lookup hfind fun kind hkind _ => ?_
      obtain ⟨⟩ | ⟨⟩ | ⟨⟩ | ⟨⟩ | ⟨htype⟩ := hkind
      exact .pure htype id
    | misspelt =>
      -- the type of a name that stands for nothing is the one of errors, which fits all
      rw [typeDenoter]
      refine .lookup_misspelt rfl ?_
      dsimp only
      refine .misspelt _ ?_
      exact .pure .error id
  | .array hlength helement, hmis => by
    cases hmis with
    | array helement' =>
      rw [typeDenoter, if_neg (Int.not_le.2 hlength)]
      refine .last (typeDenoter_slips helement helement') fun element herodes => ?_
      exact .step (.newSerial _) fun serial _ => .pure (.array rfl herodes) id
  | .record hfields, hmis => by
    cases hmis with
    | record hfields' =>
      rw [typeDenoter]
      refine .last (fieldTypes_slips hfields hfields') fun fields herodes => ?_
      exact .step (.newSerial _) fun serial _ => .pure (.record herodes) id

theorem fieldTypes_slips {W : Prop} {Γ : Env} {p p' : Supply} {spans : List Span}
    {fields fields' written : Fields} :
    Fields.Typed Γ p fields fields' p' → fields.Misspelt w spans written →
      (fieldTypes written).Slips w formal W Γ p spans Γ p' fields'.Erodes fun _ => W
  | .one htype, hmis => by
    cases hmis with
    | one htype' =>
      rw [fieldTypes]
      exact .last (typeDenoter_slips htype htype') fun type herodes => .pure (.one rfl herodes) id
  | .more htype hrest, hmis => by
    cases hmis with
    | more htype' hrest' =>
      rw [fieldTypes]
      refine .bind (typeDenoter_slips htype htype') fun type herodes => ?_
      refine .last (fieldTypes_slips hrest hrest') fun rest herodes' => ?_
      exact .pure (.more rfl herodes herodes') id

end

/-! ## Formal parameters -/

mutual

theorem formal_slips {W : Prop} {Γ Γ' : Env} {p p' : Supply} {spans : List Span}
    {parameter parameter' written : Formal} {shape : FormalShape} :
    Formal.Typed Γ p parameter parameter' shape Γ' p' → parameter.Misspelt w spans written →
      (Check.formal written).Slips w formal W Γ p spans Γ' p'
        (fun found => shape.Erodes found.2 ∧ (found.1.All formal → found.2.TypesIn formal))
        fun found => W ∧ found.1.All formal
  | .const htype hnew, hmis => by
    cases hmis with
    | const hfresh htype' =>
      rw [Check.formal]
      refine .last (typeDenoter_slips htype htype') fun type herodes => ?_
      refine .step (.declare hnew hfresh (.const herodes) fun _ => trivial) ?_
      rintro _ rfl
      exact .pure ⟨.const herodes, id⟩ And.left
  | .var htype hnew, hmis => by
    cases hmis with
    | var hfresh htype' =>
      rw [Check.formal]
      refine .last (typeDenoter_slips htype htype') fun type herodes => ?_
      refine .step (.declare hnew hfresh (.var herodes) fun _ => trivial) ?_
      rintro _ rfl
      exact .pure ⟨.var herodes, id⟩ And.left
  | .proc hinner hnew, hmis => by
    cases hmis with
    | proc hfresh hinner' =>
      rw [Check.formal]
      refine .step .openScope fun _ _ => ?_
      refine .last (formals_slips hinner hinner') fun (inner, shapes) ⟨herodes, htypes⟩ => ?_
      refine .step .closeScope fun _ _ => ?_
      rw [hinner.close_eq]
      refine .step (.declare hnew hfresh (.proc herodes) fun hW => htypes hW.2) ?_
      rintro _ rfl
      exact .pure ⟨.proc herodes, htypes⟩ id
  | .func hresult hinner hnew, hmis => by
    cases hmis with
    | func hfresh hresult' hinner' =>
      -- the result is checked before the scope of the parameters is opened
      rw [Check.formal]
      refine .bind (.narrow (typeDenoter_slips hresult hresult')
        fun result (hC : W ∧ formal result) => hC.1) fun result herodes => ?_
      refine .step .openScope fun _ _ => ?_
      refine .last (formals_slips hinner hinner') fun (inner, shapes) ⟨herodes', htypes⟩ => ?_
      refine .step .closeScope fun _ _ => ?_
      rw [hinner.close_eq]
      refine .step (.declare hnew hfresh (.func herodes' herodes)
        fun hW => ⟨htypes hW.2, hW.1.2⟩) ?_
      rintro _ rfl
      exact .pure ⟨.func herodes' herodes, fun hall => ⟨htypes hall.1, hall.2⟩⟩
        fun hC => ⟨⟨hC.1, hC.2.2⟩, hC.2.1⟩

theorem formals_slips {W : Prop} {Γ Γ' : Env} {p p' : Supply} {spans : List Span}
    {parameters parameters' written : Formals} {shapes : Signature} :
    Formals.Typed Γ p parameters parameters' shapes Γ' p' → parameters.Misspelt w spans written →
      (formals written).Slips w formal W Γ p spans Γ' p'
        (fun found => Signature.Erodes shapes found.2 ∧
          (found.1.All formal → Signature.TypesIn formal found.2))
        fun found => W ∧ found.1.All formal
  | .empty, hmis => by
    cases hmis
    exact .pure ⟨.nil, fun _ => trivial⟩ And.left
  | .one hfirst, hmis => by
    cases hmis with
    | one hfirst' =>
      rw [formals]
      refine .last (formal_slips hfirst hfirst') fun (first, shape) ⟨herodes, htypes⟩ => ?_
      exact .pure ⟨.cons herodes .nil, fun hall => ⟨htypes hall, trivial⟩⟩ id
  | .more hfirst hrest, hmis => by
    cases hmis with
    | more hfirst' hrest' =>
      rw [formals]
      refine .bind (formal_slips hfirst hfirst') fun (first, shape) ⟨herodes, htypes⟩ => ?_
      refine .last (formals_slips hrest hrest') fun (rest, shapes) ⟨herodes', htypes'⟩ => ?_
      exact .pure ⟨.cons herodes herodes', fun hall => ⟨htypes hall.1, htypes' hall.2⟩⟩
        fun hC => ⟨⟨hC.1, hC.2.1⟩, hC.2.2⟩

end

/-! ## Commands, expressions and declarations -/

theorem expectBoolean_slips {W : Prop} {Γ : Env} {p : Supply} {type : TypeDenoter}
    (h : TypeDenoter.boolean.Erodes type) (span : Span) :
    (expectBoolean type span).Slips w formal W Γ p [] Γ p (fun _ => True) fun _ => W := by
  have hcompatible : type.compatible .boolean = true := by
    rcases TypeDenoter.erodes_boolean_iff.1 h with rfl | rfl <;> rfl
  rw [expectBoolean, if_neg (by simp [hcompatible])]
  exact .pure trivial id

/-- Equivalent types are not complained about where they erode to whole types. -/
theorem not_incompatible_of_whole {a b a' b' : TypeDenoter} (ha : a.Erodes a')
    (hb : b.Erodes b') (h : a.equivalent b = true) (hwhole : a'.Whole) (hwhole' : b'.Whole) :
    ¬ (!a'.compatible b') = true := by
  simp [ha.compatible hb h hwhole hwhole']

section

variable {passing : Prop} (hformal : ∀ type, formal type → type.Whole)
  (hpassing : passing → ∀ type, formal type → type.Resolved)

include hformal hpassing

-- each theorem of the block needs both for its calls of the others
set_option linter.unusedSectionVars false

mutual

theorem command_slips {W : Prop} {Γ : Env} {p p' : Supply} {spans : List Span}
    {node node' written : Command} :
    Command.Typed Γ p node node' p' → node.Misspelt w spans written →
      (command written).Slips w formal W Γ p spans Γ p' (fun _ => True)
        fun found => W ∧ found.Apart formal passing
  | .empty, hmis => by
    cases hmis
    exact .pure trivial And.left
  | .assign htarget hvalue hvariable hequivalent, hmis => by
    cases hmis with
    | assign htarget' hvalue' =>
      rw [command]
      refine .bind (vname_slips htarget htarget')
        fun (target, targetType) ⟨herodes, hwhole, htargets⟩ => ?_
      refine .last (expression_slips hvalue hvalue')
        fun (value, valueType) ⟨herodes', hwhole'⟩ => ?_
      -- a target of the type of errors is not blamed for being no variable
      have hplace : ¬ (!target.isVariable && !targetType.isError) = true := by
        rcases htargets hvariable with h | h <;> simp [h]
      dsimp only
      rw [if_neg hplace]
      refine .mismatch (by decide) (.pure trivial fun hC => ⟨⟨⟨hC.1, hC.2.1⟩, hC.2.2⟩, ?_⟩)
      exact not_incompatible_of_whole herodes herodes' hequivalent (hwhole hC.2.1)
        (hwhole' hC.2.2)
  | .call hfind hargs, hmis => by
    cases hmis with
    | call hargs' =>
      rw [command]
      refine .lookup hfind fun kind hkind hroutine => ?_
      obtain ⟨⟩ | ⟨⟩ | ⟨hshapes⟩ := hkind
      refine .last (actuals_slips hargs hargs' hshapes hroutine) fun args _ => ?_
      exact .pure trivial id
  | .sequence hfirst hsecond, hmis => by
    cases hmis with
    | sequence hfirst' hsecond' =>
      rw [command]
      refine .bind (command_slips hfirst hfirst') fun first _ => ?_
      refine .last (command_slips hsecond hsecond') fun second _ => ?_
      exact .pure trivial fun hC => ⟨⟨hC.1, hC.2.1⟩, hC.2.2⟩
  | .letIn hdeclared hbody, hmis => by
    cases hmis with
    | letIn hdeclared' hbody' =>
      rw [command]
      refine .step .openScope fun _ _ => ?_
      refine .bind (declaration_slips hdeclared hdeclared') fun declared _ => ?_
      refine .last (command_slips hbody hbody') fun body _ => ?_
      refine .step .closeScope fun _ _ => ?_
      rw [hdeclared.close_eq]
      exact .pure trivial fun hC => ⟨⟨hC.1, hC.2.1⟩, hC.2.2⟩
  | .ifElse hcondition hthen helse, hmis => by
    cases hmis with
    | ifElse hcondition' hthen' helse' =>
      rw [command]
      refine .bind (expression_slips hcondition hcondition')
        fun (condition, type) ⟨herodes, _⟩ => ?_
      refine .step (expectBoolean_slips herodes _) fun _ _ => ?_
      refine .bind (command_slips hthen hthen') fun thenBranch _ => ?_
      refine .last (command_slips helse helse') fun elseBranch _ => ?_
      exact .pure trivial fun hC => ⟨⟨⟨hC.1, hC.2.1⟩, hC.2.2.1⟩, hC.2.2.2⟩
  | .whileDo hcondition hbody, hmis => by
    cases hmis with
    | whileDo hcondition' hbody' =>
      rw [command]
      refine .bind (expression_slips hcondition hcondition')
        fun (condition, type) ⟨herodes, _⟩ => ?_
      refine .step (expectBoolean_slips herodes _) fun _ _ => ?_
      refine .last (command_slips hbody hbody') fun body _ => ?_
      exact .pure trivial fun hC => ⟨⟨hC.1, hC.2.1⟩, hC.2.2⟩
  | .repeatUntil hbody hcondition, hmis => by
    cases hmis with
    | repeatUntil hbody' hcondition' =>
      rw [command]
      refine .bind (command_slips hbody hbody') fun body _ => ?_
      refine .last (expression_slips hcondition hcondition')
        fun (condition, type) ⟨herodes, _⟩ => ?_
      refine .step (expectBoolean_slips herodes _) fun _ _ => ?_
      exact .pure trivial fun hC => ⟨⟨hC.1, hC.2.1⟩, hC.2.2⟩
  | .loopWhile hbody hcondition htail, hmis => by
    cases hmis with
    | loopWhile hbody' hcondition' htail' =>
      rw [command]
      refine .bind (command_slips hbody hbody') fun body _ => ?_
      refine .bind (expression_slips hcondition hcondition')
        fun (condition, type) ⟨herodes, _⟩ => ?_
      refine .step (expectBoolean_slips herodes _) fun _ _ => ?_
      refine .last (command_slips htail htail') fun tail _ => ?_
      exact .pure trivial fun hC => ⟨⟨⟨hC.1, hC.2.1⟩, hC.2.2.1⟩, hC.2.2.2⟩

theorem expression_slips {W : Prop} {Γ : Env} {p p' : Supply} {spans : List Span}
    {node node' written : Expression} {type : TypeDenoter} :
    Expression.Typed Γ p node node' type p' → node.Misspelt w spans written →
      (expression written).Slips w formal W Γ p spans Γ p'
        (fun found => type.Erodes found.2 ∧ (found.1.Apart formal passing → found.2.Whole))
        fun found => W ∧ found.1.Apart formal passing
  | .integer, hmis => by
    cases hmis
    exact .pure ⟨.integer, Finds.of_some⟩ And.left
  | .character, hmis => by
    cases hmis
    exact .pure ⟨.character, Finds.of_some⟩ And.left
  | .vname hfound, hmis => by
    cases hmis with
    | vname hfound' =>
      rw [expression]
      refine .last (vname_slips hfound hfound') fun (found, type) ⟨herodes, _, _⟩ => ?_
      exact .pure ⟨herodes, fun h => Finds.of_some h.1⟩ fun hC => ⟨hC.1, hC.2.2⟩
  | .call hfind hargs, hmis => by
    cases hmis with
    | call hargs' =>
      rw [expression]
      refine .lookup hfind fun kind hkind hroutine => ?_
      obtain ⟨⟩ | ⟨⟩ | ⟨⟩ | ⟨hshapes, hresult⟩ := hkind
      refine .last (actuals_slips hargs hargs' hshapes fun hW => (hroutine hW).1)
        fun args _ => ?_
      exact .pure ⟨hresult, fun h => Finds.of_some h.1⟩ fun hC => ⟨hC.1, hC.2.2⟩
  | .ifElse hcondition hthen helse hequivalent, hmis => by
    cases hmis with
    | ifElse hcondition' hthen' helse' =>
      rw [expression]
      refine .bind (expression_slips hcondition hcondition')
        fun (condition, type) ⟨herodes, _⟩ => ?_
      refine .step (expectBoolean_slips herodes _) fun _ _ => ?_
      refine .bind (expression_slips hthen hthen')
        fun (thenBranch, thenType) ⟨hthenType, hwhole⟩ => ?_
      refine .last (expression_slips helse helse')
        fun (elseBranch, elseType) ⟨helseType, hwhole'⟩ => ?_
      -- the type of the choice is that of a branch whose own type is no `error`
      have htype := hthenType.limbs helseType hequivalent
      refine .mismatch (by decide) (.pure ⟨htype, fun h => Finds.of_some h.1⟩ fun hC =>
        ⟨⟨⟨⟨hC.1, hC.2.2.1⟩, hC.2.2.2.1⟩, hC.2.2.2.2⟩, ?_⟩)
      exact not_incompatible_of_whole hthenType helseType hequivalent (hwhole hC.2.2.2.1)
        (hwhole' hC.2.2.2.2)
  | .letIn hdeclared hbody, hmis => by
    cases hmis with
    | letIn hdeclared' hbody' =>
      rw [expression]
      refine .step .openScope fun _ _ => ?_
      refine .bind (declaration_slips hdeclared hdeclared') fun declared _ => ?_
      refine .last (expression_slips hbody hbody') fun (body, type) ⟨herodes, _⟩ => ?_
      refine .step .closeScope fun _ _ => ?_
      rw [hdeclared.close_eq]
      exact .pure ⟨herodes, fun h => Finds.of_some h.1⟩ fun hC => ⟨⟨hC.1, hC.2.2.1⟩, hC.2.2.2⟩
  | .unary hoperand hfind hequivalent, hmis => by
    cases hmis with
    | unary hoperand' =>
      rw [expression]
      refine .last (expression_slips hoperand hoperand')
        fun (operand, operandType) ⟨herodes, _⟩ => ?_
      refine .lookup hfind fun kind hkind _ => ?_
      obtain ⟨scalar, scalar', rfl, rfl, rfl⟩ := hkind.unary_eq
      -- `error` is not compared, and any other eroded scalar is the scalar itself
      have hfits : ¬ (!operandType.isError && !scalar.denoter.compatible operandType) = true := by
        rcases scalar.erodes hequivalent herodes with h | h <;> simp [h]
      have htype := scalar'.erodes_unless operandType.isError
      dsimp only
      rw [if_neg hfits]
      exact .pure ⟨htype, fun h => Finds.of_some h.1⟩ fun hC => ⟨hC.1, hC.2.2⟩
  | .binary hleft hright hfind hequivalent hequivalent', hmis => by
    cases hmis with
    | binary hleft' hright' =>
      rw [expression]
      refine .bind (expression_slips hleft hleft') fun (left, leftType) ⟨herodes, _⟩ => ?_
      refine .last (expression_slips hright hright') fun (right, rightType) ⟨herodes', _⟩ => ?_
      refine .lookup hfind fun kind hkind _ => ?_
      obtain ⟨scalar, scalar', scalar'', rfl, rfl, rfl, rfl⟩ := hkind.binary_eq
      have htype := scalar''.erodes_unless (leftType.isError || rightType.isError)
      have hfits := scalar.erodes hequivalent herodes
      have hfits' := scalar'.erodes hequivalent' herodes'
      dsimp only
      -- nothing is compared if an operand is of type `error`
      by_cases hfailed : (leftType.isError || rightType.isError) = true
      · rw [if_neg (by simp [hfailed])]
        exact .pure ⟨htype, fun h => Finds.of_some h.1⟩ fun hC => ⟨⟨hC.1, hC.2.2.1⟩, hC.2.2.2⟩
      · simp only [Bool.or_eq_true, not_or] at hfailed
        -- otherwise both operands are what the operator expects, which is not `any`
        have hcompatible := hfits.resolve_left hfailed.1
        have hcompatible' := hfits'.resolve_left hfailed.2
        rw [if_pos (by simp [hfailed]), TypeDenoter.isAny_left_of_equivalent hequivalent,
          if_neg Bool.false_ne_true, if_neg (by simp [hcompatible, hcompatible'])]
        exact .pure ⟨htype, fun h => Finds.of_some h.1⟩ fun hC => ⟨⟨hC.1, hC.2.2.1⟩, hC.2.2.2⟩
  | .equality hleft hright hfind hequivalent, hmis => by
    cases hmis with
    | binary hleft' hright' =>
      rw [expression]
      refine .bind (expression_slips hleft hleft') fun (left, leftType) ⟨herodes, hwhole⟩ => ?_
      refine .last (expression_slips hright hright')
        fun (right, rightType) ⟨herodes', hwhole'⟩ => ?_
      refine .lookup hfind fun kind hkind _ => ?_
      obtain ⟨_, _, scalar, _, rfl, rfl, rfl⟩ := hkind.binary_eq
      have htype := scalar.erodes_unless (leftType.isError || rightType.isError)
      dsimp only
      -- an equality compares its operands with each other, so they may mismatch
      by_cases hfailed : (leftType.isError || rightType.isError) = true
      · rw [if_neg (by simp [hfailed])]
        exact .pure ⟨htype, fun h => Finds.of_some h.1⟩ fun hC => ⟨⟨hC.1, hC.2.2.1⟩, hC.2.2.2⟩
      · rw [if_pos (by simp [hfailed]), if_pos (show TypeDenoter.any.isAny = true from rfl)]
        refine .mismatch (by decide) (.pure ⟨htype, fun h => Finds.of_some h.1⟩ fun hC =>
          ⟨⟨⟨hC.1, hC.2.2.1⟩, hC.2.2.2⟩, ?_⟩)
        exact not_incompatible_of_whole herodes herodes' hequivalent (hwhole hC.2.2.1)
          (hwhole' hC.2.2.2)
  | .array helements, hmis => by
    cases hmis with
    | array helements' =>
      rw [expression]
      refine .last (arrayAggregate_slips helements helements')
        fun (elements, element) ⟨herodes, _⟩ => ?_
      -- misspelling changes no number of elements
      have hcount := helements'.count_eq
      exact .step (.newSerial _) fun serial _ =>
        .pure ⟨.array (by rw [hcount]) herodes, fun h => Finds.of_some h.1⟩
          fun hC => ⟨hC.1, hC.2.2⟩
  | .record hfields, hmis => by
    cases hmis with
    | record hfields' =>
      rw [expression]
      refine .last (recordAggregate_slips hfields hfields') fun (fields, types) herodes => ?_
      exact .step (.newSerial _) fun serial _ =>
        .pure ⟨.record herodes, fun h => Finds.of_some h.1⟩ fun hC => ⟨hC.1, hC.2.2⟩

theorem arrayAggregate_slips {W : Prop} {Γ : Env} {p p' : Supply} {spans : List Span}
    {node node' written : ArrayAggregate} {type : TypeDenoter} :
    ArrayAggregate.Typed Γ p node node' type p' → node.Misspelt w spans written →
      (arrayAggregate written).Slips w formal W Γ p spans Γ p'
        (fun found => type.Erodes found.2 ∧ (found.1.Apart formal passing → found.2.Whole))
        fun found => W ∧ found.1.Apart formal passing
  | .one helement, hmis => by
    cases hmis with
    | one helement' =>
      rw [arrayAggregate]
      refine .last (expression_slips helement helement') fun (element, type) hfound => ?_
      exact .pure hfound id
  | .more helement hrest hequivalent, hmis => by
    cases hmis with
    | more helement' hrest' =>
      rw [arrayAggregate]
      refine .bind (expression_slips helement helement')
        fun (element, type) ⟨herodes, hwhole⟩ => ?_
      refine .last (arrayAggregate_slips hrest hrest')
        fun (rest, restType) ⟨herodes', hwhole'⟩ => ?_
      refine .mismatch (by decide) (.pure ⟨herodes, fun h => hwhole h.1⟩ fun hC =>
        ⟨⟨⟨hC.1, hC.2.1⟩, hC.2.2⟩, ?_⟩)
      exact not_incompatible_of_whole herodes herodes' hequivalent (hwhole hC.2.1)
        (hwhole' hC.2.2)

theorem recordAggregate_slips {W : Prop} {Γ : Env} {p p' : Supply} {spans : List Span}
    {node node' written : RecordAggregate} {types : Fields} :
    RecordAggregate.Typed Γ p node node' types p' → node.Misspelt w spans written →
      (recordAggregate written).Slips w formal W Γ p spans Γ p'
        (fun found => types.Erodes found.2) fun found => W ∧ found.1.Apart formal passing
  | .one hvalue, hmis => by
    cases hmis with
    | one hvalue' =>
      rw [recordAggregate]
      refine .last (expression_slips hvalue hvalue') fun (value, type) ⟨herodes, _⟩ => ?_
      exact .pure (.one rfl herodes) id
  | .more hvalue hrest hnew, hmis => by
    cases hmis with
    | more hvalue' hrest' =>
      rw [recordAggregate]
      refine .bind (expression_slips hvalue hvalue') fun (value, type) ⟨herodes, _⟩ => ?_
      refine .last (recordAggregate_slips hrest hrest') fun (rest, types) herodes' => ?_
      dsimp only
      rw [if_neg (by simp [herodes'.find?_none hnew])]
      exact .pure (.more rfl herodes herodes') fun hC => ⟨⟨hC.1, hC.2.1⟩, hC.2.2⟩

theorem vname_slips {W : Prop} {Γ : Env} {p p' : Supply} {spans : List Span}
    {node node' written : Vname} {type : TypeDenoter} :
    Vname.Typed Γ p node node' type p' → node.Misspelt w spans written →
      (vname written).Slips w formal W Γ p spans Γ p'
        (fun found => type.Erodes found.2 ∧ (found.1.Apart formal passing → found.2.Whole) ∧
          (node'.isVariable = true → found.1.isVariable = true ∨ found.2.isError = true))
        fun found => W ∧ found.1.Apart formal passing
  | .const hfind, hmis => by
    cases hmis with
    | simple =>
      rw [vname]
      refine .lookup hfind fun kind hkind _ => ?_
      obtain ⟨htype⟩ := hkind
      exact .pure ⟨htype, Finds.of_some, nofun⟩ And.left
    | misspelt =>
      rw [vname]
      -- the name is reported, and the vname gets the type `error`
      refine .lookup_misspelt rfl ?_
      dsimp only
      refine .misspelt _ ?_
      exact .pure ⟨.error, Finds.of_some, nofun⟩ And.left
  | .var hfind, hmis => by
    cases hmis with
    | simple =>
      rw [vname]
      refine .lookup hfind fun kind hkind _ => ?_
      obtain ⟨⟩ | ⟨htype⟩ := hkind
      exact .pure ⟨htype, Finds.of_some, fun _ => .inl rfl⟩ And.left
    | misspelt =>
      rw [vname]
      refine .lookup_misspelt rfl ?_
      dsimp only
      refine .misspelt _ ?_
      exact .pure ⟨.error, Finds.of_some, fun _ => .inr rfl⟩ And.left
  | .dot hrecord hfind, hmis => by
    cases hmis with
    | dot hrecord' =>
      rw [vname]
      refine .last (vname_slips hrecord hrecord')
        fun (record, recordType) ⟨herodes, _, hvariable⟩ => ?_
      dsimp only at herodes hvariable ⊢
      cases herodes with
      -- selecting from `error` gives `error` again, with no further report
      | error =>
        rw [pure_bind]
        exact .pure ⟨.error, fun h => Finds.of_some h.1, fun _ => .inr rfl⟩ fun hC => ⟨hC.1, hC.2.2⟩
      -- the field is found as before, of an eroded type
      | record hfields =>
        obtain ⟨type', hfind', htype⟩ := hfields.find? hfind
        dsimp only
        rw [hfind', pure_bind]
        refine .pure ⟨htype, fun h => Finds.of_some h.1, fun h => ?_⟩ fun hC => ⟨hC.1, hC.2.2⟩
        rcases hvariable h with h | h
        · exact .inl h
        · cases h
  | .subscript harray hindex, hmis => by
    cases hmis with
    | subscript harray' hindex' =>
      rw [vname]
      refine .bind (vname_slips harray harray')
        fun (array, arrayType) ⟨herodes, _, hvariable⟩ => ?_
      refine .last (expression_slips hindex hindex') fun (index, indexType) ⟨hinteger, _⟩ => ?_
      dsimp only at herodes hvariable hinteger ⊢
      cases herodes with
      | error =>
        rw [pure_bind]
        exact .pure ⟨.error, fun h => Finds.of_some h.1, fun _ => .inr rfl⟩
          fun hC => ⟨⟨hC.1, hC.2.2.1⟩, hC.2.2.2⟩
      -- the index is an integer or `error`, and both are accepted
      | array _ helement =>
        have hcompatible : indexType.compatible .integer = true := by
          rcases TypeDenoter.erodes_integer_iff.1 hinteger with rfl | rfl <;> rfl
        dsimp only
        rw [if_neg (by simp [hcompatible]), pure_bind]
        refine .pure ⟨helement, fun h => Finds.of_some h.1, fun h => ?_⟩
          fun hC => ⟨⟨hC.1, hC.2.2.1⟩, hC.2.2.2⟩
        rcases hvariable h with h | h
        · exact .inl h
        · cases h

theorem declaration_slips {W : Prop} {Γ Γ' : Env} {p p' : Supply} {spans : List Span}
    {node node' written : Declaration} :
    Declaration.Typed Γ p node node' Γ' p' → node.Misspelt w spans written →
      (declaration written).Slips w formal W Γ p spans Γ' p' (fun _ => True)
        fun found => W ∧ found.Apart formal passing
  | .const hvalue hnew, hmis => by
    cases hmis with
    | const hfresh hvalue' =>
      rw [declaration]
      refine .last (expression_slips hvalue hvalue') fun (value, type) ⟨herodes, _⟩ => ?_
      refine .step (.declare hnew hfresh (.const herodes) fun _ => trivial) ?_
      rintro _ rfl
      exact .pure trivial id
  | .var htype hnew, hmis => by
    cases hmis with
    | var hfresh htype' =>
      rw [declaration]
      refine .last (typeDenoter_slips htype htype') fun type herodes => ?_
      refine .step (.declare hnew hfresh (.var herodes) fun _ => trivial) ?_
      rintro _ rfl
      exact .pure trivial And.left
  | .proc hnew hparameters hbody, hmis => by
    cases hmis with
    | proc hfresh hparameters' hbody' =>
      rw [declaration]
      refine .of_below fun hbelow => ?_
      -- the parameters are checked before the procedure has its signature
      obtain ⟨hplain, hrebind⟩ := hparameters.rebind_routine hbelow (.proc []) nofun
      refine .step (.declare hnew hfresh (.proc .nil) fun _ => trivial) ?_
      rintro _ rfl
      refine .step .openScope fun _ _ => ?_
      refine .bind (formals_slips hplain hparameters')
        fun (parameters, shapes) ⟨herodes, htypes⟩ => ?_
      refine .step (.rebind _ (.proc herodes) fun hW => htypes hW.2) fun _ _ => ?_
      rw [hrebind]
      refine .last (command_slips hbody hbody') fun body _ => ?_
      refine .step .closeScope fun _ _ => ?_
      rw [hparameters.close_eq]
      exact .pure trivial fun hC => ⟨⟨hC.1, hC.2.1⟩, hC.2.2⟩
  | .func hresult hnew hparameters hbody hequivalent, hmis => by
    cases hmis with
    | func hfresh hresult' hparameters' hbody' =>
      rw [declaration]
      refine .bind (.narrow (typeDenoter_slips hresult hresult')
        fun result (hC : W ∧ formal result) => hC.1) fun result hresultType => ?_
      refine .of_below fun hbelow => ?_
      obtain ⟨hplain, hrebind⟩ := hparameters.rebind_routine hbelow (.func [] _) nofun
      refine .step (.declare hnew hfresh (.func .nil hresultType)
        fun hW => ⟨trivial, hW.2⟩) ?_
      rintro _ rfl
      refine .step .openScope fun _ _ => ?_
      refine .bind (formals_slips hplain hparameters')
        fun (parameters, shapes) ⟨herodes, htypes⟩ => ?_
      refine .step (.rebind _ (.func herodes hresultType) fun hW => ⟨htypes hW.2, hW.1.2⟩)
        fun _ _ => ?_
      rw [hrebind]
      refine .last (expression_slips hbody hbody') fun (body, bodyType) ⟨hbodyType, hwhole⟩ => ?_
      refine .step .closeScope fun _ _ => ?_
      rw [hparameters.close_eq]
      refine .mismatch (by decide) (.pure trivial fun hC =>
        ⟨⟨⟨⟨hC.1, hC.2.2.1⟩, hC.2.1⟩, hC.2.2.2⟩, ?_⟩)
      exact not_incompatible_of_whole hresultType hbodyType hequivalent (hformal _ hC.2.2.1)
        (hwhole hC.2.2.2)
  | .type htype hnew, hmis => by
    cases hmis with
    | type hfresh htype' =>
      rw [declaration]
      refine .last (typeDenoter_slips htype htype') fun type herodes => ?_
      refine .step (.declare hnew hfresh (.type herodes) fun _ => trivial) ?_
      rintro _ rfl
      exact .pure trivial And.left
  | .sequence hfirst hsecond, hmis => by
    cases hmis with
    | sequence hfirst' hsecond' =>
      rw [declaration]
      refine .bind (declaration_slips hfirst hfirst') fun first _ => ?_
      refine .last (declaration_slips hsecond hsecond') fun second _ => ?_
      exact .pure trivial fun hC => ⟨⟨hC.1, hC.2.1⟩, hC.2.2⟩

theorem actuals_slips {W : Prop} {Γ : Env} {p p' : Supply} {spans : List Span}
    {node node' written : Actuals} {shapes shapes' : Signature} :
    Actuals.Typed Γ p node shapes node' p' → node.Misspelt w spans written →
      Signature.Erodes shapes shapes' → (W → Signature.TypesIn formal shapes') →
      (actuals written shapes').Slips w formal W Γ p spans Γ p' (fun _ => True)
        fun found => W ∧ found.Apart formal passing
  | .empty, hmis, herodes, htypes => by
    cases hmis
    cases herodes
    rw [actuals, if_neg (by simp)]
    exact .pure trivial And.left
  | .one hfirst, hmis, herodes, htypes => by
    cases hmis with
    | one hfirst' =>
      obtain ⟨⟩ | ⟨hshape, ⟨⟩⟩ := herodes
      rw [actuals]
      refine .last (actual_slips hfirst hfirst' hshape fun hW => (htypes hW).1) fun first _ => ?_
      exact .pure trivial id
  | .more hfirst hrest, hmis, herodes, htypes => by
    cases hmis with
    | more hfirst' hrest' =>
      obtain ⟨⟩ | ⟨hshape, hothers⟩ := herodes
      -- the eroded signature is as long, so no number of arguments is reported
      obtain ⟨⟩ | ⟨hnext, hrests⟩ := id hothers
      rw [actuals]
      refine .bind (actual_slips hfirst hfirst' hshape fun hW => (htypes hW).1) fun first _ => ?_
      refine .last (actuals_slips hrest hrest' hothers fun hW => (htypes hW.1).2)
        fun rest _ => ?_
      exact .pure trivial fun hC => ⟨⟨hC.1, hC.2.1⟩, hC.2.2⟩

theorem actual_slips {W : Prop} {Γ : Env} {p p' : Supply} {spans : List Span}
    {node node' written : Actual} {shape shape' : FormalShape} :
    Actual.Typed Γ p node shape node' p' → node.Misspelt w spans written →
      shape.Erodes shape' → (W → shape'.TypesIn formal) →
      (actual written shape').Slips w formal W Γ p spans Γ p' (fun _ => True)
        fun found => W ∧ found.Apart formal passing
  | .const hvalue hequivalent, hmis, herodes, htypes => by
    cases hmis with
    | const hvalue' =>
      obtain ⟨hexpected⟩ := herodes
      rw [actual]
      refine .last (expression_slips hvalue hvalue') fun (value, type) ⟨hfound, hwhole⟩ => ?_
      refine .mismatch (by decide) (.pure trivial fun hC => ⟨hC, ?_⟩)
      exact not_incompatible_of_whole hexpected hfound hequivalent (hformal _ (htypes hC.1))
        (hwhole hC.2)
  | .var hfound hvariable hequivalent, hmis, herodes, htypes => by
    cases hmis with
    | var hfound' =>
      obtain ⟨⟩ | ⟨hexpected⟩ := herodes
      rw [actual]
      refine .last (vname_slips hfound hfound')
        fun (found, type) ⟨hfoundType, hwhole, htargets⟩ => ?_
      -- a variable is still one, or has the type `error` and is not asked
      have hplace : ¬ (!found.isVariable && !type.isError) = true := by
        rcases htargets hvariable with h | h <;> simp [h]
      dsimp only
      rw [if_neg hplace]
      refine .mismatch (by decide) (.pure trivial fun hC => ⟨hC, ?_⟩)
      exact not_incompatible_of_whole hexpected hfoundType hequivalent
        (hformal _ (htypes hC.1)) (hwhole hC.2)
  | .proc hfind hequivalent, hmis, herodes, htypes => by
    cases hmis
    obtain ⟨⟩ | ⟨⟩ | ⟨hexpected⟩ := herodes
    rw [actual]
    refine .lookup hfind fun kind hkind hroutine => ?_
    obtain ⟨⟩ | ⟨⟩ | ⟨hshapes⟩ := hkind
    refine .mismatch (by decide) (.pure trivial fun hC => ⟨hC.1, ?_⟩)
    -- routines are compared by their parameters, which have to be resolved for that
    have hresolved := hpassing hC.2
    have hstill := hexpected.equivalent (.mono hresolved (htypes hC.1))
      (.mono hresolved (hroutine hC.1)) (hshapes.of_equivalent hequivalent)
    simp [hstill]
  | .func hfind hequivalent hresult, hmis, herodes, htypes => by
    cases hmis
    obtain ⟨⟩ | ⟨⟩ | ⟨⟩ | ⟨hexpected, hexpectedResult⟩ := herodes
    rw [actual]
    refine .lookup hfind fun kind hkind hroutine => ?_
    obtain ⟨⟩ | ⟨⟩ | ⟨⟩ | ⟨hshapes, hfound⟩ := hkind
    dsimp only
    -- the parameters still agree, and so does the result
    have hstill (hW : W) (h : passing) := hexpected.equivalent
      (.mono (hpassing h) (htypes hW).1) (.mono (hpassing h) (hroutine hW).1)
      (hshapes.of_equivalent hequivalent)
    have hstill' (hW : W) (h : passing) := hexpectedResult.equivalent
      (hpassing h _ (htypes hW).2) (hpassing h _ (hroutine hW).2) (hfound.of_equivalent hresult)
    refine .mismatch_else (by decide) ?_ ?_
    · exact .pure trivial fun hC => ⟨hC.1, by simp [hstill hC.1 hC.2]⟩
    · refine .mismatch (by decide) (.pure trivial fun hC => ⟨⟨hC.1, ?_⟩, ?_⟩)
      · simp [hstill hC.1 hC.2]
      · simp [hstill' hC.1 hC.2]

end

end

end Check

end TriangleTam
