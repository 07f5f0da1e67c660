import TriangleTam.Proofs.Typing.Routine
import TriangleTam.Proofs.Typing.Written

/-! # What checking accepts is well typed

  Where checking makes no report, what it returns has a derivation. Each case
  collects the derivations of the parts and reads the side conditions of the
  rule off the reports that were not made.

  Checking accepts `error` wherever a type is expected, so that a rule may be
  broken without a report. But `error` is only found after a report: without
  one all types are known, and known types are accepted where they are
  equivalent to what is expected.
-/

namespace TriangleTam

namespace Check

/-! ## Type denoters -/

mutual

theorem typeDenoter_ensures (s : Checker) : ∀ (type : TypeDenoter), type.Proper →
    (typeDenoter type).Ensures s fun type' s' => ∀ {Γ p}, s.Agrees Γ p →
      ∃ p', TypeDenoter.Typed Γ p type type' p' ∧ s'.Agrees Γ p'
  | .boolean, _ => .pure fun h => ⟨_, .boolean, h⟩
  | .character, _ => .pure fun h => ⟨_, .character, h⟩
  | .integer, _ => .pure fun h => ⟨_, .integer, h⟩
  | .named span name, _ => by
    rw [typeDenoter]
    refine .bind .lookup? fun found s₁ => ?_
    rcases found with _ | ⟨id, kind⟩
    · exact .reject_pure
    · cases kind with
      | type type =>
        refine .pure ?_
        rintro ⟨rfl, hfind⟩ Γ p h
        exact ⟨p, .named (hfind h).symm, h⟩
      | const | var | proc | func | unary | binary => exact .reject_pure
  | .array serial span length element, hproper => by
    rw [typeDenoter]
    refine .skip fun s₁ => ?_
    refine .bind (typeDenoter_ensures s₁ element hproper) fun element' s₂ => ?_
    refine .bind .newSerial fun serial' s₃ => .pure ?_
    intro hserial helement hlength heq Γ p h
    subst heq
    obtain ⟨p₁, htyped, h₁⟩ := helement h
    obtain ⟨rfl, h₂⟩ := hserial (.array p₁.denoters.length span length element') h₁
    exact ⟨_, .array (Int.not_le.1 hlength) htyped, h₂⟩
  | .record serial span fields, hproper => by
    rw [typeDenoter]
    refine .bind (fieldTypes_ensures s fields hproper) fun fields' s₁ => ?_
    refine .bind .newSerial fun serial' s₂ => .pure ?_
    intro hserial hfields Γ p h
    obtain ⟨p₁, htyped, h₁⟩ := hfields h
    obtain ⟨rfl, h₂⟩ := hserial (.record p₁.denoters.length span fields') h₁
    exact ⟨_, .record htyped, h₂⟩

theorem fieldTypes_ensures (s : Checker) : ∀ (fields : Fields), fields.Proper →
    (fieldTypes fields).Ensures s fun fields' s' => ∀ {Γ p}, s.Agrees Γ p →
      ∃ p', Fields.Typed Γ p fields fields' p' ∧ s'.Agrees Γ p'
  | .one span name type, hproper => by
    rw [fieldTypes]
    refine .bind (typeDenoter_ensures s type hproper) fun type' s₁ => .pure ?_
    intro htype Γ p h
    obtain ⟨p₁, htyped, h₁⟩ := htype h
    exact ⟨p₁, .one htyped, h₁⟩
  | .more span name type rest, ⟨hproper, hproper'⟩ => by
    rw [fieldTypes]
    refine .bind (typeDenoter_ensures s type hproper) fun type' s₁ => ?_
    refine .bind (fieldTypes_ensures s₁ rest hproper') fun rest' s₂ => .pure ?_
    intro hrest htype Γ p h
    obtain ⟨p₁, htyped, h₁⟩ := htype h
    obtain ⟨p₂, htyped', h₂⟩ := hrest h₁
    exact ⟨p₂, .more htyped htyped', h₂⟩

end

/-! ## Formal parameters -/

mutual

theorem formal_ensures (s : Checker) : ∀ (parameter : Formal),
    parameter.All TypeDenoter.Proper →
    (formal parameter).Ensures s fun result s' => ∀ {Γ p}, s.Agrees Γ p →
      ∃ Γ' p', Formal.Typed Γ p parameter result.1 result.2 Γ' p' ∧ s'.Agrees Γ' p'
  | .const span duplicated name type, hproper => by
    rw [formal]
    refine .bind (typeDenoter_ensures s type hproper) fun type' s₁ => ?_
    refine .bind .declare fun (name', id, duplicated') s₂ => .pure ?_
    intro hdeclare htype Γ p h
    obtain ⟨p₁, htyped, h₁⟩ := htype h
    obtain ⟨hnew, heq, h₂⟩ := hdeclare h₁
    cases heq
    exact ⟨_, _, .const htyped hnew, h₂⟩
  | .var span duplicated name type, hproper => by
    rw [formal]
    refine .bind (typeDenoter_ensures s type hproper) fun type' s₁ => ?_
    refine .bind .declare fun (name', id, duplicated') s₂ => .pure ?_
    intro hdeclare htype Γ p h
    obtain ⟨p₁, htyped, h₁⟩ := htype h
    obtain ⟨hnew, heq, h₂⟩ := hdeclare h₁
    cases heq
    exact ⟨_, _, .var htyped hnew, h₂⟩
  | .proc span duplicated name inner, hproper => by
    rw [formal]
    refine .bind .openScope fun _ s₁ => ?_
    refine .bind (formals_ensures s₁ inner hproper) fun (inner', shapes) s₂ => ?_
    refine .bind .closeScope fun _ s₃ => ?_
    refine .bind .declare fun (name', id, duplicated') s₄ => .pure ?_
    intro hdeclare hclose hinner hopen Γ p h
    obtain ⟨Γ', p₁, htyped, h₁⟩ := hinner (hopen h)
    have h₂ := hclose h₁
    -- the scope that is closed held the inner parameters and nothing else
    rw [htyped.close_eq] at h₂
    obtain ⟨hnew, heq, h₃⟩ := hdeclare h₂
    cases heq
    exact ⟨_, _, .proc htyped hnew, h₃⟩
  | .func span duplicated name inner result, ⟨hproper, hproper'⟩ => by
    rw [formal]
    refine .bind (typeDenoter_ensures s result hproper') fun result' s₁ => ?_
    refine .bind .openScope fun _ s₂ => ?_
    refine .bind (formals_ensures s₂ inner hproper) fun (inner', shapes) s₃ => ?_
    refine .bind .closeScope fun _ s₄ => ?_
    refine .bind .declare fun (name', id, duplicated') s₅ => .pure ?_
    intro hdeclare hclose hinner hopen hresult Γ p h
    obtain ⟨p₁, htyped, h₁⟩ := hresult h
    obtain ⟨Γ', p₂, htyped', h₂⟩ := hinner (hopen h₁)
    have h₃ := hclose h₂
    -- the result is checked outside of the scope of the parameters
    rw [htyped'.close_eq] at h₃
    obtain ⟨hnew, heq, h₄⟩ := hdeclare h₃
    cases heq
    exact ⟨_, _, .func htyped htyped' hnew, h₄⟩

theorem formals_ensures (s : Checker) : ∀ (parameters : Formals),
    parameters.All TypeDenoter.Proper →
    (formals parameters).Ensures s fun result s' => ∀ {Γ p}, s.Agrees Γ p →
      ∃ Γ' p', Formals.Typed Γ p parameters result.1 result.2 Γ' p' ∧ s'.Agrees Γ' p'
  | .empty span, _ => .pure fun h => ⟨_, _, .empty, h⟩
  | .one span first, hproper => by
    rw [formals]
    refine .bind (formal_ensures s first hproper) fun (first', shape) s₁ => .pure ?_
    intro hfirst Γ p h
    obtain ⟨Γ', p₁, htyped, h₁⟩ := hfirst h
    exact ⟨Γ', p₁, .one htyped, h₁⟩
  | .more span first rest, ⟨hproper, hproper'⟩ => by
    rw [formals]
    refine .bind (formal_ensures s first hproper) fun (first', shape) s₁ => ?_
    refine .bind (formals_ensures s₁ rest hproper') fun (rest', shapes) s₂ => .pure ?_
    intro hrest hfirst Γ p h
    obtain ⟨Γ', p₁, htyped, h₁⟩ := hfirst h
    obtain ⟨Γ'', p₂, htyped', h₂⟩ := hrest h₁
    exact ⟨Γ'', p₂, .more htyped htyped', h₂⟩

end

/-! ## Commands, expressions and declarations -/

theorem expectBoolean_ensures {s : Checker} {type : TypeDenoter} {span : Span} :
    (expectBoolean type span).Ensures s fun _ s' =>
      s' = s ∧ ¬ (!type.compatible .boolean) = true := by
  rw [expectBoolean]
  by_cases hcompatible : (!type.compatible .boolean) = true
  · rw [if_pos hcompatible]
    exact .report _ _ _
  · rw [if_neg hcompatible]
    exact .pure ⟨rfl, hcompatible⟩

/-- A condition of a known type is Boolean if it is not complained about. -/
theorem eq_boolean {p : Supply} {type : TypeDenoter} (hknown : p.Knows type)
    (h : ¬ (!type.compatible .boolean) = true) : type = .boolean :=
  TypeDenoter.equivalent_boolean_iff.1 (hknown.resolved.equivalent trivial h)

theorem eq_integer {p : Supply} {type : TypeDenoter} (hknown : p.Knows type)
    (h : ¬ (!type.compatible .integer) = true) : type = .integer :=
  TypeDenoter.equivalent_integer_iff.1 (hknown.resolved.equivalent trivial h)

mutual

theorem command_ensures (s : Checker) : ∀ (node : Command),
    node.All TypeDenoter.Proper (fun _ => True) →
    (command node).Ensures s fun node' s' => ∀ {Γ p}, s.Agrees Γ p → Γ.TypesIn p.Knows →
      ∃ p', Command.Typed Γ p node node' p' ∧ s'.Agrees Γ p'
  | .empty span, _ => .pure fun h _ => ⟨_, .empty, h⟩
  | .assign span target value, ⟨hproper, hproper'⟩ => by
    rw [command]
    refine .bind (vname_ensures s target hproper) fun (target', targetType) s₁ => ?_
    refine .bind (expression_ensures s₁ value hproper') fun (value', valueType) s₂ => ?_
    refine .skip fun s₃ => .skip fun s₄ => .pure ?_
    rintro hcompatible rfl hvariable rfl hvalue htarget Γ p h hΓ
    obtain ⟨p₁, htyped, h₁⟩ := htarget h hΓ
    obtain ⟨p₂, htyped', h₂⟩ := hvalue h₁ (hΓ.later htyped.before)
    have htargetType := (htyped.known hΓ).2
    have hvalueType := (htyped'.known (hΓ.later htyped.before)).2
    have hequivalent := htargetType.resolved.equivalent hvalueType.resolved hcompatible
    -- a known type is not `error`, so the target was checked to be a variable
    simp only [htargetType.resolved.isError, Bool.not_false, Bool.and_true, Bool.not_eq_true',
      Bool.not_eq_false] at hvariable
    exact ⟨p₂, .assign htyped htyped' hvariable hequivalent, h₂⟩
  | .call span callee args, hproper => by
    rw [command]
    refine .bind .lookup? fun found s₁ => ?_
    rcases found with _ | ⟨id, kind⟩
    · exact .reject_pure
    · cases kind with
      | proc shapes =>
        refine .bind (actuals_ensures s₁ args hproper shapes) fun args' s₂ => .pure ?_
        rintro hargs ⟨rfl, hfind⟩ Γ p h hΓ
        have hfound := (hfind h).symm
        obtain ⟨p₁, htyped, h₁⟩ := hargs h hΓ (hΓ.find? hfound)
        exact ⟨p₁, .call hfound htyped, h₁⟩
      -- whatever is no procedure is reported
      | type | const | var | func | unary | binary => exact .reject_pure
  | .sequence span first second, ⟨hproper, hproper'⟩ => by
    rw [command]
    refine .bind (command_ensures s first hproper) fun first' s₁ => ?_
    refine .bind (command_ensures s₁ second hproper') fun second' s₂ => .pure ?_
    intro hsecond hfirst Γ p h hΓ
    obtain ⟨p₁, htyped, h₁⟩ := hfirst h hΓ
    obtain ⟨p₂, htyped', h₂⟩ := hsecond h₁ (hΓ.later htyped.before)
    exact ⟨p₂, .sequence htyped htyped', h₂⟩
  | .letIn span declared body, ⟨hproper, hproper'⟩ => by
    rw [command]
    refine .bind .openScope fun _ s₁ => ?_
    refine .bind (declaration_ensures s₁ declared hproper) fun declared' s₂ => ?_
    refine .bind (command_ensures s₂ body hproper') fun body' s₃ => ?_
    refine .bind .closeScope fun _ s₄ => .pure ?_
    intro hclose hbody hdeclared hopen Γ p h hΓ
    obtain ⟨Γ', p₁, htyped, h₁⟩ := hdeclared (hopen h) hΓ.enclose
    obtain ⟨p₂, htyped', h₂⟩ := hbody h₁ (htyped.known hΓ.enclose).2
    have h₃ := hclose h₂
    -- behind the command its declarations are out of scope
    rw [htyped.close_eq] at h₃
    exact ⟨p₂, .letIn htyped htyped', h₃⟩
  | .ifElse span condition thenBranch elseBranch, ⟨hproper, hproper', hproper''⟩ => by
    rw [command]
    refine .bind (expression_ensures s condition hproper) fun (condition', type) s₁ => ?_
    refine .bind expectBoolean_ensures fun _ s₂ => ?_
    refine .bind (command_ensures s₂ thenBranch hproper') fun then' s₃ => ?_
    refine .bind (command_ensures s₃ elseBranch hproper'') fun else' s₄ => .pure ?_
    rintro helse hthen ⟨rfl, hboolean⟩ hcondition Γ p h hΓ
    obtain ⟨p₁, htyped, h₁⟩ := hcondition h hΓ
    obtain rfl := eq_boolean (htyped.known hΓ).2 hboolean
    have hΓ₁ := hΓ.later htyped.before
    obtain ⟨p₂, htyped', h₂⟩ := hthen h₁ hΓ₁
    obtain ⟨p₃, htyped'', h₃⟩ := helse h₂ (hΓ₁.later htyped'.before)
    exact ⟨p₃, .ifElse htyped htyped' htyped'', h₃⟩
  | .whileDo span condition body, ⟨hproper, hproper'⟩ => by
    rw [command]
    refine .bind (expression_ensures s condition hproper) fun (condition', type) s₁ => ?_
    refine .bind expectBoolean_ensures fun _ s₂ => ?_
    refine .bind (command_ensures s₂ body hproper') fun body' s₃ => .pure ?_
    rintro hbody ⟨rfl, hboolean⟩ hcondition Γ p h hΓ
    obtain ⟨p₁, htyped, h₁⟩ := hcondition h hΓ
    obtain rfl := eq_boolean (htyped.known hΓ).2 hboolean
    obtain ⟨p₂, htyped', h₂⟩ := hbody h₁ (hΓ.later htyped.before)
    exact ⟨p₂, .whileDo htyped htyped', h₂⟩
  | .repeatUntil span body condition, ⟨hproper, hproper'⟩ => by
    rw [command]
    refine .bind (command_ensures s body hproper) fun body' s₁ => ?_
    refine .bind (expression_ensures s₁ condition hproper') fun (condition', type) s₂ => ?_
    refine .bind expectBoolean_ensures fun _ s₃ => .pure ?_
    rintro ⟨rfl, hboolean⟩ hcondition hbody Γ p h hΓ
    obtain ⟨p₁, htyped, h₁⟩ := hbody h hΓ
    have hΓ₁ := hΓ.later htyped.before
    obtain ⟨p₂, htyped', h₂⟩ := hcondition h₁ hΓ₁
    obtain rfl := eq_boolean (htyped'.known hΓ₁).2 hboolean
    exact ⟨p₂, .repeatUntil htyped htyped', h₂⟩
  | .loopWhile span body condition tail, ⟨hproper, hproper', hproper''⟩ => by
    rw [command]
    refine .bind (command_ensures s body hproper) fun body' s₁ => ?_
    refine .bind (expression_ensures s₁ condition hproper') fun (condition', type) s₂ => ?_
    refine .bind expectBoolean_ensures fun _ s₃ => ?_
    refine .bind (command_ensures s₃ tail hproper'') fun tail' s₄ => .pure ?_
    rintro htail ⟨rfl, hboolean⟩ hcondition hbody Γ p h hΓ
    obtain ⟨p₁, htyped, h₁⟩ := hbody h hΓ
    have hΓ₁ := hΓ.later htyped.before
    obtain ⟨p₂, htyped', h₂⟩ := hcondition h₁ hΓ₁
    obtain rfl := eq_boolean (htyped'.known hΓ₁).2 hboolean
    obtain ⟨p₃, htyped'', h₃⟩ := htail h₂ (hΓ₁.later htyped'.before)
    exact ⟨p₃, .loopWhile htyped htyped' htyped'', h₃⟩

theorem expression_ensures (s : Checker) : ∀ (node : Expression),
    node.All TypeDenoter.Proper (fun _ => True) →
    (expression node).Ensures s fun result s' => ∀ {Γ p}, s.Agrees Γ p → Γ.TypesIn p.Knows →
      ∃ p', Expression.Typed Γ p node result.1 result.2 p' ∧ s'.Agrees Γ p'
  | .integer span type literal, _ => .pure fun h _ => ⟨_, .integer, h⟩
  | .character span type literal, _ => .pure fun h _ => ⟨_, .character, h⟩
  | .vname span type found, ⟨_, hproper⟩ => by
    rw [expression]
    refine .bind (vname_ensures s found hproper) fun (found', foundType) s₁ => .pure ?_
    intro hfound Γ p h hΓ
    obtain ⟨p₁, htyped, h₁⟩ := hfound h hΓ
    exact ⟨p₁, .vname htyped, h₁⟩
  | .call span type callee args, ⟨_, hproper⟩ => by
    rw [expression]
    refine .bind .lookup? fun found s₁ => ?_
    rcases found with _ | ⟨id, kind⟩
    · exact .reject_pure
    · cases kind with
      | func shapes result =>
        refine .bind (actuals_ensures s₁ args hproper shapes) fun args' s₂ => .pure ?_
        rintro hargs ⟨rfl, hfind⟩ Γ p h hΓ
        have hfound := (hfind h).symm
        obtain ⟨p₁, htyped, h₁⟩ := hargs h hΓ (hΓ.find? hfound).1
        exact ⟨p₁, .call hfound htyped, h₁⟩
      | type | const | var | proc | unary | binary => exact .reject_pure
  | .ifElse span type condition thenBranch elseBranch, ⟨_, hproper, hproper', hproper''⟩ => by
    rw [expression]
    refine .bind (expression_ensures s condition hproper) fun (condition', type') s₁ => ?_
    refine .bind expectBoolean_ensures fun _ s₂ => ?_
    refine .bind (expression_ensures s₂ thenBranch hproper') fun (then', thenType) s₃ => ?_
    refine .bind (expression_ensures s₃ elseBranch hproper'') fun (else', elseType) s₄ => ?_
    refine .skip fun s₅ => .pure ?_
    rintro hcompatible rfl helse hthen ⟨rfl, hboolean⟩ hcondition Γ p h hΓ
    obtain ⟨p₁, htyped, h₁⟩ := hcondition h hΓ
    obtain rfl := eq_boolean (htyped.known hΓ).2 hboolean
    have hΓ₁ := hΓ.later htyped.before
    obtain ⟨p₂, htyped', h₂⟩ := hthen h₁ hΓ₁
    obtain ⟨p₃, htyped'', h₃⟩ := helse h₂ (hΓ₁.later htyped'.before)
    have hthenType := (htyped'.known hΓ₁).2
    have helseType := (htyped''.known (hΓ₁.later htyped'.before)).2
    have hequivalent := hthenType.resolved.equivalent helseType.resolved hcompatible
    -- the type of both branches is that of the first, as it is no `error`
    dsimp only
    rw [hthenType.resolved.isError]
    exact ⟨p₃, .ifElse htyped htyped' htyped'' hequivalent, h₃⟩
  | .letIn span type declared body, ⟨_, hproper, hproper'⟩ => by
    rw [expression]
    refine .bind .openScope fun _ s₁ => ?_
    refine .bind (declaration_ensures s₁ declared hproper) fun declared' s₂ => ?_
    refine .bind (expression_ensures s₂ body hproper') fun (body', bodyType) s₃ => ?_
    refine .bind .closeScope fun _ s₄ => .pure ?_
    intro hclose hbody hdeclared hopen Γ p h hΓ
    obtain ⟨Γ', p₁, htyped, h₁⟩ := hdeclared (hopen h) hΓ.enclose
    obtain ⟨p₂, htyped', h₂⟩ := hbody h₁ (htyped.known hΓ.enclose).2
    have h₃ := hclose h₂
    rw [htyped.close_eq] at h₃
    exact ⟨p₂, .letIn htyped htyped', h₃⟩
  | .unary span type operator operand, ⟨_, hproper⟩ => by
    rw [expression]
    refine .bind (expression_ensures s operand hproper) fun (operand', operandType) s₁ => ?_
    refine .bind .lookup? fun found s₂ => ?_
    rcases found with _ | ⟨id, kind⟩
    · exact .reject_pure
    · cases kind with
      | unary expected result =>
        refine .skip fun s₃ => .pure ?_
        rintro hcompatible rfl ⟨rfl, hfind⟩ hoperand Γ p h hΓ
        obtain ⟨p₁, htyped, h₁⟩ := hoperand h hΓ
        have hfound := (hfind h₁).symm
        have hknown := (htyped.known hΓ).2
        have hexpected := ((hΓ.later htyped.before).find? hfound).1
        rw [hknown.resolved.isError] at hcompatible
        have hequivalent := hexpected.resolved.equivalent hknown.resolved hcompatible
        dsimp only
        rw [hknown.resolved.isError]
        exact ⟨p₁, .unary htyped hfound hequivalent, h₁⟩
      | type | const | var | proc | func | binary => exact .reject_pure
  | .binary span type left operator right, ⟨_, hproper, hproper'⟩ => by
    rw [expression]
    refine .bind (expression_ensures s left hproper) fun (left', leftType) s₁ => ?_
    refine .bind (expression_ensures s₁ right hproper') fun (right', rightType) s₂ => ?_
    refine .bind .lookup? fun found s₃ => ?_
    rcases found with _ | ⟨id, kind⟩
    · exact .reject_pure
    · cases kind with
      | binary expectedLeft expectedRight result =>
        dsimp only
        -- operands of type `error` are compared with nothing
        by_cases hfailed : (!(leftType.isError || rightType.isError)) = true
        · rw [if_pos hfailed]
          simp only [Bool.not_eq_true', Bool.or_eq_false_iff] at hfailed
          simp only [hfailed.1, hfailed.2, Bool.or_self]
          -- an equality takes any two operands of one type, and other operators what they expect
          by_cases hany : expectedLeft.isAny = true
          · rw [if_pos hany]
            refine .skip fun s₄ => .pure ?_
            rintro hcompatible rfl ⟨rfl, hfind⟩ hright hleft Γ p h hΓ
            obtain ⟨p₁, htyped, h₁⟩ := hleft h hΓ
            have hΓ₁ := hΓ.later htyped.before
            obtain ⟨p₂, htyped', h₂⟩ := hright h₁ hΓ₁
            have hequivalent := (htyped.known hΓ).2.resolved.equivalent
              (htyped'.known hΓ₁).2.resolved hcompatible
            obtain rfl := TypeDenoter.isAny_iff.1 hany
            exact ⟨p₂, .equality htyped htyped' (hfind h₂).symm hequivalent, h₂⟩
          · rw [if_neg hany]
            refine .skip fun s₄ => .pure ?_
            rintro hcompatible rfl ⟨rfl, hfind⟩ hright hleft Γ p h hΓ
            obtain ⟨p₁, htyped, h₁⟩ := hleft h hΓ
            have hΓ₁ := hΓ.later htyped.before
            obtain ⟨p₂, htyped', h₂⟩ := hright h₁ hΓ₁
            have hfound := (hfind h₂).symm
            -- in a known environment an operator that expects no `any` expects known types
            obtain ⟨hoperands | hoperands, -⟩ := (hΓ₁.later htyped'.before).find? hfound
            · exact absurd (TypeDenoter.isAny_iff.2 hoperands) hany
            have hleftType := htyped'.before.knows _ (htyped.known hΓ).2
            have hrightType := (htyped'.known hΓ₁).2
            simp only [Bool.or_eq_true, not_or] at hcompatible
            have hequivalent := hoperands.1.resolved.equivalent hleftType.resolved hcompatible.1
            have hequivalent' := hoperands.2.resolved.equivalent hrightType.resolved hcompatible.2
            exact ⟨p₂, .binary htyped htyped' hfound hequivalent hequivalent', h₂⟩
        · rw [if_neg hfailed]
          refine .pure ?_
          rintro ⟨rfl, hfind⟩ hright hleft Γ p h hΓ
          obtain ⟨p₁, htyped, h₁⟩ := hleft h hΓ
          have hΓ₁ := hΓ.later htyped.before
          obtain ⟨p₂, htyped', h₂⟩ := hright h₁ hΓ₁
          -- without a report neither operand has the type `error`
          simp [(htyped.known hΓ).2.resolved.isError, (htyped'.known hΓ₁).2.resolved.isError]
            at hfailed
      | type | const | var | proc | func | unary => exact .reject_pure
  | .array span type elements, ⟨_, hproper⟩ => by
    rw [expression]
    refine .bind (arrayAggregate_ensures s elements hproper) fun (elements', element) s₁ => ?_
    refine .bind .newSerial fun serial s₂ => .pure ?_
    intro hserial helements Γ p h hΓ
    obtain ⟨p₁, htyped, h₁⟩ := helements h hΓ
    obtain ⟨rfl, h₂⟩ := hserial (.array p₁.denoters.length span
      ⟨Numeral.ofNat elements.count, span⟩ element) h₁
    exact ⟨_, .array htyped, h₂⟩
  | .record span type fields, ⟨_, hproper⟩ => by
    rw [expression]
    refine .bind (recordAggregate_ensures s fields hproper) fun (fields', types) s₁ => ?_
    refine .bind .newSerial fun serial s₂ => .pure ?_
    intro hserial hfields Γ p h hΓ
    obtain ⟨p₁, htyped, h₁⟩ := hfields h hΓ
    obtain ⟨rfl, h₂⟩ := hserial (.record p₁.denoters.length span types) h₁
    exact ⟨_, .record htyped, h₂⟩

theorem arrayAggregate_ensures (s : Checker) : ∀ (node : ArrayAggregate),
    node.All TypeDenoter.Proper (fun _ => True) →
    (arrayAggregate node).Ensures s fun result s' => ∀ {Γ p}, s.Agrees Γ p →
      Γ.TypesIn p.Knows →
      ∃ p', ArrayAggregate.Typed Γ p node result.1 result.2 p' ∧ s'.Agrees Γ p'
  | .one span element, hproper => by
    rw [arrayAggregate]
    refine .bind (expression_ensures s element hproper) fun (element', type) s₁ => .pure ?_
    intro helement Γ p h hΓ
    obtain ⟨p₁, htyped, h₁⟩ := helement h hΓ
    exact ⟨p₁, .one htyped, h₁⟩
  | .more span element rest, ⟨hproper, hproper'⟩ => by
    rw [arrayAggregate]
    refine .bind (expression_ensures s element hproper) fun (element', type) s₁ => ?_
    refine .bind (arrayAggregate_ensures s₁ rest hproper') fun (rest', restType) s₂ => ?_
    refine .skip fun s₃ => .pure ?_
    rintro hcompatible rfl hrest helement Γ p h hΓ
    obtain ⟨p₁, htyped, h₁⟩ := helement h hΓ
    have hΓ₁ := hΓ.later htyped.before
    obtain ⟨p₂, htyped', h₂⟩ := hrest h₁ hΓ₁
    have hequivalent := (htyped.known hΓ).2.resolved.equivalent (htyped'.known hΓ₁).2.resolved
      hcompatible
    exact ⟨p₂, .more htyped htyped' hequivalent, h₂⟩

theorem recordAggregate_ensures (s : Checker) : ∀ (node : RecordAggregate),
    node.All TypeDenoter.Proper (fun _ => True) →
    (recordAggregate node).Ensures s fun result s' => ∀ {Γ p}, s.Agrees Γ p →
      Γ.TypesIn p.Knows →
      ∃ p', RecordAggregate.Typed Γ p node result.1 result.2 p' ∧ s'.Agrees Γ p'
  | .one span field value, hproper => by
    rw [recordAggregate]
    refine .bind (expression_ensures s value hproper) fun (value', type) s₁ => .pure ?_
    intro hvalue Γ p h hΓ
    obtain ⟨p₁, htyped, h₁⟩ := hvalue h hΓ
    exact ⟨p₁, .one htyped, h₁⟩
  | .more span field value rest, ⟨hproper, hproper'⟩ => by
    rw [recordAggregate]
    refine .bind (expression_ensures s value hproper) fun (value', type) s₁ => ?_
    refine .bind (recordAggregate_ensures s₁ rest hproper') fun (rest', types) s₂ => ?_
    refine .skip fun s₃ => .pure ?_
    rintro hnew rfl hrest hvalue Γ p h hΓ
    obtain ⟨p₁, htyped, h₁⟩ := hvalue h hΓ
    obtain ⟨p₂, htyped', h₂⟩ := hrest h₁ (hΓ.later htyped.before)
    exact ⟨p₂, .more htyped htyped' (Option.not_isSome_iff_eq_none.1 hnew), h₂⟩

theorem vname_ensures (s : Checker) : ∀ (node : Vname),
    node.All TypeDenoter.Proper (fun _ => True) →
    (vname node).Ensures s fun result s' => ∀ {Γ p}, s.Agrees Γ p → Γ.TypesIn p.Knows →
      ∃ p', Vname.Typed Γ p node result.1 result.2 p' ∧ s'.Agrees Γ p'
  | .simple span type isVariable name, _ => by
    rw [vname]
    refine .bind .lookup? fun found s₁ => ?_
    rcases found with _ | ⟨id, kind⟩
    · exact .reject_pure
    · cases kind with
      | const type =>
        refine .pure ?_
        rintro ⟨rfl, hfind⟩ Γ p h hΓ
        exact ⟨p, .const (hfind h).symm, h⟩
      | var type =>
        refine .pure ?_
        rintro ⟨rfl, hfind⟩ Γ p h hΓ
        exact ⟨p, .var (hfind h).symm, h⟩
      | type | proc | func | unary | binary => exact .reject_pure
  | .dot span type isVariable record field, ⟨_, hproper⟩ => by
    rw [vname]
    refine .bind (vname_ensures s record hproper) fun (record', recordType) s₁ => ?_
    cases recordType with
    | error =>
      refine .pure ?_
      intro hrecord Γ p h hΓ
      obtain ⟨p₁, htyped, h₁⟩ := hrecord h hΓ
      -- `error` is no known type
      exact (htyped.known hΓ).2.elim
    | record serial recordSpan fields =>
      dsimp only
      cases hfind : fields.find? field.spelling with
      | none => exact .reject_pure
      | some fieldType =>
        refine .pure ?_
        intro hrecord Γ p h hΓ
        obtain ⟨p₁, htyped, h₁⟩ := hrecord h hΓ
        exact ⟨p₁, .dot htyped hfind, h₁⟩
    | boolean | character | integer | any | named | array =>
      exact .report_bind fun _ => .pure trivial
  | .subscript span type isVariable array index, ⟨_, hproper, hproper'⟩ => by
    rw [vname]
    refine .bind (vname_ensures s array hproper) fun (array', arrayType) s₁ => ?_
    refine .bind (expression_ensures s₁ index hproper') fun (index', indexType) s₂ => ?_
    cases arrayType with
    | error =>
      refine .pure ?_
      intro hindex harray Γ p h hΓ
      obtain ⟨p₁, htyped, h₁⟩ := harray h hΓ
      -- nor is there a subscript of `error`
      exact (htyped.known hΓ).2.elim
    | array serial arraySpan length element =>
      refine .skip fun s₃ => .pure ?_
      rintro hcompatible rfl hindex harray Γ p h hΓ
      obtain ⟨p₁, htyped, h₁⟩ := harray h hΓ
      have hΓ₁ := hΓ.later htyped.before
      obtain ⟨p₂, htyped', h₂⟩ := hindex h₁ hΓ₁
      obtain rfl := eq_integer (htyped'.known hΓ₁).2 hcompatible
      exact ⟨p₂, .subscript htyped htyped', h₂⟩
    | boolean | character | integer | any | named | record =>
      exact .report_bind fun _ => .pure trivial

theorem declaration_ensures (s : Checker) : ∀ (node : Declaration),
    node.All TypeDenoter.Proper (fun _ => True) →
    (declaration node).Ensures s fun node' s' => ∀ {Γ p}, s.Agrees Γ p → Γ.TypesIn p.Knows →
      ∃ Γ' p', Declaration.Typed Γ p node node' Γ' p' ∧ s'.Agrees Γ' p'
  | .const span duplicated name value, hproper => by
    rw [declaration]
    refine .bind (expression_ensures s value hproper) fun (value', type) s₁ => ?_
    refine .bind .declare fun (name', id, duplicated') s₂ => .pure ?_
    intro hdeclare hvalue Γ p h hΓ
    obtain ⟨p₁, htyped, h₁⟩ := hvalue h hΓ
    obtain ⟨hnew, heq, h₂⟩ := hdeclare h₁
    cases heq
    exact ⟨_, _, .const htyped hnew, h₂⟩
  | .var span duplicated name type, hproper => by
    rw [declaration]
    refine .bind (typeDenoter_ensures s type hproper) fun type' s₁ => ?_
    refine .bind .declare fun (name', id, duplicated') s₂ => .pure ?_
    intro hdeclare htype Γ p h hΓ
    obtain ⟨p₁, htyped, h₁⟩ := htype h
    obtain ⟨hnew, heq, h₂⟩ := hdeclare h₁
    cases heq
    exact ⟨_, _, .var htyped hnew, h₂⟩
  | .proc span duplicated name parameters body, ⟨hproper, hproper'⟩ => by
    rw [declaration]
    refine .bind .declare fun (name', id, duplicated') s₁ => ?_
    refine .bind .openScope fun _ s₂ => ?_
    refine .bind (formals_ensures s₂ parameters hproper) fun (parameters', shapes) s₃ => ?_
    refine .bind .rebind fun _ s₄ => ?_
    refine .bind (command_ensures s₄ body hproper') fun body' s₅ => ?_
    refine .bind .closeScope fun _ s₆ => .pure ?_
    intro hclose hbody hrebind hparameters hopen hdeclare Γ p h hΓ
    obtain ⟨hnew, heq, h₁⟩ := hdeclare h
    cases heq
    obtain ⟨Γ', p₁, htyped, h₂⟩ := hparameters (hopen h₁)
    -- the body is checked once the procedure has its signature
    have htyped' := (htyped.rebind_routine h.below (.proc shapes) nofun).1
    have hΓ' := (htyped'.known_of_routine hΓ nofun id).2
    obtain ⟨p₂, htyped'', h₃⟩ := hbody (hrebind h₂) hΓ'
    have h₄ := hclose h₃
    rw [htyped'.close_eq] at h₄
    exact ⟨_, p₂, .proc hnew htyped' htyped'', h₄⟩
  | .func span duplicated name parameters result body, ⟨hproper, hproper', hproper''⟩ => by
    rw [declaration]
    refine .bind (typeDenoter_ensures s result hproper') fun result' s₁ => ?_
    refine .bind .declare fun (name', id, duplicated') s₂ => ?_
    refine .bind .openScope fun _ s₃ => ?_
    refine .bind (formals_ensures s₃ parameters hproper) fun (parameters', shapes) s₄ => ?_
    refine .bind .rebind fun _ s₅ => ?_
    refine .bind (expression_ensures s₅ body hproper'') fun (body', bodyType) s₆ => ?_
    refine .bind .closeScope fun _ s₇ => ?_
    refine .skip fun s₈ => .pure ?_
    rintro hcompatible rfl hclose hbody hrebind hparameters hopen hdeclare hresult Γ p h hΓ
    obtain ⟨p₁, htyped, h₁⟩ := hresult h
    obtain ⟨hnew, heq, h₂⟩ := hdeclare h₁
    cases heq
    obtain ⟨Γ', p₂, htyped', h₃⟩ := hparameters (hopen h₂)
    -- the body is checked once the function has its signature and its result
    have htyped'' := (htyped'.rebind_routine h₁.below (.func shapes result') nofun).1
    have hknown := ((Supply.before_bind _).trans htyped''.before).knows _ (htyped.known hΓ.names)
    have hΓ' := (htyped''.known_of_routine (hΓ.later htyped.before) nofun
      fun hshapes => ⟨hshapes, hknown⟩).2
    obtain ⟨p₃, htyped₃, h₄⟩ := hbody (hrebind h₃) hΓ'
    have hequivalent := hknown.resolved.equivalent (htyped₃.known hΓ').2.resolved hcompatible
    have h₅ := hclose h₄
    rw [htyped''.close_eq] at h₅
    exact ⟨_, p₃, .func htyped hnew htyped'' htyped₃ hequivalent, h₅⟩
  | .type span duplicated name type, hproper => by
    rw [declaration]
    refine .bind (typeDenoter_ensures s type hproper) fun type' s₁ => ?_
    refine .bind .declare fun (name', id, duplicated') s₂ => .pure ?_
    intro hdeclare htype Γ p h hΓ
    obtain ⟨p₁, htyped, h₁⟩ := htype h
    obtain ⟨hnew, heq, h₂⟩ := hdeclare h₁
    cases heq
    exact ⟨_, _, .type htyped hnew, h₂⟩
  | .sequence span first second, ⟨hproper, hproper'⟩ => by
    rw [declaration]
    refine .bind (declaration_ensures s first hproper) fun first' s₁ => ?_
    refine .bind (declaration_ensures s₁ second hproper') fun second' s₂ => .pure ?_
    intro hsecond hfirst Γ p h hΓ
    obtain ⟨Γ', p₁, htyped, h₁⟩ := hfirst h hΓ
    obtain ⟨Γ'', p₂, htyped', h₂⟩ := hsecond h₁ (htyped.known hΓ).2
    exact ⟨Γ'', p₂, .sequence htyped htyped', h₂⟩

theorem actuals_ensures (s : Checker) : ∀ (node : Actuals),
    node.All TypeDenoter.Proper (fun _ => True) → ∀ (shapes : Signature),
    (actuals node shapes).Ensures s fun node' s' => ∀ {Γ p}, s.Agrees Γ p → Γ.TypesIn p.Knows →
      Signature.TypesIn p.Knows shapes →
      ∃ p', Actuals.Typed Γ p node shapes node' p' ∧ s'.Agrees Γ p'
  | .empty span, _, [] => by
    rw [actuals]
    exact .pure fun h _ _ => ⟨_, .empty, h⟩
  | .empty span, _, shape :: others => by
    rw [actuals]
    -- too few arguments are reported
    exact .report_bind fun _ => .pure trivial
  | .one span first, hproper, [shape] => by
    rw [actuals]
    refine .bind (actual_ensures s first hproper shape) fun first' s₁ => .pure ?_
    intro hfirst Γ p h hΓ hshapes
    obtain ⟨p₁, htyped, h₁⟩ := hfirst h hΓ hshapes.1
    exact ⟨p₁, .one htyped, h₁⟩
  | .one span first, _, [] | .one span first, _, _ :: _ :: _ => by
    rw [actuals]
    · exact .report_bind fun _ => .pure trivial
    · nofun
  | .more span first rest, ⟨hproper, hproper'⟩, shape :: next :: others => by
    rw [actuals]
    refine .bind (actual_ensures s first hproper shape) fun first' s₁ => ?_
    refine .bind (actuals_ensures s₁ rest hproper' (next :: others)) fun rest' s₂ => .pure ?_
    intro hrest hfirst Γ p h hΓ hshapes
    obtain ⟨p₁, htyped, h₁⟩ := hfirst h hΓ hshapes.1
    obtain ⟨p₂, htyped', h₂⟩ := hrest h₁ (hΓ.later htyped.before)
      (hshapes.2.mono htyped.before.knows)
    exact ⟨p₂, .more htyped htyped', h₂⟩
  | .more span first rest, _, [] | .more span first rest, _, [_] => by
    rw [actuals]
    · exact .report_bind fun _ => .pure trivial
    · nofun

theorem actual_ensures (s : Checker) : ∀ (node : Actual),
    node.All TypeDenoter.Proper (fun _ => True) → ∀ (shape : FormalShape),
    (actual node shape).Ensures s fun node' s' => ∀ {Γ p}, s.Agrees Γ p → Γ.TypesIn p.Knows →
      shape.TypesIn p.Knows → ∃ p', Actual.Typed Γ p node shape node' p' ∧ s'.Agrees Γ p'
  | .const span value, hproper, shape => by
    rw [actual]
    refine .bind (expression_ensures s value hproper) fun (value', type) s₁ => ?_
    cases shape with
    | const expected =>
      refine .skip fun s₂ => .pure ?_
      rintro hcompatible rfl hvalue Γ p h hΓ hshape
      obtain ⟨p₁, htyped, h₁⟩ := hvalue h hΓ
      -- the parameter's type is as well known after the argument as before
      have hexpected := htyped.before.knows _ hshape
      have hequivalent := hexpected.resolved.equivalent (htyped.known hΓ).2.resolved hcompatible
      exact ⟨p₁, .const htyped hequivalent, h₁⟩
    | var | proc | func => exact .report_bind fun _ => .pure trivial
  | .var span found, hproper, shape => by
    rw [actual]
    refine .bind (vname_ensures s found hproper) fun (found', type) s₁ => ?_
    cases shape with
    | var expected =>
      refine .skip fun s₂ => .skip fun s₃ => .pure ?_
      rintro hcompatible rfl hvariable rfl hfound Γ p h hΓ hshape
      obtain ⟨p₁, htyped, h₁⟩ := hfound h hΓ
      have hexpected := htyped.before.knows _ hshape
      have hknown := (htyped.known hΓ).2
      have hequivalent := hexpected.resolved.equivalent hknown.resolved hcompatible
      simp only [hknown.resolved.isError, Bool.not_false, Bool.and_true, Bool.not_eq_true',
        Bool.not_eq_false] at hvariable
      exact ⟨p₁, .var htyped hvariable hequivalent, h₁⟩
    | const | proc | func =>
      refine .skip fun s₂ => ?_
      exact .report_bind fun _ => .pure trivial
  | .proc span name, _, shape => by
    rw [actual]
    refine .bind .lookup? fun found s₁ => ?_
    rcases found with _ | ⟨id, kind⟩
    · exact .reject_pure
    · cases kind with
      | proc shapes =>
        cases shape with
        | proc expected =>
          refine .skip fun s₂ => .pure ?_
          rintro hequivalent rfl ⟨rfl, hfind⟩ Γ p h hΓ hshape
          exact ⟨p, .proc (hfind h).symm (by simpa using hequivalent), h⟩
        | const | var | func => exact .report_bind fun _ => .pure trivial
      | type | const | var | func | unary | binary => exact .reject_pure
  | .func span name, _, shape => by
    rw [actual]
    refine .bind .lookup? fun found s₁ => ?_
    rcases found with _ | ⟨id, kind⟩
    · exact .reject_pure
    · cases kind with
      | func shapes result =>
        cases shape with
        | func expected expectedResult =>
          dsimp only
          -- the result is compared only if the parameters agree
          by_cases hequivalent : (!Signature.equivalent expected shapes) = true
          · rw [if_pos hequivalent]
            exact .report_bind fun _ => .pure trivial
          · rw [if_neg hequivalent]
            refine .skip fun s₂ => .pure ?_
            rintro hresult rfl ⟨rfl, hfind⟩ Γ p h hΓ hshape
            exact ⟨p, .func (hfind h).symm (by simpa using hequivalent) (by simpa using hresult),
              h⟩
        | const | var | proc => exact .report_bind fun _ => .pure trivial
      | type | const | var | proc | unary | binary => exact .reject_pure

end

end Check

end TriangleTam
