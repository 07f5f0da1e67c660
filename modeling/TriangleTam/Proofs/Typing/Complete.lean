import TriangleTam.Proofs.Typing.Known
import TriangleTam.Proofs.Typing.Routine
import TriangleTam.Proofs.Typing.Table

/-! # Checking accepts what is well typed

  A derivation tells every step of checking what it finds and returns. So
  checking follows the derivation without a report and returns the decoration
  that the derivation is about. The bindings that it makes on the way are those
  in the table of the decoration.
-/

namespace TriangleTam

namespace Check

/-! ## Type denoters -/

mutual

theorem typeDenoter_passes {s : Checker} {Γ : Env} {p p' : Supply}
    {table : List Binding} {type type' : TypeDenoter} (h : s.Holds Γ p table) :
    TypeDenoter.Typed Γ p type type' p' → (typeDenoter type).Passes s type' Γ p' table
  | .boolean | .character | .integer => .pure h
  | .named hfind => by
    rw [typeDenoter]
    refine .bind (.lookup? h _) fun s₁ h₁ => ?_
    rw [hfind]
    exact .pure h₁
  | .array hlength helement => by
    rw [typeDenoter]
    refine .skip (Int.not_le.2 hlength) ?_
    refine .bind (typeDenoter_passes h helement) fun s₁ h₁ => ?_
    exact .bind (.newSerial h₁ _) fun s₂ h₂ => .pure h₂
  | .record hfields => by
    rw [typeDenoter]
    refine .bind (fieldTypes_passes h hfields) fun s₁ h₁ => ?_
    exact .bind (.newSerial h₁ _) fun s₂ h₂ => .pure h₂

theorem fieldTypes_passes {s : Checker} {Γ : Env} {p p' : Supply}
    {table : List Binding} {fields fields' : Fields} (h : s.Holds Γ p table) :
    Fields.Typed Γ p fields fields' p' → (fieldTypes fields).Passes s fields' Γ p' table
  | .one htype => by
    rw [fieldTypes]
    exact .bind (typeDenoter_passes h htype) fun s₁ h₁ => .pure h₁
  | .more htype hrest => by
    rw [fieldTypes]
    refine .bind (typeDenoter_passes h htype) fun s₁ h₁ => ?_
    exact .bind (fieldTypes_passes h₁ hrest) fun s₂ h₂ => .pure h₂

end

/-! ## Formal parameters -/

mutual

theorem formal_passes {s : Checker} {Γ Γ' : Env} {p p' : Supply}
    {table : List Binding} {parameter parameter' : Formal}
    {shape : FormalShape} (h : s.Holds Γ p table) :
    Formal.Typed Γ p parameter parameter' shape Γ' p' →
      (formal parameter).Passes s (parameter', shape) Γ' p' (table ++ parameter'.bindings)
  | .const htype hnew | .var htype hnew => by
    rw [formal, Formal.bindings]
    refine .bind (typeDenoter_passes h htype) fun s₁ h₁ => ?_
    exact .bind (.declare h₁ hnew _ _) fun s₂ h₂ => .pure h₂
  | .proc hinner hnew => by
    rw [formal, Formal.bindings, hinner.shapes_eq, ← List.append_assoc]
    refine .bind (.openScope h) fun s₁ h₁ => ?_
    refine .bind (formals_passes h₁ hinner) fun s₂ h₂ => ?_
    refine .bind (.closeScope h₂) fun s₃ h₃ => ?_
    rw [hinner.close_eq] at h₃
    exact .bind (.declare h₃ hnew _ _) fun s₄ h₄ => .pure h₄
  | .func hresult hinner hnew => by
    rw [formal, Formal.bindings, hinner.shapes_eq, ← List.append_assoc]
    refine .bind (typeDenoter_passes h hresult) fun s₁ h₁ => ?_
    refine .bind (.openScope h₁) fun s₂ h₂ => ?_
    refine .bind (formals_passes h₂ hinner) fun s₃ h₃ => ?_
    refine .bind (.closeScope h₃) fun s₄ h₄ => ?_
    rw [hinner.close_eq] at h₄
    exact .bind (.declare h₄ hnew _ _) fun s₅ h₅ => .pure h₅

theorem formals_passes {s : Checker} {Γ Γ' : Env} {p p' : Supply} {table : List Binding}
    {parameters parameters' : Formals} {shapes : Signature} (h : s.Holds Γ p table) :
    Formals.Typed Γ p parameters parameters' shapes Γ' p' →
      (formals parameters).Passes s (parameters', shapes) Γ' p' (table ++ parameters'.bindings)
  | .empty => by
    rw [Formals.bindings, List.append_nil]
    exact .pure h
  | .one hfirst => by
    rw [formals, Formals.bindings]
    exact .bind (formal_passes h hfirst) fun s₁ h₁ => .pure h₁
  | .more hfirst hrest => by
    rw [formals, Formals.bindings, ← List.append_assoc]
    refine .bind (formal_passes h hfirst) fun s₁ h₁ => ?_
    exact .bind (formals_passes h₁ hrest) fun s₂ h₂ => .pure h₂

end

/-! ## Commands, expressions and declarations -/

theorem expectBoolean_passes {s : Checker} {Γ : Env} {p : Supply}
    {table : List Binding} (h : s.Holds Γ p table)
    (span : Span) : (expectBoolean .boolean span).Passes s () Γ p table := by
  rw [expectBoolean, if_neg]
  · exact .pure h
  · simp [TypeDenoter.compatible, TypeDenoter.equivalent]

/-- Types that are equivalent are not complained about. -/
theorem not_incompatible {a b : TypeDenoter} (h : a.equivalent b = true) :
    ¬ (!a.compatible b) = true := by
  simp [TypeDenoter.compatible_of_equivalent h]

mutual

theorem command_passes {s : Checker} {Γ : Env} {p p' : Supply}
    {table : List Binding} {node node' : Command} (h : s.Holds Γ p table) :
    Command.Typed Γ p node node' p' → (command node).Passes s node' Γ p' (table ++ node'.bindings)
  | .empty => by
    rw [Command.bindings, List.append_nil]
    exact .pure h
  | .assign htarget hvalue hvariable hequivalent => by
    rw [command, Command.bindings, ← List.append_assoc]
    refine .bind (vname_passes h htarget) fun s₁ h₁ => ?_
    refine .bind (expression_passes h₁ hvalue) fun s₂ h₂ => ?_
    refine .skip (by simp [hvariable]) ?_
    exact .skip (not_incompatible hequivalent) (.pure h₂)
  | .call hfind hargs => by
    rw [command, Command.bindings]
    refine .bind (.lookup? h _) fun s₁ h₁ => ?_
    rw [hfind]
    exact .bind (actuals_passes h₁ hargs) fun s₂ h₂ => .pure h₂
  | .sequence hfirst hsecond => by
    rw [command, Command.bindings, ← List.append_assoc]
    refine .bind (command_passes h hfirst) fun s₁ h₁ => ?_
    exact .bind (command_passes h₁ hsecond) fun s₂ h₂ => .pure h₂
  | .letIn hdeclared hbody => by
    rw [command, Command.bindings, ← List.append_assoc]
    refine .bind (.openScope h) fun s₁ h₁ => ?_
    refine .bind (declaration_passes h₁ hdeclared) fun s₂ h₂ => ?_
    refine .bind (command_passes h₂ hbody) fun s₃ h₃ => ?_
    refine .bind (.closeScope h₃) fun s₄ h₄ => ?_
    rw [hdeclared.close_eq] at h₄
    exact .pure h₄
  | .ifElse hcondition hthen helse => by
    rw [command, Command.bindings, ← List.append_assoc, ← List.append_assoc]
    refine .bind (expression_passes h hcondition) fun s₁ h₁ => ?_
    refine .bind (expectBoolean_passes h₁ _) fun s₂ h₂ => ?_
    refine .bind (command_passes h₂ hthen) fun s₃ h₃ => ?_
    exact .bind (command_passes h₃ helse) fun s₄ h₄ => .pure h₄
  | .whileDo hcondition hbody => by
    rw [command, Command.bindings, ← List.append_assoc]
    refine .bind (expression_passes h hcondition) fun s₁ h₁ => ?_
    refine .bind (expectBoolean_passes h₁ _) fun s₂ h₂ => ?_
    exact .bind (command_passes h₂ hbody) fun s₃ h₃ => .pure h₃
  | .repeatUntil hbody hcondition => by
    rw [command, Command.bindings, ← List.append_assoc]
    refine .bind (command_passes h hbody) fun s₁ h₁ => ?_
    refine .bind (expression_passes h₁ hcondition) fun s₂ h₂ => ?_
    exact .bind (expectBoolean_passes h₂ _) fun s₃ h₃ => .pure h₃
  | .loopWhile hbody hcondition htail => by
    rw [command, Command.bindings, ← List.append_assoc, ← List.append_assoc]
    refine .bind (command_passes h hbody) fun s₁ h₁ => ?_
    refine .bind (expression_passes h₁ hcondition) fun s₂ h₂ => ?_
    refine .bind (expectBoolean_passes h₂ _) fun s₃ h₃ => ?_
    exact .bind (command_passes h₃ htail) fun s₄ h₄ => .pure h₄

theorem expression_passes {s : Checker} {Γ : Env} {p p' : Supply}
    {table : List Binding} {node node' : Expression} {type : TypeDenoter} (h : s.Holds Γ p table) :
    Expression.Typed Γ p node node' type p' →
      (expression node).Passes s (node', type) Γ p' (table ++ node'.bindings)
  | .integer | .character => by
    rw [Expression.bindings, List.append_nil]
    exact .pure h
  | .vname hfound => by
    rw [expression, Expression.bindings]
    exact .bind (vname_passes h hfound) fun s₁ h₁ => .pure h₁
  | .call hfind hargs => by
    rw [expression, Expression.bindings]
    refine .bind (.lookup? h _) fun s₁ h₁ => ?_
    rw [hfind]
    exact .bind (actuals_passes h₁ hargs) fun s₂ h₂ => .pure h₂
  | .ifElse hcondition hthen helse hequivalent => by
    rw [expression, Expression.bindings, ← List.append_assoc, ← List.append_assoc]
    refine .bind (expression_passes h hcondition) fun s₁ h₁ => ?_
    refine .bind (expectBoolean_passes h₁ _) fun s₂ h₂ => ?_
    refine .bind (expression_passes h₂ hthen) fun s₃ h₃ => ?_
    refine .bind (expression_passes h₃ helse) fun s₄ h₄ => ?_
    refine .skip (not_incompatible hequivalent) ?_
    rw [TypeDenoter.isError_left_of_equivalent hequivalent]
    exact .pure h₄
  | .letIn hdeclared hbody => by
    rw [expression, Expression.bindings, ← List.append_assoc]
    refine .bind (.openScope h) fun s₁ h₁ => ?_
    refine .bind (declaration_passes h₁ hdeclared) fun s₂ h₂ => ?_
    refine .bind (expression_passes h₂ hbody) fun s₃ h₃ => ?_
    refine .bind (.closeScope h₃) fun s₄ h₄ => ?_
    rw [hdeclared.close_eq] at h₄
    exact .pure h₄
  | .unary hoperand hfind hequivalent => by
    rw [expression, Expression.bindings]
    refine .bind (expression_passes h hoperand) fun s₁ h₁ => ?_
    refine .bind (.lookup? h₁ _) fun s₂ h₂ => ?_
    rw [hfind]
    dsimp only
    rw [TypeDenoter.isError_right_of_equivalent hequivalent]
    refine .skip ?_ (.pure h₂)
    simp [TypeDenoter.compatible_of_equivalent hequivalent]
  | .binary hleft hright hfind hequivalent hequivalent' => by
    rw [expression, Expression.bindings, ← List.append_assoc]
    refine .bind (expression_passes h hleft) fun s₁ h₁ => ?_
    refine .bind (expression_passes h₁ hright) fun s₂ h₂ => ?_
    refine .bind (.lookup? h₂ _) fun s₃ h₃ => ?_
    rw [hfind]
    dsimp only
    rw [TypeDenoter.isError_right_of_equivalent hequivalent,
      TypeDenoter.isError_right_of_equivalent hequivalent',
      if_pos (show (!(false || false)) = true from rfl),
      TypeDenoter.isAny_left_of_equivalent hequivalent, if_neg Bool.false_ne_true]
    refine .skip ?_ (.pure h₃)
    simp [TypeDenoter.compatible_of_equivalent hequivalent,
      TypeDenoter.compatible_of_equivalent hequivalent']
  | .equality hleft hright hfind hequivalent => by
    rw [expression, Expression.bindings, ← List.append_assoc]
    refine .bind (expression_passes h hleft) fun s₁ h₁ => ?_
    refine .bind (expression_passes h₁ hright) fun s₂ h₂ => ?_
    refine .bind (.lookup? h₂ _) fun s₃ h₃ => ?_
    rw [hfind]
    dsimp only
    rw [TypeDenoter.isError_left_of_equivalent hequivalent,
      TypeDenoter.isError_right_of_equivalent hequivalent,
      if_pos (show (!(false || false)) = true from rfl),
      if_pos (show TypeDenoter.any.isAny = true from rfl)]
    exact .skip (not_incompatible hequivalent) (.pure h₃)
  | .array helements => by
    rw [expression, Expression.bindings]
    refine .bind (arrayAggregate_passes h helements) fun s₁ h₁ => ?_
    exact .bind (.newSerial h₁ _) fun s₂ h₂ => .pure h₂
  | .record hfields => by
    rw [expression, Expression.bindings]
    refine .bind (recordAggregate_passes h hfields) fun s₁ h₁ => ?_
    exact .bind (.newSerial h₁ _) fun s₂ h₂ => .pure h₂

theorem arrayAggregate_passes {s : Checker} {Γ : Env} {p p' : Supply} {table : List Binding}
    {node node' : ArrayAggregate} {type : TypeDenoter} (h : s.Holds Γ p table) :
    ArrayAggregate.Typed Γ p node node' type p' →
      (arrayAggregate node).Passes s (node', type) Γ p' (table ++ node'.bindings)
  | .one helement => by
    rw [arrayAggregate, ArrayAggregate.bindings]
    exact .bind (expression_passes h helement) fun s₁ h₁ => .pure h₁
  | .more helement hrest hequivalent => by
    rw [arrayAggregate, ArrayAggregate.bindings, ← List.append_assoc]
    refine .bind (expression_passes h helement) fun s₁ h₁ => ?_
    refine .bind (arrayAggregate_passes h₁ hrest) fun s₂ h₂ => ?_
    exact .skip (not_incompatible hequivalent) (.pure h₂)

theorem recordAggregate_passes {s : Checker} {Γ : Env} {p p' : Supply} {table : List Binding}
    {node node' : RecordAggregate} {types : Fields} (h : s.Holds Γ p table) :
    RecordAggregate.Typed Γ p node node' types p' →
      (recordAggregate node).Passes s (node', types) Γ p' (table ++ node'.bindings)
  | .one hvalue => by
    rw [recordAggregate, RecordAggregate.bindings]
    exact .bind (expression_passes h hvalue) fun s₁ h₁ => .pure h₁
  | .more hvalue hrest hnew => by
    rw [recordAggregate, RecordAggregate.bindings, ← List.append_assoc]
    refine .bind (expression_passes h hvalue) fun s₁ h₁ => ?_
    refine .bind (recordAggregate_passes h₁ hrest) fun s₂ h₂ => ?_
    exact .skip (by simp [hnew]) (.pure h₂)

theorem vname_passes {s : Checker} {Γ : Env} {p p' : Supply}
    {table : List Binding} {node node' : Vname} {type : TypeDenoter} (h : s.Holds Γ p table) :
    Vname.Typed Γ p node node' type p' →
      (vname node).Passes s (node', type) Γ p' (table ++ node'.bindings)
  | .const hfind | .var hfind => by
    rw [vname, Vname.bindings, List.append_nil]
    refine .bind (.lookup? h _) fun s₁ h₁ => ?_
    rw [hfind]
    exact .pure h₁
  | .dot hrecord hfind => by
    rw [vname, Vname.bindings]
    refine .bind (vname_passes h hrecord) fun s₁ h₁ => ?_
    dsimp only
    rw [hfind]
    exact .bind (.pure h₁) fun s₂ h₂ => .pure h₂
  | .subscript harray hindex => by
    rw [vname, Vname.bindings, ← List.append_assoc]
    refine .bind (vname_passes h harray) fun s₁ h₁ => ?_
    refine .bind (expression_passes h₁ hindex) fun s₂ h₂ => ?_
    refine .skip ?_ (.bind (.pure h₂) fun s₃ h₃ => .pure h₃)
    simp [TypeDenoter.compatible, TypeDenoter.equivalent]

theorem declaration_passes {s : Checker} {Γ Γ' : Env} {p p' : Supply} {table : List Binding}
    {node node' : Declaration} (h : s.Holds Γ p table) :
    Declaration.Typed Γ p node node' Γ' p' →
      (declaration node).Passes s node' Γ' p' (table ++ node'.bindings)
  | .const hvalue hnew => by
    rw [declaration, Declaration.bindings, hvalue.type_eq, Option.getD_some, ← List.append_assoc]
    refine .bind (expression_passes h hvalue) fun s₁ h₁ => ?_
    exact .bind (.declare h₁ hnew _ _) fun s₂ h₂ => .pure h₂
  | .var htype hnew | .type htype hnew => by
    rw [declaration, Declaration.bindings]
    refine .bind (typeDenoter_passes h htype) fun s₁ h₁ => ?_
    exact .bind (.declare h₁ hnew _ _) fun s₂ h₂ => .pure h₂
  | .proc hnew hparameters hbody => by
    rw [declaration, Declaration.bindings, hparameters.shapes_eq]
    -- the parameters are checked before the procedure has its signature
    obtain ⟨hparameters', hrebind⟩ := hparameters.rebind_routine h.below (.proc []) nofun
    refine .bind (.declare h hnew _ _) fun s₁ h₁ => ?_
    refine .bind (.openScope h₁) fun s₂ h₂ => ?_
    refine .bind (formals_passes h₂ hparameters') fun s₃ h₃ => ?_
    rw [List.append_assoc, List.singleton_append] at h₃
    refine .bind (.rebind h₃ h.length_eq) fun s₄ h₄ => ?_
    rw [hrebind] at h₄
    refine .bind (command_passes h₄ hbody) fun s₅ h₅ => ?_
    refine .bind (.closeScope h₅) fun s₆ h₆ => ?_
    rw [hparameters.close_eq, List.append_assoc, List.cons_append] at h₆
    exact .pure h₆
  | .func hresult hnew hparameters hbody hequivalent => by
    rw [declaration, Declaration.bindings, hparameters.shapes_eq]
    refine .bind (typeDenoter_passes h hresult) fun s₁ h₁ => ?_
    obtain ⟨hparameters', hrebind⟩ := hparameters.rebind_routine h₁.below (.func [] _) nofun
    refine .bind (.declare h₁ hnew _ _) fun s₂ h₂ => ?_
    refine .bind (.openScope h₂) fun s₃ h₃ => ?_
    refine .bind (formals_passes h₃ hparameters') fun s₄ h₄ => ?_
    rw [List.append_assoc, List.singleton_append] at h₄
    refine .bind (.rebind h₄ h₁.length_eq) fun s₅ h₅ => ?_
    rw [hrebind] at h₅
    refine .bind (expression_passes h₅ hbody) fun s₆ h₆ => ?_
    refine .bind (.closeScope h₆) fun s₇ h₇ => ?_
    rw [hparameters.close_eq, List.append_assoc, List.cons_append] at h₇
    exact .skip (not_incompatible hequivalent) (.pure h₇)
  | .sequence hfirst hsecond => by
    rw [declaration, Declaration.bindings, ← List.append_assoc]
    refine .bind (declaration_passes h hfirst) fun s₁ h₁ => ?_
    exact .bind (declaration_passes h₁ hsecond) fun s₂ h₂ => .pure h₂

theorem actuals_passes {s : Checker} {Γ : Env} {p p' : Supply}
    {table : List Binding} {node node' : Actuals} {shapes : Signature} (h : s.Holds Γ p table) :
    Actuals.Typed Γ p node shapes node' p' →
      (actuals node shapes).Passes s node' Γ p' (table ++ node'.bindings)
  | .empty => by
    rw [actuals, Actuals.bindings, List.append_nil]
    exact .skip (by simp) (.pure h)
  | .one hfirst => by
    rw [actuals, Actuals.bindings]
    exact .bind (actual_passes h hfirst) fun s₁ h₁ => .pure h₁
  | .more hfirst hrest => by
    rw [actuals, Actuals.bindings, ← List.append_assoc]
    refine .bind (actual_passes h hfirst) fun s₁ h₁ => ?_
    exact .bind (actuals_passes h₁ hrest) fun s₂ h₂ => .pure h₂

theorem actual_passes {s : Checker} {Γ : Env} {p p' : Supply}
    {table : List Binding} {node node' : Actual} {shape : FormalShape} (h : s.Holds Γ p table) :
    Actual.Typed Γ p node shape node' p' →
      (actual node shape).Passes s node' Γ p' (table ++ node'.bindings)
  | .const hvalue hequivalent => by
    rw [actual, Actual.bindings]
    refine .bind (expression_passes h hvalue) fun s₁ h₁ => ?_
    exact .skip (not_incompatible hequivalent) (.pure h₁)
  | .var hfound hvariable hequivalent => by
    rw [actual, Actual.bindings]
    refine .bind (vname_passes h hfound) fun s₁ h₁ => ?_
    refine .skip (by simp [hvariable]) ?_
    exact .skip (not_incompatible hequivalent) (.pure h₁)
  | .proc hfind hequivalent => by
    rw [actual, Actual.bindings, List.append_nil]
    refine .bind (.lookup? h _) fun s₁ h₁ => ?_
    rw [hfind]
    exact .skip (by simp [hequivalent]) (.pure h₁)
  | .func hfind hequivalent hresult => by
    rw [actual, Actual.bindings, List.append_nil]
    refine .bind (.lookup? h _) fun s₁ h₁ => ?_
    rw [hfind]
    dsimp only
    rw [if_neg (by simp [hequivalent])]
    exact .skip (by simp [hresult]) (.pure h₁)

end

end Check

end TriangleTam
