import TriangleTam.Proofs.Recast.Bindings

/-! # Checking recast trees

  Two checkers are **twins** if the second has what the first has, recast:
  its scopes, its bindings and its reports. Whatever is wrong with a tree,
  checking it and checking the tree recast goes through the same steps. Each
  name is found in the one where it is found in the other, and stands for the
  same binding. So twins stay twins, and what one returns is what the other
  returns, recast.
-/

namespace TriangleTam

/-! ## Scopes -/

def Scope.recast (f : Recast) (scope : Scope) : Scope :=
  scope.map fun entry => (f.spelling entry.1, entry.2)

namespace Scopes

def recast (f : Recast) (scopes : Scopes) : Scopes :=
  ⟨Scope.recast f scopes.innermost, scopes.outer.map (Scope.recast f)⟩

variable (f : Recast) (scopes : Scopes)

theorem enclose_recast : scopes.enclose.recast f = (scopes.recast f).enclose := rfl

theorem enter_recast (name : String) (id : BindingId) :
    (scopes.enter name id).recast f = (scopes.recast f).enter (f.spelling name) id := rfl

theorem close_recast : scopes.close.recast f = (scopes.recast f).close := by
  obtain ⟨innermost, outer⟩ := scopes
  cases outer <;> rfl

theorem lookup_recast (scope : Scope) (name : String) :
    (Scope.recast f scope).lookup (f.spelling name) = scope.lookup name := by
  induction scope with
  | nil => rfl
  | cons entry others ih =>
    obtain ⟨name', id⟩ := entry
    simp only [Scope.recast, List.map_cons, List.lookup_cons, f.spelling_beq]
    cases name == name' with
    | true => rfl
    | false => exact ih

theorem declares_recast (name : String) :
    (scopes.recast f).declares (f.spelling name) = scopes.declares name := by
  simp only [declares, recast, lookup_recast]

theorem find?_recast (name : String) :
    (scopes.recast f).find? (f.spelling name) = scopes.find? name := by
  have h (all : List Scope) :
      (all.map (Scope.recast f)).findSome? (fun scope => scope.lookup (f.spelling name)) =
        all.findSome? fun scope => scope.lookup name := by
    induction all with
    | nil => rfl
    | cons scope others ih => simp only [List.map_cons, List.findSome?_cons, lookup_recast, ih]
  exact h (scopes.innermost :: scopes.outer)

end Scopes

/-- Serials stay as they are. -/
def Recast.KeepsSerials (f : Recast) : Prop := ∀ serial, f.serial serial = serial

/-! ## Checkers -/

def Diagnostic.recast (f : Recast) (d : Diagnostic) : Diagnostic :=
  { d with token := f.spelling d.token, span := f.span d.span }

/-- The second checker has what the first has, recast. -/
structure Checker.Twin (f : Recast) (s s' : Checker) : Prop where
  scopes      : s'.scopes = s.scopes.recast f
  bindings    : s'.bindings = s.bindings.map (Binding.recast f)
  diagnostics : s'.journal.diagnostics = s.journal.diagnostics.map (Diagnostic.recast f)
  serials     : s'.serials = s.serials

namespace Check

/-- From twins on, the second step returns what the first returns, recast by `g`, and leaves
    twins. -/
def Recasts {α : Type} (f : Recast) (g : α → α) (m m' : Check α) : Prop :=
  ∀ s s', Checker.Twin f s s' →
    (m'.exec s').1 = g (m.exec s).1 ∧ Checker.Twin f (m.exec s).2 (m'.exec s').2

namespace Recasts

variable {α β γ : Type} {f : Recast} {g : α → α} {h : β → β} {j : γ → γ}

theorem pure {a a' : α} (ha : a' = g a) : Recasts f g (pure a) (pure a') :=
  fun _ _ htwin => ⟨ha, htwin⟩

theorem bind {m m' : Check α} {k k' : α → Check β} (hm : Recasts f g m m')
    (hk : ∀ a, Recasts f h (k a) (k' (g a))) : Recasts f h (m >>= k) (m' >>= k') := by
  intro s s' htwin
  obtain ⟨hresult, htwin₁⟩ := hm s s' htwin
  rw [exec_bind, exec_bind, hresult]
  exact hk _ _ _ htwin₁

/-- The same for steps that return two things. -/
theorem pair {m m' : Check (α × γ)} {k k' : α × γ → Check β}
    (hm : Recasts f (Prod.map g j) m m')
    (hk : ∀ a c, Recasts f h (k (a, c)) (k' (g a, j c))) : Recasts f h (m >>= k) (m' >>= k') :=
  hm.bind fun both => hk both.1 both.2

/-- What is done in both depends on the same. -/
theorem either {c c' : Prop} [Decidable c] [Decidable c'] (hc : c' ↔ c) {m m' k k' : Check α}
    (hm : Recasts f g m m') (hk : Recasts f g k k') :
    Recasts f g (if c then m else k) (if c' then m' else k') := by
  by_cases hholds : c
  · rw [if_pos hholds, if_pos (hc.2 hholds)]
    exact hm
  · rw [if_neg hholds, if_neg fun hholds' => hholds (hc.1 hholds')]
    exact hk

/-- A report is made in both where its condition holds in both. -/
theorem branch {c c' : Prop} [Decidable c] [Decidable c'] (hc : c' ↔ c) {m m' : Check PUnit}
    {k k' : PUnit → Check β} (hm : Recasts f id m m') (hk : Recasts f h (k ⟨⟩) (k' ⟨⟩)) :
    Recasts f h (if c then m >>= k else k ⟨⟩) (if c' then m' >>= k' else k' ⟨⟩) :=
  .either hc (hm.bind fun _ => hk) hk

/-! ### Steps -/

theorem report (cause : SemanticCause) {token token' : String} {span span' : Span}
    (htoken : token' = f.spelling token) (hspan : span' = f.span span) :
    Recasts f id (Check.report cause token span) (Check.report cause token' span') := by
  intro s s' htwin
  refine ⟨rfl, htwin.scopes, htwin.bindings, ?_, htwin.serials⟩
  show s'.journal.diagnostics.push _ = (s.journal.diagnostics.push _).map _
  rw [Array.map_push, htwin.diagnostics, htoken, hspan]
  rfl

theorem reject (cause : SemanticCause) (name : Name) :
    Recasts f id (Check.reject cause name) (Check.reject cause (name.recast f)) :=
  report cause rfl rfl

theorem openScope : Recasts f id Check.openScope Check.openScope := by
  intro s s' htwin
  refine ⟨rfl, ?_, htwin.bindings, htwin.diagnostics, htwin.serials⟩
  show s'.scopes.enclose = s.scopes.enclose.recast f
  rw [htwin.scopes, Scopes.enclose_recast]

theorem closeScope : Recasts f id Check.closeScope Check.closeScope := by
  intro s s' htwin
  refine ⟨rfl, ?_, htwin.bindings, htwin.diagnostics, htwin.serials⟩
  show s'.scopes.close = s.scopes.close.recast f
  rw [htwin.scopes, Scopes.close_recast]

theorem newSerial : Recasts f id Check.newSerial Check.newSerial := by
  intro s s' htwin
  exact ⟨htwin.serials, htwin.scopes, htwin.bindings, htwin.diagnostics,
    congrArg (· + 1) htwin.serials⟩

theorem lookup? (name : String) :
    Recasts f (Option.map fun found => (found.1, found.2.recast f)) (Check.lookup? name)
      (Check.lookup? (f.spelling name)) := by
  intro s s' htwin
  refine ⟨?_, htwin⟩
  show (do
      let id ← s'.scopes.find? (f.spelling name)
      let binding ← s'.bindings[id]?
      return (id, binding.kind)) =
    Option.map _ (do
      let id ← s.scopes.find? name
      let binding ← s.bindings[id]?
      return (id, binding.kind))
  rw [htwin.scopes, Scopes.find?_recast, htwin.bindings]
  cases s.scopes.find? name with
  | none => rfl
  | some id =>
    simp only [Option.bind_eq_bind, Option.bind_some, Array.getElem?_map]
    cases s.bindings[id]? <;> rfl

theorem bindName (name : Name) (kind : BindingKind) :
    Recasts f id (Check.bind name kind) (Check.bind (name.recast f) (kind.recast f)) := by
  intro s s' htwin
  have hsize : s'.bindings.size = s.bindings.size := by rw [htwin.bindings, Array.size_map]
  refine ⟨?_, ?_, ?_, htwin.diagnostics, htwin.serials⟩
  · show (s'.bindings.size, s'.scopes.declares (f.spelling name.spelling)) =
      (s.bindings.size, s.scopes.declares name.spelling)
    rw [hsize, htwin.scopes, Scopes.declares_recast]
  · show s'.scopes.enter (f.spelling name.spelling) s'.bindings.size =
      (s.scopes.enter name.spelling s.bindings.size).recast f
    rw [hsize, htwin.scopes, Scopes.enter_recast]
  · show s'.bindings.push _ = (s.bindings.push _).map _
    rw [Array.map_push, htwin.bindings]
    rfl

theorem declare (cause : SemanticCause) (name : Name) (kind : BindingKind) :
    Recasts f (Prod.map (Name.recast f) id) (Check.declare cause name kind)
      (Check.declare cause (name.recast f) (kind.recast f)) := by
  refine (bindName name kind).bind fun result => ?_
  obtain ⟨id, duplicated⟩ := result
  exact .branch Iff.rfl (.reject cause name) (.pure rfl)

theorem rebind (id : BindingId) (kind : BindingKind) :
    Recasts f (fun result => result) (Check.rebind id kind)
      (Check.rebind id (kind.recast f)) := by
  intro s s' htwin
  refine ⟨rfl, htwin.scopes, ?_, htwin.diagnostics, htwin.serials⟩
  show s'.bindings.update id (kind.recast f) = (s.bindings.update id kind).map (Binding.recast f)
  refine Array.ext_getElem? fun i => ?_
  rw [htwin.bindings]
  simp only [Bindings.update, Array.getElem?_modify, Array.getElem?_map]
  by_cases hid : id = i
  · cases s.bindings[i]? <;> simp [hid, Binding.recast]
  · simp [hid]

theorem expectBoolean (type : TypeDenoter) {span span' : Span} (hspan : span' = f.span span) :
    Recasts f id (Check.expectBoolean type span) (Check.expectBoolean (type.recast f) span') := by
  have hsame : (type.recast f).compatible .boolean = type.compatible .boolean :=
    TypeDenoter.compatible_recast f type .boolean
  unfold Check.expectBoolean
  rw [hsame]
  split
  · exact .report _ f.empty.symm hspan
  · exact .pure rfl

end Recasts

variable {f : Recast}

/-! ## Type denoters -/

mutual

theorem typeDenoter_recasts (hserial : f.KeepsSerials) : ∀ type : TypeDenoter,
    Recasts f (TypeDenoter.recast f) (typeDenoter type) (typeDenoter (type.recast f))
  | .named _ name => by
    rw [TypeDenoter.recast, typeDenoter, typeDenoter]
    refine .bind (.lookup? name.spelling) fun found => ?_
    cases found with
    | none => exact .bind (.reject .undeclared name) fun _ => .pure rfl
    | some found =>
      obtain ⟨id, kind⟩ := found
      cases kind with
      | type type => exact .pure rfl
      | _ => exact .bind (.reject .notType name) fun _ => .pure rfl
  | .array serial span length element => by
    rw [TypeDenoter.recast, typeDenoter, typeDenoter]
    refine .branch Iff.rfl (.report .emptyArray f.empty.symm rfl) ?_
    refine .bind (typeDenoter_recasts hserial element) fun element => ?_
    refine .bind .newSerial fun serial => ?_
    exact .pure (by simp [TypeDenoter.recast, hserial serial])
  | .record serial span fields => by
    rw [TypeDenoter.recast, typeDenoter, typeDenoter]
    refine .bind (fieldTypes_recasts hserial fields) fun fields => .bind .newSerial fun serial => ?_
    exact .pure (by simp [TypeDenoter.recast, hserial serial])
  | .boolean | .character | .integer | .any | .error => .pure rfl

theorem fieldTypes_recasts (hserial : f.KeepsSerials) : ∀ fields : Fields,
    Recasts f (Fields.recast f) (fieldTypes fields) (fieldTypes (fields.recast f))
  | .one span name type => by
    rw [Fields.recast, fieldTypes, fieldTypes]
    exact .bind (typeDenoter_recasts hserial type) fun type => .pure rfl
  | .more span name type rest => by
    rw [Fields.recast, fieldTypes, fieldTypes]
    refine .bind (typeDenoter_recasts hserial type) fun type => ?_
    exact .bind (fieldTypes_recasts hserial rest) fun rest => .pure rfl

end

/-! ## Formal parameters -/

mutual

theorem formal_recasts (hserial : f.KeepsSerials) : ∀ parameter : Formal,
    Recasts f (Prod.map (Formal.recast f) (FormalShape.recast f)) (formal parameter)
      (formal (parameter.recast f))
  | .const span _ name type => by
    rw [Formal.recast, formal, formal]
    refine .bind (typeDenoter_recasts hserial type) fun type => ?_
    exact .pair (.declare .duplicatedFormal name (.const type)) fun name _ => .pure rfl
  | .var span _ name type => by
    rw [Formal.recast, formal, formal]
    refine .bind (typeDenoter_recasts hserial type) fun type => ?_
    exact .pair (.declare .duplicatedFormal name (.var type)) fun name _ => .pure rfl
  | .proc span _ name inner => by
    rw [Formal.recast, formal, formal]
    refine .bind .openScope fun _ => .pair (formals_recasts hserial inner) fun inner shapes => ?_
    refine .bind .closeScope fun _ => ?_
    exact .pair (.declare .duplicatedFormal name (.proc shapes)) fun name _ => .pure rfl
  | .func span _ name inner result => by
    rw [Formal.recast, formal, formal]
    refine .bind (typeDenoter_recasts hserial result) fun result => ?_
    refine .bind .openScope fun _ => .pair (formals_recasts hserial inner) fun inner shapes => ?_
    refine .bind .closeScope fun _ => ?_
    exact .pair (.declare .duplicatedFormal name (.func shapes result)) fun name _ => .pure rfl

theorem formals_recasts (hserial : f.KeepsSerials) : ∀ parameters : Formals,
    Recasts f (Prod.map (Formals.recast f) (Signature.recast f)) (formals parameters)
      (formals (parameters.recast f))
  | .empty span => .pure rfl
  | .one span first => by
    rw [Formals.recast, formals, formals]
    exact .pair (formal_recasts hserial first) fun first shape => .pure rfl
  | .more span first rest => by
    rw [Formals.recast, formals, formals]
    refine .pair (formal_recasts hserial first) fun first shape => ?_
    exact .pair (formals_recasts hserial rest) fun rest shapes => .pure rfl

end

/-! ## Commands, expressions and declarations -/

mutual

theorem command_recasts (hserial : f.KeepsSerials) : ∀ node : Command,
    Recasts f (Command.recast f) (command node) (command (node.recast f))
  | .empty span => .pure rfl
  | .assign span target value => by
    rw [Command.recast, command, command]
    refine .pair (vname_recasts hserial target) fun target targetType => ?_
    refine .pair (expression_recasts hserial value) fun value valueType => ?_
    refine .branch (by simp) (.report .targetNotVariable f.empty.symm (by simp)) ?_
    refine .branch (by simp) (.report .assignmentIncompatible f.empty.symm rfl) ?_
    exact .pure rfl
  | .call span callee args => by
    rw [Command.recast, command, command]
    refine .bind (.lookup? callee.spelling) fun found => ?_
    cases found with
    | none => exact .bind (.reject .undeclared callee) fun _ => .pure rfl
    | some found =>
      obtain ⟨id, kind⟩ := found
      cases kind with
      | proc shapes => exact .bind (actuals_recasts hserial args shapes) fun args => .pure rfl
      | _ => exact .bind (.reject .notProcedure callee) fun _ => .pure rfl
  | .sequence span first second => by
    rw [Command.recast, command, command]
    refine .bind (command_recasts hserial first) fun first => ?_
    exact .bind (command_recasts hserial second) fun second => .pure rfl
  | .letIn span declared body => by
    rw [Command.recast, command, command]
    refine .bind .openScope fun _ => .bind (declaration_recasts hserial declared) fun declared => ?_
    refine .bind (command_recasts hserial body) fun body => ?_
    exact .bind .closeScope fun _ => .pure rfl
  | .ifElse span condition thenBranch elseBranch => by
    rw [Command.recast, command, command]
    refine .pair (expression_recasts hserial condition) fun condition type => ?_
    refine .bind (.expectBoolean type (by simp)) fun _ => ?_
    refine .bind (command_recasts hserial thenBranch) fun thenBranch => ?_
    exact .bind (command_recasts hserial elseBranch) fun elseBranch => .pure rfl
  | .whileDo span condition body => by
    rw [Command.recast, command, command]
    refine .pair (expression_recasts hserial condition) fun condition type => ?_
    refine .bind (.expectBoolean type (by simp)) fun _ => ?_
    exact .bind (command_recasts hserial body) fun body => .pure rfl
  | .repeatUntil span body condition => by
    rw [Command.recast, command, command]
    refine .bind (command_recasts hserial body) fun body => ?_
    refine .pair (expression_recasts hserial condition) fun condition type => ?_
    exact .bind (.expectBoolean type (by simp)) fun _ => .pure rfl
  | .loopWhile span body condition tail => by
    rw [Command.recast, command, command]
    refine .bind (command_recasts hserial body) fun body => ?_
    refine .pair (expression_recasts hserial condition) fun condition type => ?_
    refine .bind (.expectBoolean type (by simp)) fun _ => ?_
    exact .bind (command_recasts hserial tail) fun tail => .pure rfl

theorem expression_recasts (hserial : f.KeepsSerials) : ∀ node : Expression,
    Recasts f (Prod.map (Expression.recast f) (TypeDenoter.recast f)) (expression node)
      (expression (node.recast f))
  | .integer span _ literal => .pure rfl
  | .character span _ literal => .pure rfl
  | .vname span _ found => by
    rw [Expression.recast, expression, expression]
    exact .pair (vname_recasts hserial found) fun found type => .pure rfl
  | .call span _ callee args => by
    rw [Expression.recast, expression, expression]
    refine .bind (.lookup? callee.spelling) fun found => ?_
    cases found with
    | none => exact .bind (.reject .undeclared callee) fun _ => .pure rfl
    | some found =>
      obtain ⟨id, kind⟩ := found
      cases kind with
      | func shapes result =>
        exact .bind (actuals_recasts hserial args shapes) fun args => .pure rfl
      | _ => exact .bind (.reject .notFunction callee) fun _ => .pure rfl
  | .ifElse span _ condition thenBranch elseBranch => by
    rw [Expression.recast, expression, expression]
    refine .pair (expression_recasts hserial condition) fun condition type => ?_
    refine .bind (.expectBoolean type (by simp)) fun _ => ?_
    refine .pair (expression_recasts hserial thenBranch) fun thenBranch thenType => ?_
    refine .pair (expression_recasts hserial elseBranch) fun elseBranch elseType => ?_
    refine .branch (by simp) (.report .incompatibleLimbs f.empty.symm rfl) (.pure ?_)
    -- the type of the choice is one of the two types, which are recast alike
    rw [TypeDenoter.isError_recast]
    split <;> rfl
  | .letIn span _ declared body => by
    rw [Expression.recast, expression, expression]
    refine .bind .openScope fun _ => .bind (declaration_recasts hserial declared) fun declared => ?_
    refine .pair (expression_recasts hserial body) fun body type => ?_
    exact .bind .closeScope fun _ => .pure rfl
  | .unary span _ operator operand => by
    rw [Expression.recast, expression, expression]
    refine .pair (expression_recasts hserial operand) fun operand operandType => ?_
    refine .bind (.lookup? operator.spelling) fun found => ?_
    cases found with
    | none => exact .bind (.reject .undeclared operator) fun _ => .pure rfl
    | some found =>
      obtain ⟨id, kind⟩ := found
      cases kind with
      | unary expected result =>
        refine .branch (by simp) (.reject .wrongOperand operator) (.pure ?_)
        rw [TypeDenoter.isError_recast]
        split <;> rfl
      | _ => exact .bind (.reject .notUnaryOperator operator) fun _ => .pure rfl
  | .binary span _ left operator right => by
    rw [Expression.recast, expression, expression]
    refine .pair (expression_recasts hserial left) fun left leftType => ?_
    refine .pair (expression_recasts hserial right) fun right rightType => ?_
    refine .bind (.lookup? operator.spelling) fun found => ?_
    cases found with
    | none => exact .bind (.reject .undeclared operator) fun _ => .pure rfl
    | some found =>
      obtain ⟨id, kind⟩ := found
      cases kind with
      | binary expectedLeft expectedRight result =>
        -- whatever type the operation gets, the decorations correspond
        have hdone (type : TypeDenoter) :
            Recasts f (Prod.map (Expression.recast f) (TypeDenoter.recast f))
              (pure (.binary span (some type) left { operator with binding := some id } right,
                type))
              (pure (.binary (f.span span) (some (type.recast f)) (left.recast f)
                { operator.recast f with binding := some id } (right.recast f),
                type.recast f)) :=
          .pure rfl
        -- both checkers take the same branches, since recasting keeps `any` and `error`
        dsimp only [BindingKind.recast, Option.map_some]
        simp only [TypeDenoter.isError_recast, TypeDenoter.isAny_recast]
        cases leftType.isError || rightType.isError with
        | true => exact hdone .error
        | false =>
          rw [if_pos (show (!false) = true from rfl), if_pos (show (!false) = true from rfl)]
          refine .either Iff.rfl ?_ ?_
          · exact .branch (by simp) (.reject .incompatibleOperands operator) (hdone result)
          · exact .branch (by simp) (.reject .wrongOperand operator) (hdone result)
      | _ => exact .bind (.reject .notBinaryOperator operator) fun _ => .pure rfl
  | .array span _ elements => by
    rw [Expression.recast, expression, expression]
    refine .pair (arrayAggregate_recasts hserial elements) fun elements' element => ?_
    refine .bind .newSerial fun serial => .pure ?_
    -- the type of the aggregate has a new serial, which recasting keeps
    simp [Expression.recast, TypeDenoter.recast, IntegerLiteral.recast, hserial serial]
  | .record span _ fields => by
    rw [Expression.recast, expression, expression]
    refine .pair (recordAggregate_recasts hserial fields) fun fields types => ?_
    refine .bind .newSerial fun serial => .pure ?_
    simp [Expression.recast, TypeDenoter.recast, hserial serial]

theorem arrayAggregate_recasts (hserial : f.KeepsSerials) : ∀ node : ArrayAggregate,
    Recasts f (Prod.map (ArrayAggregate.recast f) (TypeDenoter.recast f)) (arrayAggregate node)
      (arrayAggregate (node.recast f))
  | .one span element => by
    rw [ArrayAggregate.recast, arrayAggregate, arrayAggregate]
    exact .pair (expression_recasts hserial element) fun element type => .pure rfl
  | .more span element rest => by
    rw [ArrayAggregate.recast, arrayAggregate, arrayAggregate]
    refine .pair (expression_recasts hserial element) fun element type => ?_
    refine .pair (arrayAggregate_recasts hserial rest) fun rest restType => ?_
    refine .branch (by simp) (.report .incompatibleElement f.empty.symm (by simp)) ?_
    exact .pure rfl

theorem recordAggregate_recasts (hserial : f.KeepsSerials) : ∀ node : RecordAggregate,
    Recasts f (Prod.map (RecordAggregate.recast f) (Fields.recast f)) (recordAggregate node)
      (recordAggregate (node.recast f))
  | .one span field value => by
    rw [RecordAggregate.recast, recordAggregate, recordAggregate]
    exact .pair (expression_recasts hserial value) fun value type => .pure rfl
  | .more span field value rest => by
    rw [RecordAggregate.recast, recordAggregate, recordAggregate]
    refine .pair (expression_recasts hserial value) fun value type => ?_
    refine .pair (recordAggregate_recasts hserial rest) fun rest types => ?_
    exact .branch (by simp) (.reject .duplicateField field) (.pure rfl)

theorem vname_recasts (hserial : f.KeepsSerials) : ∀ node : Vname,
    Recasts f (Prod.map (Vname.recast f) (TypeDenoter.recast f)) (vname node)
      (vname (node.recast f))
  | .simple span _ _ name => by
    rw [Vname.recast, vname, vname]
    refine .bind (.lookup? name.spelling) fun found => ?_
    cases found with
    | none => exact .bind (.reject .undeclared name) fun _ => .pure rfl
    | some found =>
      obtain ⟨id, kind⟩ := found
      cases kind with
      | const | var => exact .pure rfl
      | _ => exact .bind (.reject .notConstOrVar name) fun _ => .pure rfl
  | .dot span _ _ record field => by
    rw [Vname.recast, vname, vname]
    refine .pair (vname_recasts hserial record) fun record recordType => ?_
    -- whatever type the field has, the decorations correspond
    have hdone (type : TypeDenoter) : Recasts f (Prod.map (Vname.recast f) (TypeDenoter.recast f))
        (pure (.dot span (some type) record.isVariable record field, type))
        (pure (.dot (f.span span) (some (type.recast f)) (record.recast f).isVariable
          (record.recast f) (field.recast f), type.recast f)) :=
      .pure (by simp [Vname.recast])
    cases recordType with
    | error => exact hdone .error
    | record serial span' fields =>
      dsimp only [TypeDenoter.recast]
      -- recasting changes no spelling, so the same field is found
      rw [Name.spelling_recast, Fields.find?_recast]
      cases fields.find? field.spelling with
      | none => exact .bind (.reject .noSuchField field) fun _ => hdone .error
      | some type => exact hdone type
    | _ =>
      exact .bind (.report .recordExpected f.empty.symm (by simp)) fun _ => hdone .error
  | .subscript span _ _ array index => by
    rw [Vname.recast, vname, vname]
    refine .pair (vname_recasts hserial array) fun array arrayType => ?_
    refine .pair (expression_recasts hserial index) fun index indexType => ?_
    -- whatever type the element has, the decorations correspond
    have hdone (type : TypeDenoter) : Recasts f (Prod.map (Vname.recast f) (TypeDenoter.recast f))
        (pure (.subscript span (some type) array.isVariable array index, type))
        (pure (.subscript (f.span span) (some (type.recast f)) (array.recast f).isVariable
          (array.recast f) (index.recast f), type.recast f)) :=
      .pure (by simp [Vname.recast])
    cases arrayType with
    | error => exact hdone .error
    | array serial span' length element =>
      have hsame : (indexType.recast f).compatible .integer = indexType.compatible .integer :=
        TypeDenoter.compatible_recast f indexType .integer
      refine .branch (by rw [hsame]) (.report .integerExpected f.empty.symm (by simp)) ?_
      exact hdone element
    | _ => exact .bind (.report .arrayExpected f.empty.symm (by simp)) fun _ => hdone .error

theorem declaration_recasts (hserial : f.KeepsSerials) : ∀ node : Declaration,
    Recasts f (Declaration.recast f) (declaration node) (declaration (node.recast f))
  | .const span _ name value => by
    rw [Declaration.recast, declaration, declaration]
    refine .pair (expression_recasts hserial value) fun value type => ?_
    exact .pair (.declare .alreadyDeclared name (.const type)) fun name _ => .pure rfl
  | .var span _ name type => by
    rw [Declaration.recast, declaration, declaration]
    refine .bind (typeDenoter_recasts hserial type) fun type => ?_
    exact .pair (.declare .alreadyDeclared name (.var type)) fun name _ => .pure rfl
  | .proc span _ name parameters body => by
    rw [Declaration.recast, declaration, declaration]
    refine .pair (.declare .alreadyDeclared name (.proc [])) fun name (id, duplicated) => ?_
    refine .bind .openScope fun _ => ?_
    refine .pair (formals_recasts hserial parameters) fun parameters shapes => ?_
    refine .bind (.rebind id (.proc shapes)) fun _ => ?_
    refine .bind (command_recasts hserial body) fun body => ?_
    exact .bind .closeScope fun _ => .pure rfl
  | .func span _ name parameters result body => by
    rw [Declaration.recast, declaration, declaration]
    refine .bind (typeDenoter_recasts hserial result) fun result => ?_
    refine .pair (.declare .alreadyDeclared name (.func [] result)) fun name (id, duplicated) => ?_
    refine .bind .openScope fun _ => ?_
    refine .pair (formals_recasts hserial parameters) fun parameters shapes => ?_
    refine .bind (.rebind id (.func shapes result)) fun _ => ?_
    refine .pair (expression_recasts hserial body) fun body bodyType => ?_
    refine .bind .closeScope fun _ => ?_
    exact .branch (by simp) (.report .wrongBody rfl (by simp)) (.pure rfl)
  | .type span _ name type => by
    rw [Declaration.recast, declaration, declaration]
    refine .bind (typeDenoter_recasts hserial type) fun type => ?_
    exact .pair (.declare .alreadyDeclared name (.type type)) fun name _ => .pure rfl
  | .sequence span first second => by
    rw [Declaration.recast, declaration, declaration]
    refine .bind (declaration_recasts hserial first) fun first => ?_
    exact .bind (declaration_recasts hserial second) fun second => .pure rfl

theorem actuals_recasts (hserial : f.KeepsSerials) : ∀ (node : Actuals) (shapes : Signature),
    Recasts f (Actuals.recast f) (actuals node shapes)
      (actuals (node.recast f) (Signature.recast f shapes))
  | .empty span, shapes => by
    rw [Actuals.recast, actuals, actuals]
    refine .branch ?_ (.report .tooFewActuals f.empty.symm rfl) (.pure rfl)
    cases shapes <;> rfl
  | .one span first, [] => by
    exact .bind (.report .wrongNumberOfActuals f.empty.symm rfl) fun _ => .pure rfl
  | .one span first, [shape] => by
    exact .bind (actual_recasts hserial first shape) fun first => .pure rfl
  | .one span first, shape :: next :: others => by
    exact .bind (.report .wrongNumberOfActuals f.empty.symm rfl) fun _ => .pure rfl
  | .more span first rest, [] => by
    exact .bind (.report .tooManyActuals f.empty.symm rfl) fun _ => .pure rfl
  | .more span first rest, [shape] => by
    exact .bind (.report .tooManyActuals f.empty.symm rfl) fun _ => .pure rfl
  | .more span first rest, shape :: next :: others => by
    refine .bind (actual_recasts hserial first shape) fun first => ?_
    exact .bind (actuals_recasts hserial rest (next :: others)) fun rest => .pure rfl

theorem actual_recasts (hserial : f.KeepsSerials) : ∀ (node : Actual) (shape : FormalShape),
    Recasts f (Actual.recast f) (actual node shape) (actual (node.recast f) (shape.recast f))
  | .const span value, shape => by
    rw [Actual.recast, actual, actual]
    refine .pair (expression_recasts hserial value) fun value type => ?_
    cases shape with
    | const expected =>
      exact .branch (by simp) (.report .constWrongType f.empty.symm rfl) (.pure rfl)
    | _ => exact .bind (.report .constUnexpected f.empty.symm rfl) fun _ => .pure rfl
  | .var span found, shape => by
    rw [Actual.recast, actual, actual]
    refine .pair (vname_recasts hserial found) fun found type => ?_
    refine .branch (by simp) (.report .actualNotVariable f.empty.symm (by simp)) ?_
    cases shape with
    | var expected =>
      exact .branch (by simp) (.report .varWrongType f.empty.symm rfl) (.pure rfl)
    | _ => exact .bind (.report .varUnexpected f.empty.symm rfl) fun _ => .pure rfl
  | .proc span name, shape => by
    rw [Actual.recast, actual, actual]
    refine .bind (.lookup? name.spelling) fun found => ?_
    cases found with
    | none => exact .bind (.reject .undeclared name) fun _ => .pure rfl
    | some found =>
      obtain ⟨id, kind⟩ := found
      cases kind with
      | proc shapes =>
        cases shape with
        | proc expected =>
          exact .branch (by simp) (.report .procWrongSignature rfl rfl) (.pure rfl)
        | _ => exact .bind (.report .procUnexpected f.empty.symm rfl) fun _ => .pure rfl
      | _ => exact .bind (.reject .notProcedure name) fun _ => .pure rfl
  | .func span name, shape => by
    rw [Actual.recast, actual, actual]
    refine .bind (.lookup? name.spelling) fun found => ?_
    cases found with
    | none => exact .bind (.reject .undeclared name) fun _ => .pure rfl
    | some found =>
      obtain ⟨id, kind⟩ := found
      cases kind with
      | func shapes result =>
        cases shape with
        | func expected expectedResult =>
          refine .either (by simp) ?_ ?_
          · exact .bind (.report .funcWrongSignature rfl rfl) fun _ => .pure rfl
          · exact .branch (by simp) (.report .funcWrongType rfl rfl) (.pure rfl)
        | _ => exact .bind (.report .funcUnexpected f.empty.symm rfl) fun _ => .pure rfl
      | _ => exact .bind (.reject .notFunction name) fun _ => .pure rfl

end

end Check

/-! ## Programs -/

namespace Standard

variable (f : Recast)

theorem Scalar.denoter_recast (scalar : Scalar) : scalar.denoter.recast f = scalar.denoter := by
  cases scalar <;> rfl

theorem Parameter.shape_recast (parameter : Parameter) :
    parameter.shape.recast f = parameter.shape := by
  cases parameter <;> simp [shape, FormalShape.recast, Scalar.denoter_recast]

theorem Shape.kind_recast (shape : Shape) : shape.kind.recast f = shape.kind := by
  have hformals (formals : List Parameter) :
      Signature.recast f (formals.map Parameter.shape) = formals.map Parameter.shape := by
    induction formals with
    | nil => rfl
    | cons first others ih =>
      rw [List.map_cons, Signature.recast, Parameter.shape_recast, ih]
  cases shape <;> simp [kind, BindingKind.recast, Scalar.denoter_recast, hformals]

variable {f} (hstandard : ∀ declaration ∈ declarations, f.spelling declaration.name =
  declaration.name)

include hstandard

theorem bindings_recast : bindings.map (Binding.recast f) = bindings := by
  rw [bindings, List.map_toArray, List.map_map]
  refine congrArg List.toArray (List.map_congr_left fun declaration hmem => ?_)
  simp [Binding.recast, Shape.kind_recast, hstandard declaration hmem]

theorem scopes_recast : scopes.recast f = scopes := by
  have henter (all : List (StandardDeclaration × Nat)) (hall : ∀ entry ∈ all,
      entry.1 ∈ declarations) (start : Scopes) :
      (all.foldl (fun scopes entry => scopes.enter entry.1.name entry.2) start).recast f =
        all.foldl (fun scopes entry => scopes.enter entry.1.name entry.2) (start.recast f) := by
    induction all generalizing start with
    | nil => rfl
    | cons entry others ih =>
      rw [List.foldl_cons, List.foldl_cons, ih (fun entry hmem => hall entry (.tail _ hmem)),
        Scopes.enter_recast, hstandard entry.1 (hall entry (.head _))]
  refine henter _ (fun entry hmem => ?_) _
  obtain ⟨declaration, id⟩ := entry
  exact List.mem_of_getElem? (List.mem_zipIdx_iff_getElem?.1 hmem)

end Standard

/-- Checking the recast program gives what checking the program gives, recast. -/
theorem Program.check_recast {f : Recast} (hserial : f.KeepsSerials)
    (hstandard : ∀ declaration ∈ Standard.declarations, f.spelling declaration.name =
      declaration.name) (program : Program) {journal journal' : Journal}
    (hjournal : journal'.diagnostics = journal.diagnostics.map (Diagnostic.recast f)) :
    ((program.recast f).check journal').program = (program.check journal).program.recast f ∧
      ((program.recast f).check journal').journal.diagnostics =
        (program.check journal).journal.diagnostics.map (Diagnostic.recast f) := by
  have hstart : Checker.Twin f ⟨Standard.bindings, Standard.scopes, journal, program.serials⟩
      ⟨Standard.bindings, Standard.scopes, journal', program.serials⟩ :=
    ⟨(Standard.scopes_recast hstandard).symm, (Standard.bindings_recast hstandard).symm, hjournal,
      rfl⟩
  obtain ⟨hcommand, htwin⟩ := Check.command_recasts hserial program.command _ _ hstart
  refine ⟨?_, htwin.diagnostics⟩
  exact (Program.mk.injEq ..).mpr ⟨hcommand, rfl, htwin.serials⟩

end TriangleTam
