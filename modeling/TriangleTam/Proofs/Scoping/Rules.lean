import TriangleTam.Proofs.Typing.Environment
import TriangleTam.Scope
import TriangleTam.Tree

/-! # Scoping rules

  Which binding each name of a program stands for, whether or not the program
  breaks other rules. A name **sees** the latest binding of its spelling in the
  innermost scope that has one. A use is linked to the binding that it sees if
  that is of a kind that may stand there, and to none otherwise; whatever
  introduces a name is linked to a binding of its own.

  Judgements relate a node to the same node after checking. They carry the open
  scopes and the number of the next binding, which is how many bindings there
  were before; `bindings` are those of the whole program. Nothing is said about
  types other than what type identifiers in them stand for.
-/

namespace TriangleTam

/-! ## Visibility -/

/-- The latest entry of the name in the scope is for the binding. -/
def Scope.Latest (scope : Scope) (name : String) (id : BindingId) : Prop :=
  ∃ newer older, scope = newer ++ (name, id) :: older ∧ ∀ entry ∈ newer, entry.1 ≠ name

/-- The innermost scope with the name gives it the binding. -/
def Scopes.Sees (Γ : Scopes) (name : String) (id : BindingId) : Prop :=
  ∃ inner scope outer, Γ.innermost :: Γ.outer = inner ++ scope :: outer ∧
    (∀ closer ∈ inner, ∀ entry ∈ closer, entry.1 ≠ name) ∧ Scope.Latest scope name id

theorem Scope.forall_bne_iff (scope : Scope) (name : String) :
    (∀ entry ∈ scope, (name != entry.1) = true) ↔ ∀ entry ∈ scope, entry.1 ≠ name := by
  refine forall₂_congr fun entry _ => ?_
  rw [bne_iff_ne, ne_comm]

theorem Scope.lookup_eq_none_iff {scope : Scope} {name : String} :
    scope.lookup name = none ↔ ∀ entry ∈ scope, entry.1 ≠ name :=
  List.lookup_eq_none_iff.trans (Scope.forall_bne_iff scope name)

theorem Scope.lookup_eq_some_iff {scope : Scope} {name : String} {id : BindingId} :
    scope.lookup name = some id ↔ Scope.Latest scope name id := by
  rw [List.lookup_eq_some_iff]
  constructor
  · rintro ⟨newer, older, hscope, hnewer⟩
    exact ⟨newer, older, hscope, (Scope.forall_bne_iff newer name).1 hnewer⟩
  · rintro ⟨newer, older, hscope, hnewer⟩
    exact ⟨newer, older, hscope, (Scope.forall_bne_iff newer name).2 hnewer⟩

/-- Looking a name up finds what it sees. -/
theorem Scopes.find?_eq_some_iff {Γ : Scopes} {name : String} {id : BindingId} :
    Γ.find? name = some id ↔ Γ.Sees name id := by
  rw [find?, List.findSome?_eq_some_iff]
  constructor
  · rintro ⟨inner, scope, outer, hscopes, hlookup, hinner⟩
    exact ⟨inner, scope, outer, hscopes,
      fun closer hmem => Scope.lookup_eq_none_iff.1 (hinner closer hmem),
      Scope.lookup_eq_some_iff.1 hlookup⟩
  · rintro ⟨inner, scope, outer, hscopes, hinner, hlatest⟩
    exact ⟨inner, scope, outer, hscopes, Scope.lookup_eq_some_iff.2 hlatest,
      fun closer hmem => Scope.lookup_eq_none_iff.2 (hinner closer hmem)⟩

/-- A name sees one binding at most. -/
theorem Scopes.Sees.unique {Γ : Scopes} {name : String} {id id' : BindingId}
    (h : Γ.Sees name id) (h' : Γ.Sees name id') : id = id' :=
  Option.some.inj ((find?_eq_some_iff.2 h).symm.trans (find?_eq_some_iff.2 h'))

/-! ## Links -/

/-- The sort of thing that a name stands for. -/
inductive Role
  | const | var | proc | func | type | unary | binary
  deriving DecidableEq

def BindingKind.role : BindingKind → Role
  | .const _ => .const
  | .var _ => .var
  | .proc _ => .proc
  | .func .. => .func
  | .type _ => .type
  | .unary .. => .unary
  | .binary .. => .binary

/-- The name without a link. -/
def Name.unlinked (name : Name) : Name := { name with binding := none }

section Rules

variable (bindings : Bindings)

/-- The use of a name is linked to what it sees, if that is in one of the roles. -/
inductive Name.Linked (Γ : Scopes) (roles : List Role) : Name → Name → Prop
  | seen {name id binding} :
      Γ.Sees name.spelling id →
      bindings[id]? = some binding →
      binding.kind.role ∈ roles →
      Linked Γ roles name (name.link id)
  | unseen {name} :
      (∀ id binding, Γ.Sees name.spelling id → bindings[id]? = some binding →
        binding.kind.role ∉ roles) →
      Linked Γ roles name name.unlinked

/-! ## Type denoters -/

mutual

/-- Type identifiers stand for the denoters of the types that they see, and for `error` where
    they see no type. -/
inductive TypeDenoter.Scoped (Γ : Scopes) : TypeDenoter → TypeDenoter → Prop
  | boolean : TypeDenoter.Scoped Γ .boolean .boolean
  | character : TypeDenoter.Scoped Γ .character .character
  | integer : TypeDenoter.Scoped Γ .integer .integer
  | any : TypeDenoter.Scoped Γ .any .any
  | error : TypeDenoter.Scoped Γ .error .error
  | named {span name id spelling type} :
      Γ.Sees name.spelling id →
      bindings[id]? = some ⟨spelling, .type type⟩ →
      TypeDenoter.Scoped Γ (.named span name) type
  | unseen {span name} :
      (∀ id binding, Γ.Sees name.spelling id → bindings[id]? = some binding →
        binding.kind.role ≠ .type) →
      TypeDenoter.Scoped Γ (.named span name) .error
  | array {serial serial' span length element element'} :
      TypeDenoter.Scoped Γ element element' →
      TypeDenoter.Scoped Γ (.array serial span length element)
        (.array serial' span length element')
  | record {serial serial' span fields fields'} :
      Fields.Scoped Γ fields fields' →
      TypeDenoter.Scoped Γ (.record serial span fields) (.record serial' span fields')

inductive Fields.Scoped (Γ : Scopes) : Fields → Fields → Prop
  | one {span name type type'} :
      TypeDenoter.Scoped Γ type type' →
      Fields.Scoped Γ (.one span name type) (.one span name type')
  | more {span name type rest type' rest'} :
      TypeDenoter.Scoped Γ type type' →
      Fields.Scoped Γ rest rest' →
      Fields.Scoped Γ (.more span name type rest) (.more span name type' rest')

end

/-! ## Formal parameters -/

mutual

/-- The parameter is bound in the innermost scope, after its own type and its own parameters.
    The latter are seen nowhere else. -/
inductive Formal.Scoped : Scopes → BindingId → Formal → Formal → Scopes → BindingId → Prop
  | const {Γ n span duplicated duplicated' name type type'} :
      TypeDenoter.Scoped bindings Γ type type' →
      bindings[n]? = some ⟨name.spelling, .const type'⟩ →
      Formal.Scoped Γ n (.const span duplicated name type)
        (.const span duplicated' (name.link n) type') (Γ.enter name.spelling n) (n + 1)
  | var {Γ n span duplicated duplicated' name type type'} :
      TypeDenoter.Scoped bindings Γ type type' →
      bindings[n]? = some ⟨name.spelling, .var type'⟩ →
      Formal.Scoped Γ n (.var span duplicated name type)
        (.var span duplicated' (name.link n) type') (Γ.enter name.spelling n) (n + 1)
  | proc {Γ n span duplicated duplicated' name inner inner' Γ' n' shapes} :
      Formals.Scoped Γ.enclose n inner inner' Γ' n' →
      bindings[n']? = some ⟨name.spelling, .proc shapes⟩ →
      Formal.Scoped Γ n (.proc span duplicated name inner)
        (.proc span duplicated' (name.link n') inner') (Γ.enter name.spelling n') (n' + 1)
  | func {Γ n span duplicated duplicated' name inner result result' inner' Γ' n' shapes} :
      TypeDenoter.Scoped bindings Γ result result' →
      Formals.Scoped Γ.enclose n inner inner' Γ' n' →
      bindings[n']? = some ⟨name.spelling, .func shapes result'⟩ →
      Formal.Scoped Γ n (.func span duplicated name inner result)
        (.func span duplicated' (name.link n') inner' result') (Γ.enter name.spelling n') (n' + 1)

/-- Each parameter sees those before it. -/
inductive Formals.Scoped : Scopes → BindingId → Formals → Formals → Scopes → BindingId → Prop
  | empty {Γ n span} : Formals.Scoped Γ n (.empty span) (.empty span) Γ n
  | one {Γ n span first first' Γ' n'} :
      Formal.Scoped Γ n first first' Γ' n' →
      Formals.Scoped Γ n (.one span first) (.one span first') Γ' n'
  | more {Γ n span first rest first' Γ' n' rest' Γ'' n''} :
      Formal.Scoped Γ n first first' Γ' n' →
      Formals.Scoped Γ' n' rest rest' Γ'' n'' →
      Formals.Scoped Γ n (.more span first rest) (.more span first' rest') Γ'' n''

end

end Rules

/-! ## Trees before checking -/

mutual

/-- No name in the command is linked. -/
def Command.Unlinked : Command → Prop
  | .empty _ => True
  | .assign _ target value => target.Unlinked ∧ value.Unlinked
  | .call _ callee args => callee.binding = none ∧ args.Unlinked
  | .sequence _ first second => first.Unlinked ∧ second.Unlinked
  | .letIn _ declared body => declared.Unlinked ∧ body.Unlinked
  | .ifElse _ condition thenBranch elseBranch =>
    condition.Unlinked ∧ thenBranch.Unlinked ∧ elseBranch.Unlinked
  | .whileDo _ condition body => condition.Unlinked ∧ body.Unlinked
  | .repeatUntil _ body condition => body.Unlinked ∧ condition.Unlinked
  | .loopWhile _ body condition tail => body.Unlinked ∧ condition.Unlinked ∧ tail.Unlinked

def Expression.Unlinked : Expression → Prop
  | .integer .. | .character .. => True
  | .vname _ _ found => found.Unlinked
  | .call _ _ callee args => callee.binding = none ∧ args.Unlinked
  | .ifElse _ _ condition thenBranch elseBranch =>
    condition.Unlinked ∧ thenBranch.Unlinked ∧ elseBranch.Unlinked
  | .letIn _ _ declared body => declared.Unlinked ∧ body.Unlinked
  | .unary _ _ operator operand => operator.binding = none ∧ operand.Unlinked
  | .binary _ _ left operator right =>
    left.Unlinked ∧ operator.binding = none ∧ right.Unlinked
  | .array _ _ elements => elements.Unlinked
  | .record _ _ fields => fields.Unlinked

def ArrayAggregate.Unlinked : ArrayAggregate → Prop
  | .one _ element => element.Unlinked
  | .more _ element rest => element.Unlinked ∧ rest.Unlinked

def RecordAggregate.Unlinked : RecordAggregate → Prop
  | .one _ _ value => value.Unlinked
  | .more _ _ value rest => value.Unlinked ∧ rest.Unlinked

def Vname.Unlinked : Vname → Prop
  | .simple _ _ _ name => name.binding = none
  | .dot _ _ _ record _ => record.Unlinked
  | .subscript _ _ _ array index => array.Unlinked ∧ index.Unlinked

def Declaration.Unlinked : Declaration → Prop
  | .const _ _ name value => name.binding = none ∧ value.Unlinked
  | .var _ _ name _ | .type _ _ name _ => name.binding = none
  | .proc _ _ name parameters body =>
    name.binding = none ∧ parameters.Unlinked ∧ body.Unlinked
  | .func _ _ name parameters _ body =>
    name.binding = none ∧ parameters.Unlinked ∧ body.Unlinked
  | .sequence _ first second => first.Unlinked ∧ second.Unlinked

def Formal.Unlinked : Formal → Prop
  | .const _ _ name _ | .var _ _ name _ => name.binding = none
  | .proc _ _ name inner | .func _ _ name inner _ => name.binding = none ∧ inner.Unlinked

def Formals.Unlinked : Formals → Prop
  | .empty _ => True
  | .one _ first => first.Unlinked
  | .more _ first rest => first.Unlinked ∧ rest.Unlinked

def Actuals.Unlinked : Actuals → Prop
  | .empty _ => True
  | .one _ first => first.Unlinked
  | .more _ first rest => first.Unlinked ∧ rest.Unlinked

def Actual.Unlinked : Actual → Prop
  | .const _ value => value.Unlinked
  | .var _ found => found.Unlinked
  | .proc _ name | .func _ name => name.binding = none

end

/-! ## Commands, expressions and declarations -/

section Rules

variable (bindings : Bindings)

mutual

/-- What a command declares is not seen after it. -/
inductive Command.Scoped : Scopes → BindingId → Command → Command → BindingId → Prop
  | empty {Γ n span} : Command.Scoped Γ n (.empty span) (.empty span) n
  | assign {Γ n span target value target' n' value' n''} :
      Vname.Scoped Γ n target target' n' →
      Expression.Scoped Γ n' value value' n'' →
      Command.Scoped Γ n (.assign span target value) (.assign span target' value') n''
  | call {Γ n span callee args callee' args' n'} :
      Name.Linked bindings Γ [.proc] callee callee' →
      Actuals.Scoped Γ n args args' n' →
      Command.Scoped Γ n (.call span callee args) (.call span callee' args') n'
  | sequence {Γ n span first second first' n' second' n''} :
      Command.Scoped Γ n first first' n' →
      Command.Scoped Γ n' second second' n'' →
      Command.Scoped Γ n (.sequence span first second) (.sequence span first' second') n''
  | letIn {Γ n span declared body declared' Γ' n' body' n''} :
      Declaration.Scoped Γ.enclose n declared declared' Γ' n' →
      Command.Scoped Γ' n' body body' n'' →
      Command.Scoped Γ n (.letIn span declared body) (.letIn span declared' body') n''
  | ifElse {Γ n span condition thenBranch elseBranch condition' n₁ thenBranch' n₂ elseBranch'
        n₃} :
      Expression.Scoped Γ n condition condition' n₁ →
      Command.Scoped Γ n₁ thenBranch thenBranch' n₂ →
      Command.Scoped Γ n₂ elseBranch elseBranch' n₃ →
      Command.Scoped Γ n (.ifElse span condition thenBranch elseBranch)
        (.ifElse span condition' thenBranch' elseBranch') n₃
  | whileDo {Γ n span condition body condition' n' body' n''} :
      Expression.Scoped Γ n condition condition' n' →
      Command.Scoped Γ n' body body' n'' →
      Command.Scoped Γ n (.whileDo span condition body) (.whileDo span condition' body') n''
  | repeatUntil {Γ n span body condition body' n' condition' n''} :
      Command.Scoped Γ n body body' n' →
      Expression.Scoped Γ n' condition condition' n'' →
      Command.Scoped Γ n (.repeatUntil span body condition)
        (.repeatUntil span body' condition') n''
  | loopWhile {Γ n span body condition tail body' n₁ condition' n₂ tail' n₃} :
      Command.Scoped Γ n body body' n₁ →
      Expression.Scoped Γ n₁ condition condition' n₂ →
      Command.Scoped Γ n₂ tail tail' n₃ →
      Command.Scoped Γ n (.loopWhile span body condition tail)
        (.loopWhile span body' condition' tail') n₃

inductive Expression.Scoped : Scopes → BindingId → Expression → Expression → BindingId → Prop
  | integer {Γ n span type type' literal} :
      Expression.Scoped Γ n (.integer span type literal) (.integer span type' literal) n
  | character {Γ n span type type' literal} :
      Expression.Scoped Γ n (.character span type literal) (.character span type' literal) n
  | vname {Γ n span type type' found found' n'} :
      Vname.Scoped Γ n found found' n' →
      Expression.Scoped Γ n (.vname span type found) (.vname span type' found') n'
  | call {Γ n span type type' callee args callee' args' n'} :
      Name.Linked bindings Γ [.func] callee callee' →
      Actuals.Scoped Γ n args args' n' →
      Expression.Scoped Γ n (.call span type callee args) (.call span type' callee' args') n'
  | ifElse {Γ n span type type' condition thenBranch elseBranch condition' n₁ thenBranch' n₂
        elseBranch' n₃} :
      Expression.Scoped Γ n condition condition' n₁ →
      Expression.Scoped Γ n₁ thenBranch thenBranch' n₂ →
      Expression.Scoped Γ n₂ elseBranch elseBranch' n₃ →
      Expression.Scoped Γ n (.ifElse span type condition thenBranch elseBranch)
        (.ifElse span type' condition' thenBranch' elseBranch') n₃
  | letIn {Γ n span type type' declared body declared' Γ' n' body' n''} :
      Declaration.Scoped Γ.enclose n declared declared' Γ' n' →
      Expression.Scoped Γ' n' body body' n'' →
      Expression.Scoped Γ n (.letIn span type declared body)
        (.letIn span type' declared' body') n''
  | unary {Γ n span type type' operator operand operator' operand' n'} :
      Expression.Scoped Γ n operand operand' n' →
      Name.Linked bindings Γ [.unary] operator operator' →
      Expression.Scoped Γ n (.unary span type operator operand)
        (.unary span type' operator' operand') n'
  | binary {Γ n span type type' left operator right left' n' right' n'' operator'} :
      Expression.Scoped Γ n left left' n' →
      Expression.Scoped Γ n' right right' n'' →
      Name.Linked bindings Γ [.binary] operator operator' →
      Expression.Scoped Γ n (.binary span type left operator right)
        (.binary span type' left' operator' right') n''
  | array {Γ n span type type' elements elements' n'} :
      ArrayAggregate.Scoped Γ n elements elements' n' →
      Expression.Scoped Γ n (.array span type elements) (.array span type' elements') n'
  | record {Γ n span type type' fields fields' n'} :
      RecordAggregate.Scoped Γ n fields fields' n' →
      Expression.Scoped Γ n (.record span type fields) (.record span type' fields') n'

inductive ArrayAggregate.Scoped :
    Scopes → BindingId → ArrayAggregate → ArrayAggregate → BindingId → Prop
  | one {Γ n span element element' n'} :
      Expression.Scoped Γ n element element' n' →
      ArrayAggregate.Scoped Γ n (.one span element) (.one span element') n'
  | more {Γ n span element rest element' n' rest' n''} :
      Expression.Scoped Γ n element element' n' →
      ArrayAggregate.Scoped Γ n' rest rest' n'' →
      ArrayAggregate.Scoped Γ n (.more span element rest) (.more span element' rest') n''

inductive RecordAggregate.Scoped :
    Scopes → BindingId → RecordAggregate → RecordAggregate → BindingId → Prop
  | one {Γ n span field value value' n'} :
      Expression.Scoped Γ n value value' n' →
      RecordAggregate.Scoped Γ n (.one span field value) (.one span field value') n'
  | more {Γ n span field value rest value' n' rest' n''} :
      Expression.Scoped Γ n value value' n' →
      RecordAggregate.Scoped Γ n' rest rest' n'' →
      RecordAggregate.Scoped Γ n (.more span field value rest) (.more span field value' rest') n''

inductive Vname.Scoped : Scopes → BindingId → Vname → Vname → BindingId → Prop
  | simple {Γ n span type type' isVariable isVariable' name name'} :
      Name.Linked bindings Γ [.const, .var] name name' →
      Vname.Scoped Γ n (.simple span type isVariable name) (.simple span type' isVariable' name')
        n
  | dot {Γ n span type type' isVariable isVariable' record field record' n'} :
      Vname.Scoped Γ n record record' n' →
      Vname.Scoped Γ n (.dot span type isVariable record field)
        (.dot span type' isVariable' record' field) n'
  | subscript {Γ n span type type' isVariable isVariable' array index array' n' index' n''} :
      Vname.Scoped Γ n array array' n' →
      Expression.Scoped Γ n' index index' n'' →
      Vname.Scoped Γ n (.subscript span type isVariable array index)
        (.subscript span type' isVariable' array' index') n''

/-- A name is bound in the innermost scope, after the value or the type that is given to it. -/
inductive Declaration.Scoped :
    Scopes → BindingId → Declaration → Declaration → Scopes → BindingId → Prop
  | const {Γ n span duplicated duplicated' name value value' n' type} :
      Expression.Scoped Γ n value value' n' →
      bindings[n']? = some ⟨name.spelling, .const type⟩ →
      Declaration.Scoped Γ n (.const span duplicated name value)
        (.const span duplicated' (name.link n') value') (Γ.enter name.spelling n') (n' + 1)
  | var {Γ n span duplicated duplicated' name type type'} :
      type.Scoped bindings Γ type' →
      bindings[n]? = some ⟨name.spelling, .var type'⟩ →
      Declaration.Scoped Γ n (.var span duplicated name type)
        (.var span duplicated' (name.link n) type') (Γ.enter name.spelling n) (n + 1)
  /-- The parameters and the body see the procedure, and the body its parameters. -/
  | proc {Γ n span duplicated duplicated' name parameters body shapes parameters' Γ' n' body'
        n''} :
      bindings[n]? = some ⟨name.spelling, .proc shapes⟩ →
      Formals.Scoped bindings (Γ.enter name.spelling n).enclose (n + 1) parameters parameters' Γ'
        n' →
      Command.Scoped Γ' n' body body' n'' →
      Declaration.Scoped Γ n (.proc span duplicated name parameters body)
        (.proc span duplicated' (name.link n) parameters' body') (Γ.enter name.spelling n) n''
  /-- The parameters and the body see the function; its result type does not. -/
  | func {Γ n span duplicated duplicated' name parameters result body result' shapes parameters'
        Γ' n' body' n''} :
      result.Scoped bindings Γ result' →
      bindings[n]? = some ⟨name.spelling, .func shapes result'⟩ →
      Formals.Scoped bindings (Γ.enter name.spelling n).enclose (n + 1) parameters parameters' Γ'
        n' →
      Expression.Scoped Γ' n' body body' n'' →
      Declaration.Scoped Γ n (.func span duplicated name parameters result body)
        (.func span duplicated' (name.link n) parameters' result' body')
        (Γ.enter name.spelling n) n''
  | type {Γ n span duplicated duplicated' name type type'} :
      type.Scoped bindings Γ type' →
      bindings[n]? = some ⟨name.spelling, .type type'⟩ →
      Declaration.Scoped Γ n (.type span duplicated name type)
        (.type span duplicated' (name.link n) type') (Γ.enter name.spelling n) (n + 1)
  | sequence {Γ n span first second first' Γ' n' second' Γ'' n''} :
      Declaration.Scoped Γ n first first' Γ' n' →
      Declaration.Scoped Γ' n' second second' Γ'' n'' →
      Declaration.Scoped Γ n (.sequence span first second) (.sequence span first' second') Γ''
        n''

inductive Actuals.Scoped : Scopes → BindingId → Actuals → Actuals → BindingId → Prop
  /-- Parameters that their number rules out are left as they are, without links. -/
  | left {Γ n args} : args.Unlinked → Actuals.Scoped Γ n args args n
  | one {Γ n span first first' n'} :
      Actual.Scoped Γ n first first' n' →
      Actuals.Scoped Γ n (.one span first) (.one span first') n'
  | more {Γ n span first rest first' n' rest' n''} :
      Actual.Scoped Γ n first first' n' →
      Actuals.Scoped Γ n' rest rest' n'' →
      Actuals.Scoped Γ n (.more span first rest) (.more span first' rest') n''

inductive Actual.Scoped : Scopes → BindingId → Actual → Actual → BindingId → Prop
  | const {Γ n span value value' n'} :
      Expression.Scoped Γ n value value' n' →
      Actual.Scoped Γ n (.const span value) (.const span value') n'
  | var {Γ n span found found' n'} :
      Vname.Scoped Γ n found found' n' →
      Actual.Scoped Γ n (.var span found) (.var span found') n'
  | proc {Γ n span name name'} :
      Name.Linked bindings Γ [.proc] name name' →
      Actual.Scoped Γ n (.proc span name) (.proc span name') n
  | func {Γ n span name name'} :
      Name.Linked bindings Γ [.func] name name' →
      Actual.Scoped Γ n (.func span name) (.func span name') n

end

end Rules

/-- The names of the program are resolved, from the standard scope on. -/
def Program.Scoped (program decorated : Program) (bindings : Bindings) : Prop :=
  Command.Scoped bindings Standard.scopes Standard.bindings.size program.command
    decorated.command bindings.size

end TriangleTam
