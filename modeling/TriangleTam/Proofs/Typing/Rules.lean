import TriangleTam.Proofs.Typing.Environment

/-! # Typing rules

  The contextual rules of the language, node by node. A judgement relates a
  node of a program to the same node with its decorations: each name that is
  used is linked to the binding that lexical scoping gives it, each name that
  is introduced to the next binding, and each expression and vname has its
  type. There is no rule for a broken node, so what has a decoration breaks no
  rule anywhere.

  Judgements carry the environment `Γ` of the node and the supplies before and
  after it. A declaration has an environment after it as well, which is that
  of everything it is declared for.
-/

namespace TriangleTam

/-! ## Type denoters -/

mutual

/-- The denoter stands for a type. A name stands for the denoter of its
    declaration, and arrays are not empty. -/
inductive TypeDenoter.Typed : Env → Supply → TypeDenoter → TypeDenoter → Supply → Prop
  | boolean {Γ s} : TypeDenoter.Typed Γ s .boolean .boolean s
  | character {Γ s} : TypeDenoter.Typed Γ s .character .character s
  | integer {Γ s} : TypeDenoter.Typed Γ s .integer .integer s
  | named {Γ s span name id type} :
      Γ.find? name.spelling = some (id, .type type) →
      TypeDenoter.Typed Γ s (.named span name) type s
  | array {Γ s serial span length element element' s'} :
      0 < length.value →
      TypeDenoter.Typed Γ s element element' s' →
      TypeDenoter.Typed Γ s (.array serial span length element)
        (.array s'.denoters.length span length element')
        (s'.add (.array s'.denoters.length span length element'))
  | record {Γ s serial span fields fields' s'} :
      Fields.Typed Γ s fields fields' s' →
      TypeDenoter.Typed Γ s (.record serial span fields) (.record s'.denoters.length span fields')
        (s'.add (.record s'.denoters.length span fields'))

inductive Fields.Typed : Env → Supply → Fields → Fields → Supply → Prop
  | one {Γ s span name type type' s'} :
      TypeDenoter.Typed Γ s type type' s' →
      Fields.Typed Γ s (.one span name type) (.one span name type') s'
  | more {Γ s span name type rest type' s' rest' s''} :
      TypeDenoter.Typed Γ s type type' s' →
      Fields.Typed Γ s' rest rest' s'' →
      Fields.Typed Γ s (.more span name type rest) (.more span name type' rest') s''

end

/-! ## Formal parameters -/

mutual

/-- The parameter has a shape and is bound in the innermost scope, which does
    not bind its name yet. -/
inductive Formal.Typed : Env → Supply → Formal → Formal → FormalShape → Env → Supply → Prop
  | const {Γ s span duplicated name type type' s'} :
      type.Typed Γ s type' s' →
      ¬ Γ.Declares name.spelling →
      Formal.Typed Γ s (.const span duplicated name type)
        (.const span false (name.link s'.bindings) type') (.const type')
        (Γ.enter name.spelling s'.bindings (.const type')) s'.bind
  | var {Γ s span duplicated name type type' s'} :
      type.Typed Γ s type' s' →
      ¬ Γ.Declares name.spelling →
      Formal.Typed Γ s (.var span duplicated name type)
        (.var span false (name.link s'.bindings) type') (.var type')
        (Γ.enter name.spelling s'.bindings (.var type')) s'.bind
  | proc {Γ s span duplicated name inner inner' shapes Γ' s'} :
      Formals.Typed Γ.enclose s inner inner' shapes Γ' s' →
      ¬ Γ.Declares name.spelling →
      Formal.Typed Γ s (.proc span duplicated name inner)
        (.proc span false (name.link s'.bindings) inner') (.proc shapes)
        (Γ.enter name.spelling s'.bindings (.proc shapes)) s'.bind
  | func {Γ s span duplicated name inner result result' s' inner' shapes Γ' s''} :
      result.Typed Γ s result' s' →
      Formals.Typed Γ.enclose s' inner inner' shapes Γ' s'' →
      ¬ Γ.Declares name.spelling →
      Formal.Typed Γ s (.func span duplicated name inner result)
        (.func span false (name.link s''.bindings) inner' result') (.func shapes result')
        (Γ.enter name.spelling s''.bindings (.func shapes result')) s''.bind

/-- The parameters are bound in order. -/
inductive Formals.Typed : Env → Supply → Formals → Formals → Signature → Env → Supply → Prop
  | empty {Γ s span} : Formals.Typed Γ s (.empty span) (.empty span) [] Γ s
  | one {Γ s span first first' shape Γ' s'} :
      Formal.Typed Γ s first first' shape Γ' s' →
      Formals.Typed Γ s (.one span first) (.one span first') [shape] Γ' s'
  | more {Γ s span first rest first' shape Γ' s' rest' shapes Γ'' s''} :
      Formal.Typed Γ s first first' shape Γ' s' →
      Formals.Typed Γ' s' rest rest' shapes Γ'' s'' →
      Formals.Typed Γ s (.more span first rest) (.more span first' rest') (shape :: shapes) Γ'' s''

end

/-! ## Commands, expressions and declarations -/

mutual

inductive Command.Typed : Env → Supply → Command → Command → Supply → Prop
  | empty {Γ s span} : Command.Typed Γ s (.empty span) (.empty span) s
  /-- The target is a variable, and the value is of an equivalent type. -/
  | assign {Γ s span target value target' targetType s' value' valueType s''} :
      Vname.Typed Γ s target target' targetType s' →
      Expression.Typed Γ s' value value' valueType s'' →
      target'.isVariable = true →
      targetType.equivalent valueType = true →
      Command.Typed Γ s (.assign span target value) (.assign span target' value') s''
  | call {Γ s span callee args id shapes args' s'} :
      Γ.find? callee.spelling = some (id, .proc shapes) →
      Actuals.Typed Γ s args shapes args' s' →
      Command.Typed Γ s (.call span callee args) (.call span (callee.link id) args') s'
  | sequence {Γ s span first second first' s' second' s''} :
      Command.Typed Γ s first first' s' →
      Command.Typed Γ s' second second' s'' →
      Command.Typed Γ s (.sequence span first second) (.sequence span first' second') s''
  | letIn {Γ s span declared body declared' Γ' s' body' s''} :
      Declaration.Typed Γ.enclose s declared declared' Γ' s' →
      Command.Typed Γ' s' body body' s'' →
      Command.Typed Γ s (.letIn span declared body) (.letIn span declared' body') s''
  | ifElse {Γ s span condition thenBranch elseBranch condition' s₁ thenBranch' s₂
        elseBranch' s₃} :
      Expression.Typed Γ s condition condition' .boolean s₁ →
      Command.Typed Γ s₁ thenBranch thenBranch' s₂ →
      Command.Typed Γ s₂ elseBranch elseBranch' s₃ →
      Command.Typed Γ s (.ifElse span condition thenBranch elseBranch)
        (.ifElse span condition' thenBranch' elseBranch') s₃
  | whileDo {Γ s span condition body condition' s' body' s''} :
      Expression.Typed Γ s condition condition' .boolean s' →
      Command.Typed Γ s' body body' s'' →
      Command.Typed Γ s (.whileDo span condition body) (.whileDo span condition' body') s''
  | repeatUntil {Γ s span body condition body' s' condition' s''} :
      Command.Typed Γ s body body' s' →
      Expression.Typed Γ s' condition condition' .boolean s'' →
      Command.Typed Γ s (.repeatUntil span body condition) (.repeatUntil span body' condition') s''
  | loopWhile {Γ s span body condition tail body' s₁ condition' s₂ tail' s₃} :
      Command.Typed Γ s body body' s₁ →
      Expression.Typed Γ s₁ condition condition' .boolean s₂ →
      Command.Typed Γ s₂ tail tail' s₃ →
      Command.Typed Γ s (.loopWhile span body condition tail)
        (.loopWhile span body' condition' tail') s₃

/-- The expression has a type, which its decoration carries. -/
inductive Expression.Typed :
    Env → Supply → Expression → Expression → TypeDenoter → Supply → Prop
  | integer {Γ s span type literal} :
      Expression.Typed Γ s (.integer span type literal) (.integer span (some .integer) literal)
        .integer s
  | character {Γ s span type literal} :
      Expression.Typed Γ s (.character span type literal)
        (.character span (some .character) literal) .character s
  | vname {Γ s span type found found' foundType s'} :
      Vname.Typed Γ s found found' foundType s' →
      Expression.Typed Γ s (.vname span type found) (.vname span (some foundType) found')
        foundType s'
  | call {Γ s span type callee args id shapes result args' s'} :
      Γ.find? callee.spelling = some (id, .func shapes result) →
      Actuals.Typed Γ s args shapes args' s' →
      Expression.Typed Γ s (.call span type callee args)
        (.call span (some result) (callee.link id) args') result s'
  | ifElse {Γ s span type condition thenBranch elseBranch condition' s₁ thenBranch' thenType s₂
        elseBranch' elseType s₃} :
      Expression.Typed Γ s condition condition' .boolean s₁ →
      Expression.Typed Γ s₁ thenBranch thenBranch' thenType s₂ →
      Expression.Typed Γ s₂ elseBranch elseBranch' elseType s₃ →
      thenType.equivalent elseType = true →
      Expression.Typed Γ s (.ifElse span type condition thenBranch elseBranch)
        (.ifElse span (some thenType) condition' thenBranch' elseBranch') thenType s₃
  | letIn {Γ s span type declared body declared' Γ' s' body' bodyType s''} :
      Declaration.Typed Γ.enclose s declared declared' Γ' s' →
      Expression.Typed Γ' s' body body' bodyType s'' →
      Expression.Typed Γ s (.letIn span type declared body)
        (.letIn span (some bodyType) declared' body') bodyType s''
  | unary {Γ s span type operator operand operand' operandType s' id expected result} :
      Expression.Typed Γ s operand operand' operandType s' →
      Γ.find? operator.spelling = some (id, .unary expected result) →
      expected.equivalent operandType = true →
      Expression.Typed Γ s (.unary span type operator operand)
        (.unary span (some result) (operator.link id) operand') result s'
  | binary {Γ s span type left operator right left' leftType s' right' rightType s'' id
        expectedLeft expectedRight result} :
      Expression.Typed Γ s left left' leftType s' →
      Expression.Typed Γ s' right right' rightType s'' →
      Γ.find? operator.spelling = some (id, .binary expectedLeft expectedRight result) →
      expectedLeft.equivalent leftType = true →
      expectedRight.equivalent rightType = true →
      Expression.Typed Γ s (.binary span type left operator right)
        (.binary span (some result) left' (operator.link id) right') result s''
  /-- An equality takes operands of any type, which are equivalent to each other. -/
  | equality {Γ s span type left operator right left' leftType s' right' rightType s'' id
        expectedRight result} :
      Expression.Typed Γ s left left' leftType s' →
      Expression.Typed Γ s' right right' rightType s'' →
      Γ.find? operator.spelling = some (id, .binary .any expectedRight result) →
      leftType.equivalent rightType = true →
      Expression.Typed Γ s (.binary span type left operator right)
        (.binary span (some result) left' (operator.link id) right') result s''
  | array {Γ s span type elements elements' element s'} :
      ArrayAggregate.Typed Γ s elements elements' element s' →
      Expression.Typed Γ s (.array span type elements)
        (.array span (some (.array s'.denoters.length span ⟨Numeral.ofNat elements.count, span⟩
          element)) elements')
        (.array s'.denoters.length span ⟨Numeral.ofNat elements.count, span⟩ element)
        (s'.add (.array s'.denoters.length span ⟨Numeral.ofNat elements.count, span⟩ element))
  | record {Γ s span type fields fields' types s'} :
      RecordAggregate.Typed Γ s fields fields' types s' →
      Expression.Typed Γ s (.record span type fields)
        (.record span (some (.record s'.denoters.length span types)) fields')
        (.record s'.denoters.length span types)
        (s'.add (.record s'.denoters.length span types))

/-- The elements are of equivalent types, one to the next. -/
inductive ArrayAggregate.Typed :
    Env → Supply → ArrayAggregate → ArrayAggregate → TypeDenoter → Supply → Prop
  | one {Γ s span element element' type s'} :
      Expression.Typed Γ s element element' type s' →
      ArrayAggregate.Typed Γ s (.one span element) (.one span element') type s'
  | more {Γ s span element rest element' type s' rest' restType s''} :
      Expression.Typed Γ s element element' type s' →
      ArrayAggregate.Typed Γ s' rest rest' restType s'' →
      type.equivalent restType = true →
      ArrayAggregate.Typed Γ s (.more span element rest) (.more span element' rest') type s''

/-- The fields have names of their own. -/
inductive RecordAggregate.Typed :
    Env → Supply → RecordAggregate → RecordAggregate → Fields → Supply → Prop
  | one {Γ s span field value value' type s'} :
      Expression.Typed Γ s value value' type s' →
      RecordAggregate.Typed Γ s (.one span field value) (.one span field value')
        (.one span field type) s'
  | more {Γ s span field value rest value' type s' rest' types s''} :
      Expression.Typed Γ s value value' type s' →
      RecordAggregate.Typed Γ s' rest rest' types s'' →
      types.find? field.spelling = none →
      RecordAggregate.Typed Γ s (.more span field value rest) (.more span field value' rest')
        (.more span field type types) s''

inductive Vname.Typed : Env → Supply → Vname → Vname → TypeDenoter → Supply → Prop
  | const {Γ s span type isVariable name id constType} :
      Γ.find? name.spelling = some (id, .const constType) →
      Vname.Typed Γ s (.simple span type isVariable name)
        (.simple span (some constType) false (name.link id)) constType s
  | var {Γ s span type isVariable name id varType} :
      Γ.find? name.spelling = some (id, .var varType) →
      Vname.Typed Γ s (.simple span type isVariable name)
        (.simple span (some varType) true (name.link id)) varType s
  | dot {Γ s span type isVariable record field record' serial recordSpan fields s' fieldType} :
      Vname.Typed Γ s record record' (.record serial recordSpan fields) s' →
      fields.find? field.spelling = some fieldType →
      Vname.Typed Γ s (.dot span type isVariable record field)
        (.dot span (some fieldType) record'.isVariable record' field) fieldType s'
  | subscript {Γ s span type isVariable array index array' serial arraySpan length element s'
        index' s''} :
      Vname.Typed Γ s array array' (.array serial arraySpan length element) s' →
      Expression.Typed Γ s' index index' .integer s'' →
      Vname.Typed Γ s (.subscript span type isVariable array index)
        (.subscript span (some element) array'.isVariable array' index') element s''

/-- The declaration binds names that the innermost scope does not bind yet. -/
inductive Declaration.Typed :
    Env → Supply → Declaration → Declaration → Env → Supply → Prop
  | const {Γ s span duplicated name value value' type s'} :
      Expression.Typed Γ s value value' type s' →
      ¬ Γ.Declares name.spelling →
      Declaration.Typed Γ s (.const span duplicated name value)
        (.const span false (name.link s'.bindings) value')
        (Γ.enter name.spelling s'.bindings (.const type)) s'.bind
  | var {Γ s span duplicated name type type' s'} :
      type.Typed Γ s type' s' →
      ¬ Γ.Declares name.spelling →
      Declaration.Typed Γ s (.var span duplicated name type)
        (.var span false (name.link s'.bindings) type')
        (Γ.enter name.spelling s'.bindings (.var type')) s'.bind
  /-- The parameters and the body see the procedure. -/
  | proc {Γ s span duplicated name parameters body parameters' shapes Γ' s' body' s''} :
      ¬ Γ.Declares name.spelling →
      parameters.Typed (Γ.enter name.spelling s.bindings (.proc shapes)).enclose s.bind
        parameters' shapes Γ' s' →
      Command.Typed Γ' s' body body' s'' →
      Declaration.Typed Γ s (.proc span duplicated name parameters body)
        (.proc span false (name.link s.bindings) parameters' body')
        (Γ.enter name.spelling s.bindings (.proc shapes)) s''
  /-- The parameters and the body see the function; its result type does not. -/
  | func {Γ s span duplicated name parameters result body result' s₁ parameters' shapes Γ' s₂
        body' bodyType s₃} :
      result.Typed Γ s result' s₁ →
      ¬ Γ.Declares name.spelling →
      parameters.Typed (Γ.enter name.spelling s₁.bindings (.func shapes result')).enclose s₁.bind
        parameters' shapes Γ' s₂ →
      Expression.Typed Γ' s₂ body body' bodyType s₃ →
      result'.equivalent bodyType = true →
      Declaration.Typed Γ s (.func span duplicated name parameters result body)
        (.func span false (name.link s₁.bindings) parameters' result' body')
        (Γ.enter name.spelling s₁.bindings (.func shapes result')) s₃
  | type {Γ s span duplicated name type type' s'} :
      type.Typed Γ s type' s' →
      ¬ Γ.Declares name.spelling →
      Declaration.Typed Γ s (.type span duplicated name type)
        (.type span false (name.link s'.bindings) type')
        (Γ.enter name.spelling s'.bindings (.type type')) s'.bind
  | sequence {Γ s span first second first' Γ' s' second' Γ'' s''} :
      Declaration.Typed Γ s first first' Γ' s' →
      Declaration.Typed Γ' s' second second' Γ'' s'' →
      Declaration.Typed Γ s (.sequence span first second) (.sequence span first' second') Γ'' s''

/-- The parameters fit the shapes, one for one. -/
inductive Actuals.Typed : Env → Supply → Actuals → Signature → Actuals → Supply → Prop
  | empty {Γ s span} : Actuals.Typed Γ s (.empty span) [] (.empty span) s
  | one {Γ s span first shape first' s'} :
      Actual.Typed Γ s first shape first' s' →
      Actuals.Typed Γ s (.one span first) [shape] (.one span first') s'
  | more {Γ s span first rest shape next others first' s' rest' s''} :
      Actual.Typed Γ s first shape first' s' →
      Actuals.Typed Γ s' rest (next :: others) rest' s'' →
      Actuals.Typed Γ s (.more span first rest) (shape :: next :: others)
        (.more span first' rest') s''

inductive Actual.Typed : Env → Supply → Actual → FormalShape → Actual → Supply → Prop
  | const {Γ s span value expected value' type s'} :
      Expression.Typed Γ s value value' type s' →
      expected.equivalent type = true →
      Actual.Typed Γ s (.const span value) (.const expected) (.const span value') s'
  | var {Γ s span found expected found' type s'} :
      Vname.Typed Γ s found found' type s' →
      found'.isVariable = true →
      expected.equivalent type = true →
      Actual.Typed Γ s (.var span found) (.var expected) (.var span found') s'
  | proc {Γ s span name expected id shapes} :
      Γ.find? name.spelling = some (id, .proc shapes) →
      Signature.equivalent expected shapes = true →
      Actual.Typed Γ s (.proc span name) (.proc expected) (.proc span (name.link id)) s
  | func {Γ s span name expected expectedResult id shapes result} :
      Γ.find? name.spelling = some (id, .func shapes result) →
      Signature.equivalent expected shapes = true →
      expectedResult.equivalent result = true →
      Actual.Typed Γ s (.func span name) (.func expected expectedResult)
        (.func span (name.link id)) s

end

/-! ## Programs -/

/-- The supply that the parts of a program draw on. Its parser has given the
    first numbers of denoters to denoters that no type refers to. -/
def Program.supply (program : Program) : Supply :=
  ⟨Standard.bindings.size, List.replicate program.serials .error⟩

/-- The program is well typed, and `decorated` is its decoration. -/
inductive Program.Typed : Program → Program → Prop
  | command {command span serials command' s'} :
      Command.Typed Env.standard (Program.supply ⟨command, span, serials⟩) command command' s' →
      Program.Typed ⟨command, span, serials⟩ ⟨command', span, s'.denoters.length⟩

end TriangleTam
