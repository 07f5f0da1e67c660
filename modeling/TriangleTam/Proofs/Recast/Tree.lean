import TriangleTam.Code.Layout
import TriangleTam.Tree

/-! # Recasting

  A tree can be **recast**: its names are spelled in another way, its parts
  stand on other lines, and its type denoters have other serials. No two
  spellings become one, and literals keep theirs.

  What a pass makes of a recast tree is what it makes of the tree, recast.
  So nothing that a compilation is about hangs on spellings, lines or serials.
-/

namespace TriangleTam

/-- Another way to spell names, to place things and to number denoters. -/
structure Recast where
  spelling : String → String := id
  span     : Span → Span := id
  serial   : Nat → Nat := id
  /-- Different spellings stay different. -/
  injective : Function.Injective spelling := by exact Function.injective_id
  /-- What names nothing still names nothing. -/
  empty    : spelling "" = "" := by exact id_eq _

namespace Recast

variable (f : Recast)

@[simp] theorem spelling_eq_iff {a b : String} : f.spelling a = f.spelling b ↔ a = b :=
  f.injective.eq_iff

@[simp] theorem spelling_empty : f.spelling "" = "" := f.empty

@[simp] theorem spelling_beq (a b : String) : (f.spelling a == f.spelling b) = (a == b) := by
  rw [Bool.eq_iff_iff, beq_iff_eq, beq_iff_eq, f.spelling_eq_iff]

end Recast

/-! ## Leaves -/

def Name.recast (f : Recast) (name : Name) : Name :=
  { name with spelling := f.spelling name.spelling, span := f.span name.span }

def IntegerLiteral.recast (f : Recast) (literal : IntegerLiteral) : IntegerLiteral :=
  { literal with span := f.span literal.span }

def CharacterLiteral.recast (f : Recast) (literal : CharacterLiteral) : CharacterLiteral :=
  { literal with span := f.span literal.span }

section leaves

variable (f : Recast)

@[simp] theorem Name.spelling_recast (name : Name) :
    (name.recast f).spelling = f.spelling name.spelling := rfl

@[simp] theorem Name.span_recast (name : Name) : (name.recast f).span = f.span name.span := rfl

@[simp] theorem Name.binding_recast (name : Name) : (name.recast f).binding = name.binding := rfl

@[simp] theorem IntegerLiteral.value_recast (literal : IntegerLiteral) :
    (literal.recast f).value = literal.value := rfl

@[simp] theorem CharacterLiteral.value_recast (literal : CharacterLiteral) :
    (literal.recast f).value = literal.value := rfl

end leaves

/-! ## Type denoters -/

mutual

def TypeDenoter.recast (f : Recast) : TypeDenoter → TypeDenoter
  | .boolean => .boolean
  | .character => .character
  | .integer => .integer
  | .any => .any
  | .error => .error
  | .named span name => .named (f.span span) (name.recast f)
  | .array serial span length element =>
    .array (f.serial serial) (f.span span) (length.recast f) (element.recast f)
  | .record serial span fields => .record (f.serial serial) (f.span span) (fields.recast f)

def Fields.recast (f : Recast) : Fields → Fields
  | .one span name type => .one (f.span span) (name.recast f) (type.recast f)
  | .more span name type rest =>
    .more (f.span span) (name.recast f) (type.recast f) (rest.recast f)

end

section types

variable (f : Recast)

mutual

/-- Sizes do not depend on how things are named, placed and numbered. -/
@[simp] theorem TypeDenoter.size_recast : ∀ type : TypeDenoter, (type.recast f).size = type.size
  | .boolean | .character | .integer | .any | .error | .named .. => rfl
  | .array _ _ length element => by
    simp only [TypeDenoter.recast, TypeDenoter.size, TypeDenoter.size_recast element,
      IntegerLiteral.value_recast]
  | .record _ _ fields => by
    simp only [TypeDenoter.recast, TypeDenoter.size, Fields.extent_recast fields]

@[simp] theorem Fields.extent_recast : ∀ (fields : Fields) (offset : Int),
    (fields.recast f).extent offset = fields.extent offset
  | .one _ _ type, offset => by
    simp only [Fields.recast, Fields.extent, TypeDenoter.size_recast type]
  | .more _ _ type rest, offset => by
    simp only [Fields.recast, Fields.extent, TypeDenoter.size_recast type,
      Fields.extent_recast rest]

end

@[simp] theorem TypeDenoter.isError_recast (type : TypeDenoter) :
    (type.recast f).isError = type.isError := by
  cases type <;> rfl

@[simp] theorem TypeDenoter.isAny_recast (type : TypeDenoter) :
    (type.recast f).isAny = type.isAny := by
  cases type <;> rfl

mutual

@[simp] theorem TypeDenoter.equivalent_recast : ∀ a b : TypeDenoter,
    (a.recast f).equivalent (b.recast f) = a.equivalent b
  | .array _ _ _ element, b => by
    cases b with
    | array _ _ _ element' =>
      simp [TypeDenoter.recast, TypeDenoter.equivalent, TypeDenoter.equivalent_recast element]
    | _ => rfl
  | .record _ _ fields, b => by
    cases b with
    | record _ _ fields' =>
      simp [TypeDenoter.recast, TypeDenoter.equivalent, Fields.equivalent_recast fields]
    | _ => rfl
  | .named _ name, b => by
    cases b with
    | named _ name' => simp [TypeDenoter.recast, TypeDenoter.equivalent]
    | _ => rfl
  | .boolean, b | .character, b | .integer, b | .any, b | .error, b => by cases b <;> rfl

@[simp] theorem Fields.equivalent_recast : ∀ a b : Fields,
    (a.recast f).equivalent (b.recast f) = a.equivalent b
  | .one _ _ type, b => by
    cases b with
    | one _ _ type' =>
      simp [Fields.recast, Fields.equivalent, TypeDenoter.equivalent_recast type]
    | more => rfl
  | .more _ _ type rest, b => by
    cases b with
    | one => rfl
    | more _ _ type' rest' =>
      simp [Fields.recast, Fields.equivalent, TypeDenoter.equivalent_recast type,
        Fields.equivalent_recast rest]

end

@[simp] theorem TypeDenoter.compatible_recast (a b : TypeDenoter) :
    (a.recast f).compatible (b.recast f) = a.compatible b := by
  simp [TypeDenoter.compatible]

@[simp] theorem Fields.find?_recast (name : String) : ∀ fields : Fields,
    (fields.recast f).find? (f.spelling name) = (fields.find? name).map (·.recast f)
  | .one _ field type => by
    by_cases hname : field.spelling = name <;> simp [Fields.recast, Fields.find?, hname]
  | .more _ field type rest => by
    by_cases hname : field.spelling = name <;>
      simp [Fields.recast, Fields.find?, hname, Fields.find?_recast name rest]

@[simp] theorem Fields.offset?_recast (name : String) : ∀ (fields : Fields) (offset : Int),
    (fields.recast f).offset? (f.spelling name) offset = fields.offset? name offset
  | .one _ field type, offset => by simp [Fields.recast, Fields.offset?]
  | .more _ field type rest, offset => by
    simp [Fields.recast, Fields.offset?, Fields.offset?_recast name rest]

@[simp] theorem TypeDenoter.fieldOffset?_recast (name : String) (type : TypeDenoter) :
    (type.recast f).fieldOffset? (f.spelling name) = type.fieldOffset? name := by
  cases type with
  | record _ _ fields => exact fields.offset?_recast f name 0
  | _ => rfl

end types

/-! ## Trees -/

mutual

def Formal.recast (f : Recast) : Formal → Formal
  | .const span duplicated name type =>
    .const (f.span span) duplicated (name.recast f) (type.recast f)
  | .var span duplicated name type =>
    .var (f.span span) duplicated (name.recast f) (type.recast f)
  | .proc span duplicated name formals =>
    .proc (f.span span) duplicated (name.recast f) (formals.recast f)
  | .func span duplicated name formals result =>
    .func (f.span span) duplicated (name.recast f) (formals.recast f) (result.recast f)

def Formals.recast (f : Recast) : Formals → Formals
  | .empty span => .empty (f.span span)
  | .one span formal => .one (f.span span) (formal.recast f)
  | .more span formal rest => .more (f.span span) (formal.recast f) (rest.recast f)

end

mutual

def Command.recast (f : Recast) : Command → Command
  | .empty span => .empty (f.span span)
  | .assign span target value => .assign (f.span span) (target.recast f) (value.recast f)
  | .call span callee actuals => .call (f.span span) (callee.recast f) (actuals.recast f)
  | .sequence span first second => .sequence (f.span span) (first.recast f) (second.recast f)
  | .letIn span declaration body => .letIn (f.span span) (declaration.recast f) (body.recast f)
  | .ifElse span condition thenBranch elseBranch =>
    .ifElse (f.span span) (condition.recast f) (thenBranch.recast f) (elseBranch.recast f)
  | .whileDo span condition body => .whileDo (f.span span) (condition.recast f) (body.recast f)
  | .repeatUntil span body condition =>
    .repeatUntil (f.span span) (body.recast f) (condition.recast f)
  | .loopWhile span body condition tail =>
    .loopWhile (f.span span) (body.recast f) (condition.recast f) (tail.recast f)

def Expression.recast (f : Recast) : Expression → Expression
  | .integer span type literal =>
    .integer (f.span span) (type.map (·.recast f)) (literal.recast f)
  | .character span type literal =>
    .character (f.span span) (type.map (·.recast f)) (literal.recast f)
  | .vname span type vname => .vname (f.span span) (type.map (·.recast f)) (vname.recast f)
  | .call span type callee actuals =>
    .call (f.span span) (type.map (·.recast f)) (callee.recast f) (actuals.recast f)
  | .ifElse span type condition thenBranch elseBranch =>
    .ifElse (f.span span) (type.map (·.recast f)) (condition.recast f) (thenBranch.recast f)
      (elseBranch.recast f)
  | .letIn span type declaration body =>
    .letIn (f.span span) (type.map (·.recast f)) (declaration.recast f) (body.recast f)
  | .unary span type operator operand =>
    .unary (f.span span) (type.map (·.recast f)) (operator.recast f) (operand.recast f)
  | .binary span type left operator right =>
    .binary (f.span span) (type.map (·.recast f)) (left.recast f) (operator.recast f)
      (right.recast f)
  | .array span type elements =>
    .array (f.span span) (type.map (·.recast f)) (elements.recast f)
  | .record span type fields => .record (f.span span) (type.map (·.recast f)) (fields.recast f)

def ArrayAggregate.recast (f : Recast) : ArrayAggregate → ArrayAggregate
  | .one span element => .one (f.span span) (element.recast f)
  | .more span element rest => .more (f.span span) (element.recast f) (rest.recast f)

def RecordAggregate.recast (f : Recast) : RecordAggregate → RecordAggregate
  | .one span field value => .one (f.span span) (field.recast f) (value.recast f)
  | .more span field value rest =>
    .more (f.span span) (field.recast f) (value.recast f) (rest.recast f)

def Vname.recast (f : Recast) : Vname → Vname
  | .simple span type isVariable name =>
    .simple (f.span span) (type.map (·.recast f)) isVariable (name.recast f)
  | .dot span type isVariable record field =>
    .dot (f.span span) (type.map (·.recast f)) isVariable (record.recast f) (field.recast f)
  | .subscript span type isVariable array index =>
    .subscript (f.span span) (type.map (·.recast f)) isVariable (array.recast f) (index.recast f)

def Declaration.recast (f : Recast) : Declaration → Declaration
  | .const span duplicated name value =>
    .const (f.span span) duplicated (name.recast f) (value.recast f)
  | .var span duplicated name type =>
    .var (f.span span) duplicated (name.recast f) (type.recast f)
  | .proc span duplicated name formals body =>
    .proc (f.span span) duplicated (name.recast f) (formals.recast f) (body.recast f)
  | .func span duplicated name formals result body =>
    .func (f.span span) duplicated (name.recast f) (formals.recast f) (result.recast f)
      (body.recast f)
  | .type span duplicated name type =>
    .type (f.span span) duplicated (name.recast f) (type.recast f)
  | .sequence span first second => .sequence (f.span span) (first.recast f) (second.recast f)

def Actuals.recast (f : Recast) : Actuals → Actuals
  | .empty span => .empty (f.span span)
  | .one span actual => .one (f.span span) (actual.recast f)
  | .more span actual rest => .more (f.span span) (actual.recast f) (rest.recast f)

def Actual.recast (f : Recast) : Actual → Actual
  | .const span value => .const (f.span span) (value.recast f)
  | .var span vname => .var (f.span span) (vname.recast f)
  | .proc span name => .proc (f.span span) (name.recast f)
  | .func span name => .func (f.span span) (name.recast f)

end

/-- As many serials are given, whatever they are. -/
def Program.recast (f : Recast) (program : Program) : Program :=
  { program with command := program.command.recast f, span := f.span program.span }

section parts

variable (f : Recast)

@[simp] theorem Command.span_recast (command : Command) :
    (command.recast f).span = f.span command.span := by
  cases command <;> rfl

@[simp] theorem Expression.span_recast (expression : Expression) :
    (expression.recast f).span = f.span expression.span := by
  cases expression <;> rfl

@[simp] theorem Expression.type_recast (expression : Expression) :
    (expression.recast f).type = expression.type.map (·.recast f) := by
  cases expression <;> rfl

@[simp] theorem Expression.integerValue?_recast (expression : Expression) :
    (expression.recast f).integerValue? = expression.integerValue? := by
  cases expression <;> rfl

@[simp] theorem Expression.literalValue?_recast (expression : Expression) :
    (expression.recast f).literalValue? = expression.literalValue? := by
  cases expression <;> rfl

@[simp] theorem Vname.span_recast (vname : Vname) : (vname.recast f).span = f.span vname.span := by
  cases vname <;> rfl

@[simp] theorem Vname.type_recast (vname : Vname) :
    (vname.recast f).type = vname.type.map (·.recast f) := by
  cases vname <;> rfl

@[simp] theorem Vname.isVariable_recast (vname : Vname) :
    (vname.recast f).isVariable = vname.isVariable := by
  cases vname <;> rfl

@[simp] theorem ArrayAggregate.count_recast (elements : ArrayAggregate) :
    (elements.recast f).count = elements.count := by
  cases elements with
  | one => rfl
  | more _ _ rest =>
    simp only [ArrayAggregate.recast, ArrayAggregate.count, ArrayAggregate.count_recast rest]

end parts

/-! ## Recasting nothing -/

namespace Recast

/-- Everything stays as it is. -/
def same : Recast := {}

end Recast

section same

@[simp] theorem Name.recast_same (name : Name) : name.recast .same = name := rfl

@[simp] theorem IntegerLiteral.recast_same (literal : IntegerLiteral) :
    literal.recast .same = literal := rfl

@[simp] theorem CharacterLiteral.recast_same (literal : CharacterLiteral) :
    literal.recast .same = literal := rfl

mutual

@[simp] theorem TypeDenoter.recast_same (type : TypeDenoter) : type.recast .same = type := by
  cases type with
  | boolean | character | integer | any | error | named => rfl
  | array _ _ _ element =>
    rw [TypeDenoter.recast, TypeDenoter.recast_same element]
    rfl
  | record _ _ fields =>
    rw [TypeDenoter.recast, Fields.recast_same fields]
    rfl

@[simp] theorem Fields.recast_same (fields : Fields) : fields.recast .same = fields := by
  cases fields with
  | one _ _ type =>
    rw [Fields.recast, TypeDenoter.recast_same type]
    rfl
  | more _ _ type rest =>
    rw [Fields.recast, TypeDenoter.recast_same type, Fields.recast_same rest]
    rfl

end

@[simp] theorem TypeDenoter.map_recast_same (type : Option TypeDenoter) :
    type.map (·.recast .same) = type := by
  cases type <;> simp

@[simp] theorem Recast.span_same (span : Span) : Recast.same.span span = span := rfl

mutual

@[simp] theorem Formal.recast_same (formal : Formal) : formal.recast .same = formal := by
  cases formal with
  | const | var => simp [Formal.recast]
  | proc _ _ _ formals | func _ _ _ formals _ =>
    simp [Formal.recast, Formals.recast_same formals]

@[simp] theorem Formals.recast_same (formals : Formals) : formals.recast .same = formals := by
  cases formals with
  | empty => rfl
  | one _ formal => simp [Formals.recast, Formal.recast_same formal]
  | more _ formal rest =>
    simp [Formals.recast, Formal.recast_same formal, Formals.recast_same rest]

end

mutual

@[simp] theorem Command.recast_same (command : Command) : command.recast .same = command := by
  cases command with
  | empty => rfl
  | assign _ target value =>
    simp [Command.recast, Vname.recast_same target, Expression.recast_same value]
  | call _ _ args => simp [Command.recast, Actuals.recast_same args]
  | sequence _ first second =>
    simp [Command.recast, Command.recast_same first, Command.recast_same second]
  | letIn _ declared body =>
    simp [Command.recast, Declaration.recast_same declared, Command.recast_same body]
  | ifElse _ condition thenBranch elseBranch =>
    simp [Command.recast, Expression.recast_same condition, Command.recast_same thenBranch,
      Command.recast_same elseBranch]
  | whileDo _ condition body | repeatUntil _ body condition =>
    simp [Command.recast, Expression.recast_same condition, Command.recast_same body]
  | loopWhile _ body condition tail =>
    simp [Command.recast, Command.recast_same body, Expression.recast_same condition,
      Command.recast_same tail]

@[simp] theorem Expression.recast_same (expression : Expression) :
    expression.recast .same = expression := by
  cases expression with
  | integer | character => simp [Expression.recast]
  | vname _ _ found => simp [Expression.recast, Vname.recast_same found]
  | call _ _ _ args => simp [Expression.recast, Actuals.recast_same args]
  | ifElse _ _ condition thenBranch elseBranch =>
    simp [Expression.recast, Expression.recast_same condition,
      Expression.recast_same thenBranch, Expression.recast_same elseBranch]
  | letIn _ _ declared body =>
    simp [Expression.recast, Declaration.recast_same declared, Expression.recast_same body]
  | unary _ _ _ operand => simp [Expression.recast, Expression.recast_same operand]
  | binary _ _ left _ right =>
    simp [Expression.recast, Expression.recast_same left, Expression.recast_same right]
  | array _ _ elements => simp [Expression.recast, ArrayAggregate.recast_same elements]
  | record _ _ fields => simp [Expression.recast, RecordAggregate.recast_same fields]

@[simp] theorem ArrayAggregate.recast_same (elements : ArrayAggregate) :
    elements.recast .same = elements := by
  cases elements with
  | one _ element => simp [ArrayAggregate.recast, Expression.recast_same element]
  | more _ element rest =>
    simp [ArrayAggregate.recast, Expression.recast_same element, ArrayAggregate.recast_same rest]

@[simp] theorem RecordAggregate.recast_same (fields : RecordAggregate) :
    fields.recast .same = fields := by
  cases fields with
  | one _ _ value => simp [RecordAggregate.recast, Expression.recast_same value]
  | more _ _ value rest =>
    simp [RecordAggregate.recast, Expression.recast_same value, RecordAggregate.recast_same rest]

@[simp] theorem Vname.recast_same (vname : Vname) : vname.recast .same = vname := by
  cases vname with
  | simple => simp [Vname.recast]
  | dot _ _ _ record _ => simp [Vname.recast, Vname.recast_same record]
  | subscript _ _ _ array index =>
    simp [Vname.recast, Vname.recast_same array, Expression.recast_same index]

@[simp] theorem Declaration.recast_same (declaration : Declaration) :
    declaration.recast .same = declaration := by
  cases declaration with
  | const _ _ _ value => simp [Declaration.recast, Expression.recast_same value]
  | var | type => simp [Declaration.recast]
  | proc _ _ _ _ body => simp [Declaration.recast, Command.recast_same body]
  | func _ _ _ _ _ body => simp [Declaration.recast, Expression.recast_same body]
  | sequence _ first second =>
    simp [Declaration.recast, Declaration.recast_same first, Declaration.recast_same second]

@[simp] theorem Actuals.recast_same (actuals : Actuals) : actuals.recast .same = actuals := by
  cases actuals with
  | empty => rfl
  | one _ actual => simp [Actuals.recast, Actual.recast_same actual]
  | more _ actual rest =>
    simp [Actuals.recast, Actual.recast_same actual, Actuals.recast_same rest]

@[simp] theorem Actual.recast_same (actual : Actual) : actual.recast .same = actual := by
  cases actual with
  | const _ value => simp [Actual.recast, Expression.recast_same value]
  | var _ found => simp [Actual.recast, Vname.recast_same found]
  | proc | func => rfl

end

end same

end TriangleTam
