import TriangleTam.Proofs.Recast.Tree
import TriangleTam.Proofs.Spans.Nodes
import TriangleTam.Proofs.Typing.Decoration

/-! # Moving the nodes of a tree

  A tree is **moved** if its nodes get other spans and all else stays. The
  types that are found of expressions have spans too, those of the denoters
  that they are written with. A tree in which no type is found yet has no spans
  but those of its nodes, and stays as it is if these stay.
-/

namespace TriangleTam

open Spans

/-- Nodes get other spans. -/
def Recast.moving (move : Span → Span) : Recast := { span := move }

section moving

variable {move : Span → Span}

@[simp] theorem Recast.spelling_moving (spelling : String) :
    (Recast.moving move).spelling spelling = spelling := rfl

@[simp] theorem Recast.span_moving (span : Span) : (Recast.moving move).span span = move span := rfl

@[simp] theorem Recast.serial_moving (serial : Nat) :
    (Recast.moving move).serial serial = serial := rfl

/-! ## Nodes that stay -/

/-- The node and all nodes below it keep their spans. -/
def Spans.Node.Stays (move : Span → Span) (node : Node) : Prop :=
  ∀ inner, node.Has inner → move inner.span = inner.span

namespace Spans.Node.Stays

variable {node child : Node}

/-- The span of the node itself. -/
theorem keeps (h : node.Stays move) (span : Span) (hspan : node.span = span := by rfl) :
    move span = span :=
  hspan ▸ h node (.root node)

theorem below (h : node.Stays move) (hmem : child ∈ node.children) : child.Stays move :=
  fun inner hhas => h inner (.inside hmem hhas)

end Spans.Node.Stays

theorem Name.recast_moving {kind : TokenKind} {name : Name} (h : (Node.name kind name).Stays move) :
    name.recast (.moving move) = name := by
  simp [Name.recast, h.keeps name.span]

theorem IntegerLiteral.recast_moving {literal : IntegerLiteral}
    (h : (Node.integer literal).Stays move) : literal.recast (.moving move) = literal := by
  simp [IntegerLiteral.recast, h.keeps literal.span]

theorem CharacterLiteral.recast_moving {literal : CharacterLiteral}
    (h : (Node.character literal).Stays move) : literal.recast (.moving move) = literal := by
  simp [CharacterLiteral.recast, h.keeps literal.span]

/-! ## Type denoters and formal parameters -/

mutual

theorem TypeDenoter.recast_moving (type : TypeDenoter) (h : (Node.type type).Stays move) :
    type.recast (.moving move) = type := by
  cases type with
  | boolean | character | integer | any | error => rfl
  | named span name =>
    simp [TypeDenoter.recast, h.keeps span, Name.recast_moving (h.below (.head _))]
  | array _ span length element =>
    simp [TypeDenoter.recast, h.keeps span, IntegerLiteral.recast_moving (h.below (.head _)),
      TypeDenoter.recast_moving element (h.below (.tail _ (.head _)))]
  | record _ span fields =>
    simp [TypeDenoter.recast, h.keeps span, Fields.recast_moving fields (h.below (.head _))]

theorem Fields.recast_moving (fields : Fields) (h : (Node.fields fields).Stays move) :
    fields.recast (.moving move) = fields := by
  cases fields with
  | one span name type =>
    simp [Fields.recast, h.keeps span, Name.recast_moving (h.below (.head _)),
      TypeDenoter.recast_moving type (h.below (.tail _ (.head _)))]
  | more span name type rest =>
    simp [Fields.recast, h.keeps span, Name.recast_moving (h.below (.head _)),
      TypeDenoter.recast_moving type (h.below (.tail _ (.head _))),
      Fields.recast_moving rest (h.below (.tail _ (.tail _ (.head _))))]

end

mutual

theorem Formal.recast_moving (formal : Formal) (h : (Node.formal formal).Stays move) :
    formal.recast (.moving move) = formal := by
  cases formal with
  | const span _ name type | var span _ name type =>
    simp [Formal.recast, h.keeps span, Name.recast_moving (h.below (.head _)),
      TypeDenoter.recast_moving type (h.below (.tail _ (.head _)))]
  | proc span _ name formals =>
    simp [Formal.recast, h.keeps span, Name.recast_moving (h.below (.head _)),
      Formals.recast_moving formals (h.below (.tail _ (.head _)))]
  | func span _ name formals result =>
    simp [Formal.recast, h.keeps span, Name.recast_moving (h.below (.head _)),
      Formals.recast_moving formals (h.below (.tail _ (.head _))),
      TypeDenoter.recast_moving result (h.below (.tail _ (.tail _ (.head _))))]

theorem Formals.recast_moving (formals : Formals) (h : (Node.formals formals).Stays move) :
    formals.recast (.moving move) = formals := by
  cases formals with
  | empty span =>
    simp [Formals.recast, h.keeps span]
  | one span formal =>
    simp [Formals.recast, h.keeps span, Formal.recast_moving formal (h.below (.head _))]
  | more span formal rest =>
    simp [Formals.recast, h.keeps span, Formal.recast_moving formal (h.below (.head _)),
      Formals.recast_moving rest (h.below (.tail _ (.head _)))]

end

/-! ## Commands, expressions and declarations -/

/-- Whatever the denoters in a tree are. -/
private abbrev anyhow : TypeDenoter → Prop := fun _ => True

/-- The types in the tree are to be found yet. -/
private abbrev unknown : Option TypeDenoter → Prop := fun type => type = none

mutual

theorem Command.recast_moving (command : Command) (h : (Node.command command).Stays move)
    (hunknown : command.All anyhow unknown) : command.recast (.moving move) = command := by
  cases command with
  | empty span =>
    simp [Command.recast, h.keeps span]
  | assign span target value =>
    obtain ⟨htarget, hvalue⟩ := hunknown
    simp [Command.recast, h.keeps span, Vname.recast_moving target (h.below (.head _)) htarget,
      Expression.recast_moving value (h.below (.tail _ (.head _))) hvalue]
  | call span callee args =>
    simp [Command.recast, h.keeps span, Name.recast_moving (h.below (.head _)),
      Actuals.recast_moving args (h.below (.tail _ (.head _))) hunknown]
  | sequence span first second =>
    obtain ⟨hfirst, hsecond⟩ := hunknown
    simp [Command.recast, h.keeps span, Command.recast_moving first (h.below (.head _)) hfirst,
      Command.recast_moving second (h.below (.tail _ (.head _))) hsecond]
  | letIn span declared body =>
    obtain ⟨hdeclared, hbody⟩ := hunknown
    simp [Command.recast, h.keeps span,
      Declaration.recast_moving declared (h.below (.head _)) hdeclared,
      Command.recast_moving body (h.below (.tail _ (.head _))) hbody]
  | ifElse span condition thenBranch elseBranch =>
    obtain ⟨hcondition, hthen, helse⟩ := hunknown
    simp [Command.recast, h.keeps span,
      Expression.recast_moving condition (h.below (.head _)) hcondition,
      Command.recast_moving thenBranch (h.below (.tail _ (.head _))) hthen,
      Command.recast_moving elseBranch (h.below (.tail _ (.tail _ (.head _)))) helse]
  | whileDo span condition body =>
    obtain ⟨hcondition, hbody⟩ := hunknown
    simp [Command.recast, h.keeps span,
      Expression.recast_moving condition (h.below (.head _)) hcondition,
      Command.recast_moving body (h.below (.tail _ (.head _))) hbody]
  | repeatUntil span body condition =>
    obtain ⟨hbody, hcondition⟩ := hunknown
    simp [Command.recast, h.keeps span, Command.recast_moving body (h.below (.head _)) hbody,
      Expression.recast_moving condition (h.below (.tail _ (.head _))) hcondition]
  | loopWhile span body condition tail =>
    obtain ⟨hbody, hcondition, htail⟩ := hunknown
    simp [Command.recast, h.keeps span, Command.recast_moving body (h.below (.head _)) hbody,
      Expression.recast_moving condition (h.below (.tail _ (.head _))) hcondition,
      Command.recast_moving tail (h.below (.tail _ (.tail _ (.head _)))) htail]

theorem Expression.recast_moving (expression : Expression)
    (h : (Node.expression expression).Stays move) (hunknown : expression.All anyhow unknown) :
    expression.recast (.moving move) = expression := by
  -- without a type only spans are left to move, and these stay
  have htype : expression.type = none := hunknown.type
  cases expression with
  | integer span type literal =>
    obtain rfl : type = none := htype
    simp [Expression.recast, h.keeps span, IntegerLiteral.recast_moving (h.below (.head _))]
  | character span type literal =>
    obtain rfl : type = none := htype
    simp [Expression.recast, h.keeps span, CharacterLiteral.recast_moving (h.below (.head _))]
  | vname span type found =>
    obtain rfl : type = none := htype
    simp [Expression.recast, h.keeps span, Vname.recast_moving found (h.below (.head _)) hunknown.2]
  | call span type callee args =>
    obtain rfl : type = none := htype
    simp [Expression.recast, h.keeps span, Name.recast_moving (h.below (.head _)),
      Actuals.recast_moving args (h.below (.tail _ (.head _))) hunknown.2]
  | ifElse span type condition thenBranch elseBranch =>
    obtain rfl : type = none := htype
    obtain ⟨-, hcondition, hthen, helse⟩ := hunknown
    simp [Expression.recast, h.keeps span,
      Expression.recast_moving condition (h.below (.head _)) hcondition,
      Expression.recast_moving thenBranch (h.below (.tail _ (.head _))) hthen,
      Expression.recast_moving elseBranch (h.below (.tail _ (.tail _ (.head _)))) helse]
  | letIn span type declared body =>
    obtain rfl : type = none := htype
    obtain ⟨-, hdeclared, hbody⟩ := hunknown
    simp [Expression.recast, h.keeps span,
      Declaration.recast_moving declared (h.below (.head _)) hdeclared,
      Expression.recast_moving body (h.below (.tail _ (.head _))) hbody]
  | unary span type operator operand =>
    obtain rfl : type = none := htype
    simp [Expression.recast, h.keeps span, Name.recast_moving (h.below (.head _)),
      Expression.recast_moving operand (h.below (.tail _ (.head _))) hunknown.2]
  | binary span type left operator right =>
    obtain rfl : type = none := htype
    obtain ⟨-, hleft, hright⟩ := hunknown
    simp [Expression.recast, h.keeps span, Expression.recast_moving left (h.below (.head _)) hleft,
      Name.recast_moving (h.below (.tail _ (.head _))),
      Expression.recast_moving right (h.below (.tail _ (.tail _ (.head _)))) hright]
  | array span type elements =>
    obtain rfl : type = none := htype
    simp [Expression.recast, h.keeps span,
      ArrayAggregate.recast_moving elements (h.below (.head _)) hunknown.2]
  | record span type fields =>
    obtain rfl : type = none := htype
    simp [Expression.recast, h.keeps span,
      RecordAggregate.recast_moving fields (h.below (.head _)) hunknown.2]

theorem ArrayAggregate.recast_moving (elements : ArrayAggregate)
    (h : (Node.elements elements).Stays move) (hunknown : elements.All anyhow unknown) :
    elements.recast (.moving move) = elements := by
  cases elements with
  | one span element =>
    simp [ArrayAggregate.recast, h.keeps span,
      Expression.recast_moving element (h.below (.head _)) hunknown]
  | more span element rest =>
    simp [ArrayAggregate.recast, h.keeps span,
      Expression.recast_moving element (h.below (.head _)) hunknown.1,
      ArrayAggregate.recast_moving rest (h.below (.tail _ (.head _))) hunknown.2]

theorem RecordAggregate.recast_moving (fields : RecordAggregate)
    (h : (Node.values fields).Stays move) (hunknown : fields.All anyhow unknown) :
    fields.recast (.moving move) = fields := by
  cases fields with
  | one span field value =>
    simp [RecordAggregate.recast, h.keeps span, Name.recast_moving (h.below (.head _)),
      Expression.recast_moving value (h.below (.tail _ (.head _))) hunknown]
  | more span field value rest =>
    simp [RecordAggregate.recast, h.keeps span, Name.recast_moving (h.below (.head _)),
      Expression.recast_moving value (h.below (.tail _ (.head _))) hunknown.1,
      RecordAggregate.recast_moving rest (h.below (.tail _ (.tail _ (.head _)))) hunknown.2]

theorem Vname.recast_moving (vname : Vname) (h : (Node.vname vname).Stays move)
    (hunknown : vname.All anyhow unknown) : vname.recast (.moving move) = vname := by
  have htype : vname.type = none := hunknown.type
  cases vname with
  | simple span type _ name =>
    obtain rfl : type = none := htype
    simp [Vname.recast, h.keeps span, Name.recast_moving (h.below (.head _))]
  | dot span type _ record field =>
    obtain rfl : type = none := htype
    simp [Vname.recast, h.keeps span, Vname.recast_moving record (h.below (.head _)) hunknown.2,
      Name.recast_moving (h.below (.tail _ (.head _)))]
  | subscript span type _ array index =>
    obtain rfl : type = none := htype
    obtain ⟨-, harray, hindex⟩ := hunknown
    simp [Vname.recast, h.keeps span, Vname.recast_moving array (h.below (.head _)) harray,
      Expression.recast_moving index (h.below (.tail _ (.head _))) hindex]

theorem Declaration.recast_moving (declaration : Declaration)
    (h : (Node.declaration declaration).Stays move) (hunknown : declaration.All anyhow unknown) :
    declaration.recast (.moving move) = declaration := by
  cases declaration with
  | const span _ name value =>
    simp [Declaration.recast, h.keeps span, Name.recast_moving (h.below (.head _)),
      Expression.recast_moving value (h.below (.tail _ (.head _))) hunknown]
  | var span _ name type | type span _ name type =>
    simp [Declaration.recast, h.keeps span, Name.recast_moving (h.below (.head _)),
      TypeDenoter.recast_moving type (h.below (.tail _ (.head _)))]
  | proc span _ name formals body =>
    simp [Declaration.recast, h.keeps span, Name.recast_moving (h.below (.head _)),
      Formals.recast_moving formals (h.below (.tail _ (.head _))),
      Command.recast_moving body (h.below (.tail _ (.tail _ (.head _)))) hunknown.2]
  | func span _ name formals result body =>
    simp [Declaration.recast, h.keeps span, Name.recast_moving (h.below (.head _)),
      Formals.recast_moving formals (h.below (.tail _ (.head _))),
      TypeDenoter.recast_moving result (h.below (.tail _ (.tail _ (.head _)))),
      Expression.recast_moving body (h.below (.tail _ (.tail _ (.tail _ (.head _)))))
        hunknown.2.2]
  | sequence span first second =>
    obtain ⟨hfirst, hsecond⟩ := hunknown
    simp [Declaration.recast, h.keeps span,
      Declaration.recast_moving first (h.below (.head _)) hfirst,
      Declaration.recast_moving second (h.below (.tail _ (.head _))) hsecond]

theorem Actuals.recast_moving (actuals : Actuals) (h : (Node.actuals actuals).Stays move)
    (hunknown : actuals.All anyhow unknown) : actuals.recast (.moving move) = actuals := by
  cases actuals with
  | empty span =>
    simp [Actuals.recast, h.keeps span]
  | one span actual =>
    simp [Actuals.recast, h.keeps span, Actual.recast_moving actual (h.below (.head _)) hunknown]
  | more span actual rest =>
    simp [Actuals.recast, h.keeps span, Actual.recast_moving actual (h.below (.head _)) hunknown.1,
      Actuals.recast_moving rest (h.below (.tail _ (.head _))) hunknown.2]

theorem Actual.recast_moving (actual : Actual) (h : (Node.actual actual).Stays move)
    (hunknown : actual.All anyhow unknown) : actual.recast (.moving move) = actual := by
  cases actual with
  | const span value =>
    simp [Actual.recast, h.keeps span, Expression.recast_moving value (h.below (.head _)) hunknown]
  | var span found =>
    simp [Actual.recast, h.keeps span, Vname.recast_moving found (h.below (.head _)) hunknown]
  | proc span name | func span name =>
    simp [Actual.recast, h.keeps span, Name.recast_moving (h.below (.head _))]

end

/-- A program whose nodes keep their spans stays as it is, if no type in it is found yet. -/
theorem Program.recast_moving {program : Program} (h : (Node.program program).Stays move)
    (hunknown : program.command.All (fun _ => True) fun type => type = none) :
    program.recast (.moving move) = program := by
  simp [Program.recast, h.keeps program.span, Command.recast_moving _ (h.below (.head _)) hunknown]

end moving

end TriangleTam
