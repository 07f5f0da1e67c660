import TriangleTam.Proofs.Folding.Declarations
import TriangleTam.Proofs.Typing.Folded

/-! # Trees of a folded program

  The encoder keeps pace on every folded tree with the ideal translation of the
  tree before, construct by construct. Only for a vname that strays the
  constructs leave a case open.
-/

namespace TriangleTam

variable {P : Prop}

/-! ## Environments of decorated trees -/

/-- The environment of a decorated tree: standard bindings are standard declarations, types are
    known, and the next binding is a new one. -/
structure Env.Founded (Γ : Env) (s : Supply) : Prop where
  standard : Γ.KeepsStandard
  numbers  : Standard.declarations.length ≤ s.bindings
  types    : Γ.TypesIn s.Knows
  below    : Γ.Below s.bindings

namespace Env.Founded

variable {Γ Γ' : Env} {s s' : Supply}

theorem later (h : Γ.Founded s) (hbefore : s.Before s') : Γ.Founded s' :=
  ⟨h.standard, Nat.le_trans h.numbers hbefore.bindings, h.types.later hbefore,
    h.below.mono hbefore.bindings⟩

theorem enclose (h : Γ.Founded s) : Γ.enclose.Founded s :=
  ⟨h.standard.enclose, h.numbers, h.types.enclose, h.below.enclose⟩

theorem declared (h : Γ.Founded s) {declaration declaration' : Declaration}
    (htyped : Declaration.Typed Γ s declaration declaration' Γ' s') : Γ'.Founded s' :=
  ⟨h.standard.extend h.numbers htyped.extends, Nat.le_trans h.numbers htyped.before.bindings,
    (htyped.known h.types).2, htyped.env_below h.below⟩

/-- What the body of a routine sees. -/
theorem body (h : Γ.Founded s) {name : String} {kind : BindingKind} {formals formals' : Formals}
    {shapes : Signature}
    (htyped : Formals.Typed (Γ.enter name s.bindings kind).enclose s.bind formals formals' shapes
      Γ' s') (hno : kind.Lives)
    (hkind : Signature.TypesIn s'.Knows shapes → kind.TypesIn s'.Knows) : Γ'.Founded s' := by
  have hbelow : (Γ.enter name s.bindings kind).Below s.bind.bindings :=
    h.below.enter (Nat.lt_succ_self _) (Nat.le_succ _)
  exact ⟨htyped.keepsStandard h.standard h.numbers,
    Nat.le_trans h.numbers (s.before_bind.trans htyped.before).bindings,
    (htyped.known_of_routine h.types hno hkind).2, htyped.env_below hbelow.enclose⟩

/-- What the parameters of a routine see has known type identifiers. -/
theorem names (h : Γ.Founded s) (name : String) {kind : BindingKind} (hno : kind.Lives) :
    (Γ.enter name s.bindings kind).enclose.NamesIn s.bind.Knows :=
  ((h.types.later s.before_bind).names.enter fun type heq => absurd heq (hno type)).enclose

end Env.Founded

/-! ## Expressions -/

/-- What becomes of an expression: the encoder keeps pace on it, and a literal is one that was there
    or an integer. -/
structure Expression.Folded (P : Prop) (Γ : Env) (n : Nat) (expression folded : Expression)
    (type : TypeDenoter) : Prop where
  eases   : Expression.Eases P Γ n expression folded type
  type_eq : folded.type = some type
  literal : folded = expression ∨ expression.literalValue? = none ∧
    ∀ value, folded.literalValue? = some value → folded.integerValue? = some value
  integer : ∀ value, folded.integerValue? = some value → type = .integer

namespace Expression.Folded

variable {Γ : Env} {n : Nat} {expression folded : Expression} {type : TypeDenoter}

/-- Neither is a literal. -/
theorem of_open (heases : Expression.Eases P Γ n expression folded type)
    (htype : folded.type = some type) (hopen : expression.literalValue? = none)
    (hopen' : folded.literalValue? = none) : Expression.Folded P Γ n expression folded type := by
  have hinteger (value : Int) : folded.integerValue? ≠ some value := fun h =>
    absurd (hopen'.symm.trans (Expression.literalValue?_of_integerValue? h)) nofun
  exact ⟨heases, htype, .inr ⟨hopen, fun value h => absurd (hopen'.symm.trans h) nofun⟩,
    fun value h => absurd h (hinteger value)⟩

/-- A literal stays as it is. -/
theorem eq_of_literal (h : Expression.Folded P Γ n expression folded type) {value : Int}
    (hliteral : expression.literalValue? = some value) : folded = expression := by
  rcases h.literal with heq | ⟨hopen, -⟩
  · exact heq
  · exact absurd (hopen.symm.trans hliteral) nofun

/-- A literal that is new is an integer. -/
theorem integer_of_literal (h : Expression.Folded P Γ n expression folded type)
    (hopen : expression.literalValue? = none) {value : Int}
    (hliteral : folded.literalValue? = some value) : folded.integerValue? = some value := by
  rcases h.literal with rfl | ⟨-, hinteger⟩
  · exact absurd (hopen.symm.trans hliteral) nofun
  · exact hinteger value hliteral

end Expression.Folded

theorem Fold.Gives.foldsTo {expression : Expression} {Q : Expression → Prop}
    (h : (Fold.expression expression).Gives Q) : (Fold.expression expression).Gives fun folded =>
      Q folded ∧ ∀ value, folded.integerValue? = some value → expression.FoldsTo value :=
  fun n => ⟨h n, fun _ hvalue => ⟨n, hvalue⟩⟩

/-- Folding a subscripted vname, whatever becomes of its subscript. -/
theorem Vname.Eases.subscript {Γ : Env} {n n' : Nat} {span : Span} {isVariable isVariable' : Bool}
    {array array' : Vname} {index index' : Expression} {serial : Nat} {arraySpan : Span}
    {length : IntegerLiteral} {element : TypeDenoter}
    (harray : Vname.Eases P Γ n array array' (.array serial arraySpan length element))
    (hindex : Expression.Folded P Γ n' index index' .integer) (hn : n ≤ n')
    (htype : array.type = some (.array serial arraySpan length element))
    (hfolds : ∀ value, index'.integerValue? = some value → index.FoldsTo value)
    (hwidth : 0 ≤ element.width)
    (hsteady : P ∨ ¬ (Vname.subscript span (some element) isVariable array index).Hardens ∨
      ¬ (Vname.subscript span (some element) isVariable array index).Oversteps) :
    Vname.Eases P Γ n (.subscript span (some element) isVariable array index)
      (.subscript span (some element) isVariable' array' index') element := by
  cases hvalue : index.integerValue? with
  | some value =>
    have hvalue' : index'.integerValue? = some value := by
      rw [hindex.eq_of_literal (Expression.literalValue?_of_integerValue? hvalue), hvalue]
    exact harray.subscript_literal htype hvalue hvalue' (hfolds value hvalue') hwidth hsteady
  | none =>
    cases hvalue' : index'.integerValue? with
    | some value =>
      exact harray.subscript_new hindex.eases hn htype hindex.type_eq hvalue hvalue'
        (hfolds value hvalue') hwidth hsteady
    | none => exact harray.subscript_open hindex.eases hn htype hvalue hvalue' hwidth

/-- Folding a constant, whatever becomes of its value. -/
theorem Declaration.Eases.const {Γ : Env} {n : Nat} {span : Span} {name : Name} {id : BindingId}
    {spelling : String} {value value' : Expression} {type : TypeDenoter}
    (hvalue : Expression.Folded P Γ n value value' type) (htype : value.type = some type)
    (hid : n ≤ id) (hwidth : 0 ≤ type.width) :
    Declaration.Eases P Γ n (Γ.enter spelling id (.const type))
      (.const span false (name.link id) value) (.const span false (name.link id) value') := by
  cases hliteral : value.literalValue? with
  | some known =>
    rw [hvalue.eq_of_literal hliteral]
    exact const_literal hliteral htype hid
  | none =>
    cases hliteral' : value'.literalValue? with
    | none => exact const_open hvalue.eases hliteral hliteral' hid hwidth
    | some known =>
      have hinteger := hvalue.integer_of_literal hliteral hliteral'
      have hscalar := hvalue.integer known hinteger
      exact const_known hvalue.eases hliteral hinteger (hscalar ▸ hvalue.type_eq) hscalar hid

/-- An operation on integers folds to a literal, or stays an operation. -/
theorem Expression.Folded.binary {Γ : Env} {n n' : Nat} {span : Span} {operator : Name}
    {id : BindingId} {expected expected' result leftType rightType : TypeDenoter}
    {left left' right right' : Expression} (hΓ : Γ.KeepsStandard)
    (hleft : Expression.Folded P Γ n left left' leftType)
    (hright : Expression.Folded P Γ n' right right' rightType) (hn : n ≤ n')
    (hwidth : 0 ≤ leftType.width)
    (hfind : Γ.find? operator.spelling = some (id, .binary expected expected' result)) :
    Fold.Gives (match Fold.value? left' (operator.link id) right' with
      | some value => do
        modify fun count => count + 1
        return Fold.literal left'.span value
      | none => return .binary span (some result) left' (operator.link id) right')
      fun folded => Expression.Folded P Γ n
        (.binary span (some result) left (operator.link id) right) folded result := by
  refine Fold.binary_gives ?_ fun value hvalue => ?_
  · exact .of_open (hleft.eases.binary hright.eases hn hwidth hfind nofun) rfl rfl rfl
  · obtain ⟨⟨a, ha⟩, ⟨b, hb⟩, _, p, hbinding, hfolds⟩ := Fold.of_value? hvalue
    obtain rfl : id = _ := Option.some.inj hbinding
    obtain rfl := hΓ.result_eq hfind hfolds
    have hleftType : left'.type = some .integer := hleft.integer a ha ▸ hleft.type_eq
    have hrightType : right'.type = some .integer := hright.integer b hb ▸ hright.type_eq
    exact ⟨hleft.eases.folded hright.eases hn hleftType hrightType ha hb hwidth, rfl,
      .inr ⟨rfl, fun _ h => h⟩, fun _ _ => rfl⟩

/-! ## Trees -/

open Fold.Gives in
mutual

theorem Command.Typed.eases {Γ : Env} {s s' : Supply} {command command' : Command}
    (hΓ : Γ.Founded s) (hsteady : (Phrase.command command').Steady P) :
    Command.Typed Γ s command command' s' →
    (Fold.command command').Gives (Command.Eases P Γ s.bindings command')
  | .empty => by
    rw [Fold.command]
    exact pure .empty
  | .assign htarget hvalue hvariable hequivalent => by
    have hbefore := htarget.before
    obtain ⟨hvalueSteady, htargetSteady⟩ := hsteady.all
    have hwidth := (htarget.known hΓ.types).2.width_nonneg
    rw [Fold.command]
    refine bind (htarget.eases hΓ htargetSteady) fun target ⟨htarget', _⟩ => ?_
    refine bind (hvalue.eases (hΓ.later hbefore) hvalueSteady) fun value hvalue' => ?_
    exact pure (.assign htarget' hvalue'.eases hbefore.bindings htargetSteady.of_vname hwidth
      hequivalent)
  | .call hfind hargs => by
    rw [Fold.command]
    refine bind (hargs.eases hΓ hsteady.all) fun args hargs' => ?_
    exact pure (.call hargs' hfind nofun)
  | .sequence hfirst hsecond => by
    have hbefore := hfirst.before
    obtain ⟨hfirstSteady, hsecondSteady⟩ := hsteady.all
    rw [Fold.command]
    refine bind (hfirst.eases hΓ hfirstSteady) fun first hfirst' => ?_
    refine bind (hsecond.eases (hΓ.later hbefore) hsecondSteady) fun second hsecond' => ?_
    exact pure (hfirst'.sequence hsecond' hbefore.bindings)
  | .letIn hdeclared hbody => by
    have hΓ' := hΓ.enclose.declared hdeclared
    obtain ⟨hdeclaredSteady, hbodySteady⟩ := hsteady.all
    rw [Fold.command]
    refine bind (hdeclared.eases hΓ.enclose hdeclaredSteady) fun declared hdeclared' => ?_
    refine bind (hbody.eases hΓ' hbodySteady) fun body hbody' => ?_
    exact pure (.letIn hdeclared' hbody' hdeclared.before.bindings hΓ'.below)
  | .ifElse hcondition hthen helse => by
    have hbefore := hcondition.before
    have hbefore' := hthen.before
    have hΓ₁ := hΓ.later hbefore
    obtain ⟨hconditionSteady, hthenSteady, helseSteady⟩ := hsteady.all
    rw [Fold.command]
    refine bind (hcondition.eases hΓ hconditionSteady) fun condition hcondition' => ?_
    refine bind (hthen.eases hΓ₁ hthenSteady) fun thenBranch hthen' => ?_
    refine bind (helse.eases (hΓ₁.later hbefore') helseSteady) fun elseBranch helse' => ?_
    exact pure (.ifElse hcondition'.eases hthen' helse' hbefore.bindings hbefore'.bindings)
  | .whileDo hcondition hbody => by
    have hbefore := hcondition.before
    -- encoding comes to the body first, and folding to the condition
    obtain ⟨hbodySteady, hconditionSteady⟩ := hsteady.all
    rw [Fold.command]
    refine bind (hcondition.eases hΓ hconditionSteady) fun condition hcondition' => ?_
    refine bind (hbody.eases (hΓ.later hbefore) hbodySteady) fun body hbody' => ?_
    exact pure (.whileDo hcondition'.eases hbody' hbefore.bindings)
  | .repeatUntil hbody hcondition => by
    have hbefore := hbody.before
    obtain ⟨hbodySteady, hconditionSteady⟩ := hsteady.all
    rw [Fold.command]
    refine bind (hcondition.eases (hΓ.later hbefore) hconditionSteady) fun condition h => ?_
    refine bind (hbody.eases hΓ hbodySteady) fun body hbody' => ?_
    exact pure (.repeatUntil hbody' h.eases hbefore.bindings)
  | .loopWhile hbody hcondition htail => by
    have hbefore := hbody.before
    have hbefore' := hcondition.before
    have hΓ₁ := hΓ.later hbefore
    obtain ⟨hbodySteady, hconditionSteady, htailSteady⟩ := hsteady.all
    rw [Fold.command]
    refine bind (hbody.eases hΓ hbodySteady) fun body hbody' => ?_
    refine bind (hcondition.eases hΓ₁ hconditionSteady) fun condition hcondition' => ?_
    refine bind (htail.eases (hΓ₁.later hbefore') htailSteady) fun tail htail' => ?_
    exact pure (.loopWhile hbody' hcondition'.eases htail' hbefore.bindings hbefore'.bindings)

theorem Expression.Typed.eases {Γ : Env} {s s' : Supply} {expression expression' : Expression}
    {type : TypeDenoter} (hΓ : Γ.Founded s)
    (hsteady : (Phrase.expression expression').Steady P) :
    Expression.Typed Γ s expression expression' type s' →
    (Fold.expression expression').Gives fun folded =>
      Expression.Folded P Γ s.bindings expression' folded type
  | .integer => by
    rw [Fold.expression]
    exact pure ⟨.integer, rfl, .inl rfl, fun _ _ => rfl⟩
  | .character => by
    rw [Fold.expression]
    exact pure ⟨.character, rfl, .inl rfl, nofun⟩
  | .vname hfound => by
    have hfoundSteady : (Phrase.vname _).Steady P := hsteady.all
    have hwidth := (hfound.known hΓ.types).2.width_nonneg
    rw [Fold.expression]
    refine bind (hfound.eases hΓ hfoundSteady) fun found ⟨hfound', _⟩ => ?_
    -- a vname is no literal, and folding leaves it one that is none
    exact pure (.of_open (.vname hfound' hfoundSteady.of_vname hwidth) rfl rfl rfl)
  | .call hfind hargs => by
    rw [Fold.expression]
    refine bind (hargs.eases hΓ hsteady.all) fun args hargs' => ?_
    exact pure (.of_open (.call hargs' hfind nofun) rfl rfl rfl)
  | .ifElse hcondition hthen helse hequivalent => by
    have hbefore := hcondition.before
    have hbefore' := hthen.before
    have hΓ₁ := hΓ.later hbefore
    obtain ⟨hconditionSteady, hthenSteady, helseSteady⟩ := hsteady.all
    rw [Fold.expression]
    refine bind (hcondition.eases hΓ hconditionSteady) fun condition hcondition' => ?_
    refine bind (hthen.eases hΓ₁ hthenSteady) fun thenBranch hthen' => ?_
    refine bind (helse.eases (hΓ₁.later hbefore') helseSteady) fun elseBranch helse' => ?_
    exact pure (.of_open (.ifElse hcondition'.eases hthen'.eases helse'.eases hbefore.bindings
      hbefore'.bindings hequivalent) rfl rfl rfl)
  | .letIn hdeclared hbody => by
    have hΓ' := hΓ.enclose.declared hdeclared
    obtain ⟨hdeclaredSteady, hbodySteady⟩ := hsteady.all
    rw [Fold.expression]
    refine bind (hdeclared.eases hΓ.enclose hdeclaredSteady) fun declared hdeclared' => ?_
    refine bind (hbody.eases hΓ' hbodySteady) fun body hbody' => ?_
    exact pure (.of_open (.letIn hdeclared' hbody'.eases hdeclared.before.bindings hΓ'.below)
      rfl rfl rfl)
  | .unary hoperand hfind hequivalent => by
    rw [Fold.expression]
    refine bind (hoperand.eases hΓ hsteady.all) fun operand hoperand' => ?_
    exact pure (.of_open (.unary hoperand'.eases hfind nofun) rfl rfl rfl)
  | .binary hleft hright hfind hequivalent hequivalent' => by
    have hbefore := hleft.before
    obtain ⟨hleftSteady, hrightSteady⟩ := hsteady.all
    have hwidth := (hleft.known hΓ.types).2.width_nonneg
    rw [Fold.expression]
    refine bind (hleft.eases hΓ hleftSteady) fun left hleft' => ?_
    refine bind (hright.eases (hΓ.later hbefore) hrightSteady) fun right hright' => ?_
    exact .binary hΓ.standard hleft' hright' hbefore.bindings hwidth hfind
  | .equality hleft hright hfind hequivalent => by
    have hbefore := hleft.before
    obtain ⟨hleftSteady, hrightSteady⟩ := hsteady.all
    have hwidth := (hleft.known hΓ.types).2.width_nonneg
    rw [Fold.expression]
    refine bind (hleft.eases hΓ hleftSteady) fun left hleft' => ?_
    refine bind (hright.eases (hΓ.later hbefore) hrightSteady) fun right hright' => ?_
    exact .binary hΓ.standard hleft' hright' hbefore.bindings hwidth hfind
  | .array helements => by
    have hwidth := (helements.known hΓ.types).2.width_nonneg
    have hcount := helements.count_eq
    rw [Fold.expression]
    refine bind (helements.eases hΓ hsteady.all) fun elements helements' => ?_
    exact pure (.of_open (.array helements' hwidth (by rw [hcount])) rfl rfl rfl)
  | .record hfields => by
    rw [Fold.expression]
    refine bind (hfields.eases hΓ hsteady.all) fun fields hfields' => ?_
    exact pure (.of_open (.record hfields') rfl rfl rfl)

theorem ArrayAggregate.Typed.eases {Γ : Env} {s s' : Supply}
    {elements elements' : ArrayAggregate} {type : TypeDenoter} (hΓ : Γ.Founded s)
    (hsteady : (Phrase.arrayAggregate elements').Steady P) :
    ArrayAggregate.Typed Γ s elements elements' type s' →
    (Fold.arrayAggregate elements').Gives fun folded =>
      ArrayAggregate.Eases P Γ s.bindings elements' folded type
  | .one helement => by
    rw [Fold.arrayAggregate]
    refine bind (helement.eases hΓ hsteady.all) fun element helement' => ?_
    exact pure (.one helement'.eases)
  | .more helement hrest hequivalent => by
    have hbefore := helement.before
    obtain ⟨helementSteady, hrestSteady⟩ := hsteady.all
    have hwidth := (helement.known hΓ.types).2.width_nonneg
    rw [Fold.arrayAggregate]
    refine bind (helement.eases hΓ helementSteady) fun element helement' => ?_
    refine bind (hrest.eases (hΓ.later hbefore) hrestSteady) fun rest hrest' => ?_
    exact pure (.more helement'.eases hrest' hbefore.bindings hwidth hequivalent)

theorem RecordAggregate.Typed.eases {Γ : Env} {s s' : Supply}
    {fields fields' : RecordAggregate} {types : Fields} (hΓ : Γ.Founded s)
    (hsteady : (Phrase.recordAggregate fields').Steady P) :
    RecordAggregate.Typed Γ s fields fields' types s' →
    (Fold.recordAggregate fields').Gives fun folded =>
      RecordAggregate.Eases P Γ s.bindings fields' folded types
  | .one hvalue => by
    rw [Fold.recordAggregate]
    refine bind (hvalue.eases hΓ hsteady.all) fun value hvalue' => ?_
    exact pure (.one hvalue'.eases)
  | .more hvalue hrest hdistinct => by
    have hbefore := hvalue.before
    obtain ⟨hvalueSteady, hrestSteady⟩ := hsteady.all
    have hwidth := (hvalue.known hΓ.types).2.width_nonneg
    rw [Fold.recordAggregate]
    refine bind (hvalue.eases hΓ hvalueSteady) fun value hvalue' => ?_
    refine bind (hrest.eases (hΓ.later hbefore) hrestSteady) fun rest hrest' => ?_
    exact pure (.more hvalue'.eases hrest' hbefore.bindings hwidth)

theorem Vname.Typed.eases {Γ : Env} {s s' : Supply} {vname vname' : Vname}
    {type : TypeDenoter} (hΓ : Γ.Founded s) (hsteady : (Phrase.vname vname').Steady P) :
    Vname.Typed Γ s vname vname' type s' →
    (Fold.vname vname').Gives fun folded =>
      Vname.Eases P Γ s.bindings vname' folded type ∧ folded.type = some type
  | .const hfind => by
    rw [Fold.vname]
    exact pure ⟨.simple hfind nofun rfl, rfl⟩
  | .var hfind => by
    rw [Fold.vname]
    exact pure ⟨.simple hfind nofun rfl, rfl⟩
  | .dot hrecord hfind => by
    obtain ⟨-, -, hfields⟩ := hrecord.known hΓ.types
    rw [Fold.vname]
    refine bind (hrecord.eases hΓ hsteady.all) fun record ⟨hrecord', htype⟩ => ?_
    exact pure ⟨hrecord'.dot hrecord.type_eq htype hfields hfind hsteady.of_vname, rfl⟩
  | .subscript harray hindex => by
    have hbefore := harray.before
    have harraySteady : (Phrase.vname _).Steady P := (List.forall_cons ..).1 hsteady.all |>.1
    obtain ⟨-, -, -, helement⟩ := harray.known hΓ.types
    rw [Fold.vname]
    refine bind (harray.eases hΓ harraySteady) fun array ⟨harray', _⟩ => ?_
    refine bind (hindex.eases (hΓ.later hbefore) hsteady.index).foldsTo
      fun index ⟨hindex', hfolds⟩ => ?_
    exact pure ⟨.subscript harray' hindex' hbefore.bindings harray.type_eq hfolds
      helement.width_nonneg hsteady.of_vname, rfl⟩

theorem Declaration.Typed.eases {Γ Γ' : Env} {s s' : Supply}
    {declaration declaration' : Declaration} (hΓ : Γ.Founded s)
    (hsteady : (Phrase.declaration declaration').Steady P) :
    Declaration.Typed Γ s declaration declaration' Γ' s' →
    (Fold.declaration declaration').Gives fun folded =>
      Declaration.Eases P Γ s.bindings Γ' declaration' folded
  | .const hvalue hnew => by
    have hwidth := (hvalue.known hΓ.types).2.width_nonneg
    rw [Fold.declaration]
    refine bind (hvalue.eases hΓ hsteady.value) fun value hvalue' => ?_
    exact pure (.const hvalue' hvalue.type_eq hvalue.before.bindings hwidth)
  | .var htype hnew => by
    have hwidth := (htype.known hΓ.types.names).width_nonneg
    rw [Fold.declaration]
    exact pure (.var htype.before.bindings hwidth)
  | .proc hnew hparameters hbody => by
    have hΓ' := hΓ.body hparameters nofun id
    rw [Fold.declaration]
    refine bind (hbody.eases hΓ' hsteady.all) fun body hbody' => ?_
    exact pure (.proc hparameters (hΓ.names _ nofun) hΓ'.below hbody')
  | .func hresult hnew hparameters hbody hequivalent => by
    have hΓ₁ := hΓ.later hresult.before
    have hresult' :=
      ((Supply.before_bind _).trans hparameters.before).knows _ (hresult.known hΓ.types.names)
    have hΓ' := hΓ₁.body hparameters nofun fun hshapes => ⟨hshapes, hresult'⟩
    rw [Fold.declaration]
    refine bind (hbody.eases hΓ' hsteady.all) fun body hbody' => ?_
    exact pure (.func hresult.before.bindings hparameters (hΓ₁.names _ nofun) hΓ'.below
      hbody'.eases)
  | .type htype hnew => by
    rw [Fold.declaration]
    exact pure .type
  | .sequence hfirst hsecond => by
    have hΓ' := hΓ.declared hfirst
    obtain ⟨hfirstSteady, hsecondSteady⟩ := hsteady.all
    rw [Fold.declaration]
    refine bind (hfirst.eases hΓ hfirstSteady) fun first hfirst' => ?_
    refine bind (hsecond.eases hΓ' hsecondSteady) fun second hsecond' => ?_
    exact pure (hfirst'.sequence hsecond' hfirst.before.bindings hΓ'.below
      hsecond.before.bindings (hΓ'.declared hsecond).below)

theorem Actuals.Typed.eases {Γ : Env} {s s' : Supply} {actuals actuals' : Actuals}
    {shapes : Signature} (hΓ : Γ.Founded s) (hsteady : (Phrase.actuals actuals').Steady P) :
    Actuals.Typed Γ s actuals shapes actuals' s' →
    (Fold.actuals actuals').Gives (Actuals.Eases P Γ s.bindings actuals')
  | .empty => by
    rw [Fold.actuals]
    exact pure .empty
  | .one hfirst => by
    rw [Fold.actuals]
    refine bind (hfirst.eases hΓ hsteady.all) fun first hfirst' => ?_
    exact pure (.one hfirst')
  | .more hfirst hrest => by
    have hbefore := hfirst.before
    obtain ⟨hfirstSteady, hrestSteady⟩ := hsteady.all
    rw [Fold.actuals]
    refine bind (hfirst.eases hΓ hfirstSteady) fun first hfirst' => ?_
    refine bind (hrest.eases (hΓ.later hbefore) hrestSteady) fun rest hrest' => ?_
    exact pure (.more hfirst' hrest' hbefore.bindings)

theorem Actual.Typed.eases {Γ : Env} {s s' : Supply} {actual actual' : Actual}
    {shape : FormalShape} (hΓ : Γ.Founded s) (hsteady : (Phrase.actual actual').Steady P) :
    Actual.Typed Γ s actual shape actual' s' →
    (Fold.actual actual').Gives (Actual.Eases P Γ s.bindings actual')
  | .const hvalue hequivalent => by
    have hwidth := (hvalue.known hΓ.types).2.width_nonneg
    rw [Fold.actual]
    refine bind (hvalue.eases hΓ hsteady.all) fun value hvalue' => ?_
    exact pure (.const hvalue'.eases hwidth)
  | .var hfound hvariable hequivalent => by
    have hfoundSteady : (Phrase.vname _).Steady P := hsteady.all
    have hwidth := (hfound.known hΓ.types).2.width_nonneg
    rw [Fold.actual]
    refine bind (hfound.eases hΓ hfoundSteady) fun found ⟨hfound', _⟩ => ?_
    exact pure (.var hfound' hfoundSteady.of_vname hwidth)
  | .proc hfind hequivalent => by
    rw [Fold.actual]
    exact pure (.proc hfind nofun)
  | .func hfind hequivalent hequivalent' => by
    rw [Fold.actual]
    exact pure (.func hfind nofun)

end

end TriangleTam
