import Mathlib.Data.List.Forall2
import TriangleTam.Compiler
import TriangleTam.Proofs.Meaning.Fuel
import TriangleTam.Proofs.Text.Numeral
import TriangleTam.Proofs.Typing.Folded

/-! # Folding keeps the meaning of programs

  A folded program runs as the program did: it goes through the same worlds,
  ends the same way, and needs the same fuel. What folds is an operation on
  literals whose exact value the machine has, and there an exact primitive has
  that value. Whatever could fail is left as it is.

  While the folded program runs, its scenes are those of the program but for
  the bodies of the routines in them, which are folded.
-/

namespace TriangleTam

/-! ## Exact primitives -/

namespace Machine

/-- The machine has the value. -/
def InRange (value : Int) : Prop := -maxint ≤ value ∧ value ≤ maxint

theorem InRange.fits {value : Int} (h : InRange value) : Word.Fits value := by
  unfold InRange maxint at h
  unfold Word.Fits Word.least Word.greatest
  omega

end Machine

/-- The arithmetic primitives have their exact values where the machine has these and no divisor
    is zero. Division truncates, and a remainder has the sign of the dividend. -/
structure Interpretation.Exact (I : Interpretation) : Prop where
  add  : ∀ a b, Machine.InRange (a + b) → I.result .add [a, b] = some (a + b)
  sub  : ∀ a b, Machine.InRange (a - b) → I.result .sub [a, b] = some (a - b)
  mult : ∀ a b, Machine.InRange (a * b) → I.result .mult [a, b] = some (a * b)
  div  : ∀ a b, b ≠ 0 → Machine.InRange (a.tdiv b) → I.result .div [a, b] = some (a.tdiv b)
  mod  : ∀ a b, b ≠ 0 → Machine.InRange (a.tmod b) → I.result .mod [a, b] = some (a.tmod b)

/-- What folding computes is the exact value, which the machine has. -/
theorem Primitive.of_evaluate? {p : Primitive} {a b value : Int}
    (h : p.evaluate? a b = some value) : p.result? a b = some value ∧ Machine.InRange value := by
  unfold evaluate? at h
  obtain ⟨hresult, hrange⟩ := Option.filter_eq_some_iff.1 h
  exact ⟨hresult, by simpa [Machine.InRange] using hrange⟩

theorem Primitive.evaluate?_eq (p : Primitive) (a b : Int) {value : Int}
    (h : p.result? a b = some value) (hrange : Machine.InRange value) :
    p.evaluate? a b = some value := by
  unfold evaluate?
  rw [h, Option.filter_some, if_pos]
  simpa [Machine.InRange] using hrange

/-- What folding computes the machine computes too. -/
theorem Interpretation.Exact.result_eq {I : Interpretation} (hI : I.Exact) {p : Primitive}
    {a b value : Int} (h : p.evaluate? a b = some value) : I.result p [a, b] = some value := by
  obtain ⟨hresult, hrange⟩ := Primitive.of_evaluate? h
  unfold Primitive.result? at hresult
  cases p with
  | add =>
    obtain rfl := Option.some.inj hresult
    exact hI.add a b hrange
  | sub =>
    obtain rfl := Option.some.inj hresult
    exact hI.sub a b hrange
  | mult =>
    obtain rfl := Option.some.inj hresult
    exact hI.mult a b hrange
  | div =>
    -- there is no quotient where the divisor is zero
    dsimp only at hresult
    split at hresult
    · cases hresult
    · next hne =>
      obtain rfl := Option.some.inj hresult
      exact hI.div a b hne hrange
  | mod =>
    dsimp only at hresult
    split at hresult
    · cases hresult
    · next hne =>
      obtain rfl := Option.some.inj hresult
      exact hI.mod a b hne hrange
  | _ => cases hresult

/-! ## Scenes of a folded program -/

mutual

/-- The meaning with the bodies of its routines folded. How much was folded before does not
    matter. -/
inductive Meaning.Folds : Meaning → Meaning → Prop
  | place {place} : Meaning.Folds (.place place) (.place place)
  | primitive {p} : Meaning.Folds (.primitive p) (.primitive p)
  | procedure {id formals body scene scene'} (n : Nat) :
      Scene.Folds scene scene' →
      Meaning.Folds (.procedure id formals body scene)
        (.procedure id formals ((Fold.command body).run n).1 scene')
  | function {id formals body scene scene'} (n : Nat) :
      Scene.Folds scene scene' →
      Meaning.Folds (.function id formals body scene)
        (.function id formals ((Fold.expression body).run n).1 scene')

inductive Scene.Folds : Scene → Scene → Prop
  | standard : Scene.Folds .standard .standard
  | more {id meaning meaning' others others'} :
      Meaning.Folds meaning meaning' →
      Scene.Folds others others' →
      Scene.Folds (.more id meaning others) (.more id meaning' others')

end

/-- Both steps stop for the same reason, or both return and their results are related. -/
inductive Alike {α β : Type} (R : α → β → Prop) : Except Stop α → Except Stop β → Prop
  | stop (reason : Stop) : Alike R (.error reason) (.error reason)
  | ok {a b} : R a b → Alike R (.ok a) (.ok b)

namespace Alike

variable {α β γ δ : Type} {R : α → β → Prop} {S : γ → δ → Prop}

theorem bind {x : Except Stop α} {y : Except Stop β} {f : α → Except Stop γ}
    {g : β → Except Stop δ} (h : Alike R x y) (hfg : ∀ a b, R a b → Alike S (f a) (g b)) :
    Alike S (x >>= f) (y >>= g) := by
  cases h with
  | stop reason => exact .stop reason
  | ok hab => exact hfg _ _ hab

/-- Steps that go on in the same way return the same. -/
theorem bind_eq {x : Except Stop α} {y : Except Stop β} {f : α → Except Stop γ}
    {g : β → Except Stop γ} (h : Alike R x y) (hfg : ∀ a b, R a b → f a = g b) :
    x >>= f = y >>= g := by
  cases h with
  | stop reason => rfl
  | ok hab => exact hfg _ _ hab

/-- The same step goes on in ways that are alike. -/
theorem of_eq {x : Except Stop α} {f : α → Except Stop γ} {g : α → Except Stop δ}
    (hfg : ∀ a, Alike S (f a) (g a)) : Alike S (x >>= f) (x >>= g) := by
  cases x with
  | error reason => exact .stop reason
  | ok a => exact hfg a

theorem orFault {x : Option α} {y : Option β} (h : Option.Rel R x y) :
    Alike R (orFault x) (TriangleTam.orFault y) := by
  cases h with
  | none => exact .stop .fault
  | some hab => exact .ok hab

end Alike

/-- Searches that fail together go on in ways that fail together. -/
theorem rel_bind {α β γ δ : Type} {R : α → β → Prop} {S : γ → δ → Prop} {x : Option α}
    {y : Option β} {f : α → Option γ} {g : β → Option δ} (h : Option.Rel R x y)
    (hfg : ∀ a b, R a b → Option.Rel S (f a) (g b)) : Option.Rel S (x >>= f) (y >>= g) := by
  cases h with
  | none => exact .none
  | some hab => exact hfg _ _ hab

/-- The two ways to apply functions do the same with a function and with its folded form. -/
def Application.Folds (application application' : Application) : Prop :=
  ∀ {meaning meaning' : Meaning} {arguments arguments' : List Meaning} (w : World),
    meaning.Folds meaning' → List.Forall₂ Meaning.Folds arguments arguments' →
      application meaning arguments w = application' meaning' arguments' w

mutual

theorem Scene.Folds.find? {scene scene' : Scene} (id : BindingId) : scene.Folds scene' →
    Option.Rel Meaning.Folds (scene.find? id) (scene'.find? id)
  | .standard => by
    simp only [Scene.find?]
    cases Standard.declaration? id with
    | none => exact .none
    | some declaration =>
      show Option.Rel Meaning.Folds declaration.representation.meaning?
        declaration.representation.meaning?
      cases declaration.representation with
      | value word => exact .some .place
      | primitive p => exact .some .primitive
      | _ => exact .none
  | @Scene.Folds.more id' _ _ _ _ hmeaning hothers => by
    simp only [Scene.find?]
    by_cases heq : id' = id
    · rw [if_pos heq, if_pos heq]
      exact .some hmeaning
    · rw [if_neg heq, if_neg heq]
      exact hothers.find? id

end

namespace Scene.Folds

variable {scene scene' : Scene}

theorem meaning? (h : scene.Folds scene') (name : Name) :
    Option.Rel Meaning.Folds (scene.meaning? name) (scene'.meaning? name) := by
  unfold Scene.meaning?
  cases name.binding with
  | none => exact .none
  | some id => exact h.find? id

theorem bind? (h : scene.Folds scene') (name : Name) {meaning meaning' : Meaning}
    (hmeaning : meaning.Folds meaning') :
    Option.Rel Scene.Folds (scene.bind? name meaning) (scene'.bind? name meaning') := by
  unfold Scene.bind?
  cases name.binding with
  | none => exact .none
  | some id => exact .some (.more hmeaning h)

/-- The same constants and variables have the same places. -/
theorem locate_simple (h : scene.Folds scene') (name : Name) :
    (match scene.meaning? name with
      | some (.place place) => Except.ok place
      | _ => .error Stop.fault) =
      match scene'.meaning? name with
      | some (.place place) => Except.ok place
      | _ => .error Stop.fault := by
  have hmeaning := h.meaning? name
  generalize scene.meaning? name = found at hmeaning ⊢
  generalize scene'.meaning? name = found' at hmeaning ⊢
  cases hmeaning with
  | none => rfl
  | some hfound => cases hfound <;> rfl

end Scene.Folds

theorem Scene.Folds.bindAll? {scene scene' : Scene} (h : scene.Folds scene')
    {arguments arguments' : List Meaning}
    (harguments : List.Forall₂ Meaning.Folds arguments arguments') (formals : Formals) :
    Option.Rel Scene.Folds (scene.bindAll? formals arguments)
      (scene'.bindAll? formals arguments') := by
  cases formals with
  | empty =>
    cases harguments with
    | nil => exact .some h
    | cons => exact .none
  | one _ formal =>
    cases harguments with
    | nil => exact .none
    | cons hfirst hrest =>
      cases hrest with
      | nil => exact h.bind? formal.name hfirst
      | cons => exact .none
  | more _ formal rest =>
    cases harguments with
    | nil => exact .none
    | cons hfirst hrest =>
      simp only [Scene.bindAll?]
      exact rel_bind (h.bind? formal.name hfirst) fun _ _ hbound => hbound.bindAll? hrest rest

/-- A primitive takes no routine, so that it does the same. -/
theorem Interpretation.apply_folds (I : Interpretation) (p : Primitive)
    {arguments arguments' : List Meaning} (h : List.Forall₂ Meaning.Folds arguments arguments')
    (w : World) : I.apply p arguments w = I.apply p arguments' w := by
  cases h with
  | nil => rfl
  | cons hfirst hrest =>
    cases hrest <;> cases hfirst <;> rfl

theorem Interpretation.perform_folds (I : Interpretation) (p : Primitive)
    {arguments arguments' : List Meaning} (h : List.Forall₂ Meaning.Folds arguments arguments')
    (w : World) : I.perform p arguments w = I.perform p arguments' w := by
  cases h with
  | nil => rfl
  | cons hfirst hrest =>
    cases hrest <;> cases hfirst <;> rfl

theorem Application.Folds.apply {I : Interpretation} {application application' : Application}
    (h : application.Folds application') {meaning meaning' : Meaning}
    {arguments arguments' : List Meaning} (w : World) (hmeaning : meaning.Folds meaning')
    (harguments : List.Forall₂ Meaning.Folds arguments arguments') :
    meaning.apply I application arguments w = meaning'.apply I application' arguments' w := by
  cases hmeaning with
  | primitive => exact congrArg orFault (I.apply_folds _ harguments w)
  | place => exact h w .place harguments
  | procedure n hscene => exact h w (.procedure n hscene) harguments
  | function n hscene => exact h w (.function n hscene) harguments

/-! ## Expressions -/

/-- The value of an integer literal. -/
theorem Expression.eval_of_integerValue? {e : Expression} {a : Int}
    (h : e.integerValue? = some a) (I : Interpretation) (application : Application)
    (scene : Scene) (w : World) : e.eval I application scene w = .ok [some a] := by
  cases e with
  | integer span type literal =>
    obtain rfl := Option.some.inj h
    rfl
  | _ => cases h

/-- An operation that folds has the value of its literal. -/
theorem Interpretation.Exact.eval_binary {I : Interpretation} (hI : I.Exact)
    {left right : Expression} {operator : Name} {value : Int}
    (h : Fold.value? left operator right = some value) (span span' : Span)
    (type : Option TypeDenoter) (application : Application) (scene : Scene) (w : World) :
    (Expression.binary span type left operator right).eval I application scene w =
      (Fold.literal span' value).eval I application scene w := by
  unfold Fold.value? at h
  simp only [bind, Option.bind_eq_some_iff] at h
  obtain ⟨a, hleft, b, hright, p, ⟨id, hbinding, hfolds⟩, hvalue⟩ := h
  -- the standard operator is called, and an exact machine has the result that was folded
  have hbinary : I.binary operator [some a] [some b] = some [some value] := by
    unfold Standard.arithmetic? at hfolds
    split at hfolds
    · next hat =>
      obtain rfl := Option.some.inj hfolds
      simp [Interpretation.binary, hbinding, hat, Value.word?, hI.result_eq hvalue]
    · cases hfolds
  -- the numeral that is written for the result is read back as it
  have hliteral : (Fold.literal span' value).eval I application scene w = .ok [some value] := by
    have hfits := (Primitive.of_evaluate? hvalue).2.fits
    show Except.ok [some (IntegerLiteral.value ⟨Numeral.ofInt value, span'⟩)] = _
    rw [IntegerLiteral.value_ofInt hfits]
  rw [hliteral]
  simp only [Expression.eval, Expression.eval_of_integerValue? hleft,
    Expression.eval_of_integerValue? hright]
  show orFault (I.binary operator [some a] [some b]) = .ok [some value]
  rw [hbinary]
  rfl

section

variable {I : Interpretation} {application application' : Application}

open Fold.Gives

mutual

theorem Expression.eval_fold (hI : I.Exact) (happlication : application.Folds application') :
    (e : Expression) → (Fold.expression e).Gives fun e' =>
      ∀ {scene scene' : Scene}, scene.Folds scene' → ∀ w,
        e.eval I application scene w = e'.eval I application' scene' w
  | .integer .. => by
    rw [Fold.expression]
    exact pure fun _ _ => rfl
  | .character .. => by
    rw [Fold.expression]
    exact pure fun _ _ => rfl
  | .vname _ _ found => by
    rw [Fold.expression]
    refine bind (found.locate_fold hI happlication) fun found' ⟨_, hfound⟩ => ?_
    exact pure fun hscene w => by simp only [Expression.eval, hfound hscene]
  | .call _ _ callee args => by
    rw [Fold.expression]
    refine bind (args.eval_fold hI happlication) fun args' hargs => ?_
    refine pure fun hscene w => ?_
    simp only [Expression.eval]
    refine (hargs hscene w).bind_eq fun _ _ harguments => ?_
    -- the routine that is called may be a folded one
    refine (Alike.orFault (hscene.meaning? callee)).bind_eq fun _ _ hmeaning => ?_
    exact happlication.apply w hmeaning harguments
  | .ifElse _ _ condition thenBranch elseBranch => by
    rw [Fold.expression]
    refine bind (condition.eval_fold hI happlication) fun condition' hcondition => ?_
    refine bind (thenBranch.eval_fold hI happlication) fun thenBranch' hthen => ?_
    refine bind (elseBranch.eval_fold hI happlication) fun elseBranch' helse => ?_
    exact pure fun hscene w => by
      simp only [Expression.eval, hcondition hscene, hthen hscene, helse hscene]
  | .letIn _ _ declared body => by
    rw [Fold.expression]
    refine bind (declared.elaborate_fold hI happlication) fun declared' hdeclared => ?_
    refine bind (body.eval_fold hI happlication) fun body' hbody => ?_
    refine pure fun hscene w => ?_
    simp only [Expression.eval]
    refine (hdeclared hscene w).bind_eq fun left right ⟨hinner, hworld⟩ => ?_
    -- the declarations leave the same world behind, and a scene that is folded too
    rw [← hworld]
    exact hbody hinner left.2
  | .unary _ _ operator operand => by
    rw [Fold.expression]
    refine bind (operand.eval_fold hI happlication) fun operand' hoperand => ?_
    exact pure fun hscene w => by simp only [Expression.eval, hoperand hscene]
  | .binary span type left operator right => by
    rw [Fold.expression]
    refine bind (left.eval_fold hI happlication) fun left' hleft => ?_
    refine bind (right.eval_fold hI happlication) fun right' hright => ?_
    -- the operands fold first, and then the operation if both are literals
    have hsame {scene scene' : Scene} (hscene : scene.Folds scene') (w : World) :
        (Expression.binary span type left operator right).eval I application scene w =
          (Expression.binary span type left' operator right').eval I application' scene' w := by
      simp only [Expression.eval, hleft hscene, hright hscene]
    refine Fold.binary_gives hsame fun value hvalue scene scene' hscene w => ?_
    rw [hsame hscene, hI.eval_binary hvalue span left'.span]
  | .array _ _ elements => by
    rw [Fold.expression]
    refine bind (elements.eval_fold hI happlication) fun elements' helements => ?_
    exact pure fun hscene w => by simp only [Expression.eval, helements hscene]
  | .record _ _ fields => by
    rw [Fold.expression]
    refine bind (fields.eval_fold hI happlication) fun fields' hfields => ?_
    exact pure fun hscene w => by simp only [Expression.eval, hfields hscene]

theorem ArrayAggregate.eval_fold (hI : I.Exact) (happlication : application.Folds application') :
    (elements : ArrayAggregate) → (Fold.arrayAggregate elements).Gives fun elements' =>
      ∀ {scene scene' : Scene}, scene.Folds scene' → ∀ w,
        elements.eval I application scene w = elements'.eval I application' scene' w
  | .one _ element => by
    rw [Fold.arrayAggregate]
    refine bind (element.eval_fold hI happlication) fun element' helement => ?_
    exact pure fun hscene w => by simp only [ArrayAggregate.eval, helement hscene]
  | .more _ element rest => by
    rw [Fold.arrayAggregate]
    refine bind (element.eval_fold hI happlication) fun element' helement => ?_
    refine bind (rest.eval_fold hI happlication) fun rest' hrest => ?_
    exact pure fun hscene w => by
      simp only [ArrayAggregate.eval, helement hscene, hrest hscene]

theorem RecordAggregate.eval_fold (hI : I.Exact) (happlication : application.Folds application') :
    (fields : RecordAggregate) → (Fold.recordAggregate fields).Gives fun fields' =>
      ∀ {scene scene' : Scene}, scene.Folds scene' → ∀ w,
        fields.eval I application scene w = fields'.eval I application' scene' w
  | .one _ _ value => by
    rw [Fold.recordAggregate]
    refine bind (value.eval_fold hI happlication) fun value' hvalue => ?_
    exact pure fun hscene w => by simp only [RecordAggregate.eval, hvalue hscene]
  | .more _ _ value rest => by
    rw [Fold.recordAggregate]
    refine bind (value.eval_fold hI happlication) fun value' hvalue => ?_
    refine bind (rest.eval_fold hI happlication) fun rest' hrest => ?_
    exact pure fun hscene w => by
      simp only [RecordAggregate.eval, hvalue hscene, hrest hscene]

theorem Vname.locate_fold (hI : I.Exact) (happlication : application.Folds application') :
    (v : Vname) → (Fold.vname v).Gives fun v' => v'.type = v.type ∧
      ∀ {scene scene' : Scene}, scene.Folds scene' → ∀ w,
        v.locate I application scene w = v'.locate I application' scene' w
  | .simple _ _ _ name => by
    rw [Fold.vname]
    refine pure ⟨rfl, fun hscene w => ?_⟩
    exact hscene.locate_simple name
  | .dot _ _ _ record field => by
    rw [Fold.vname]
    refine bind (record.locate_fold hI happlication) fun record' ⟨htype, hrecord⟩ => ?_
    exact pure ⟨rfl, fun hscene w => by simp only [Vname.locate, hrecord hscene, htype]⟩
  | .subscript _ _ _ array index => by
    rw [Fold.vname]
    refine bind (array.locate_fold hI happlication) fun array' ⟨htype, harray⟩ => ?_
    refine bind (index.eval_fold hI happlication) fun index' hindex => ?_
    exact pure ⟨rfl, fun hscene w => by
      simp only [Vname.locate, harray hscene, hindex hscene, htype]⟩

theorem Declaration.elaborate_fold (hI : I.Exact)
    (happlication : application.Folds application') :
    (d : Declaration) → (Fold.declaration d).Gives fun d' =>
      ∀ {scene scene' : Scene}, scene.Folds scene' → ∀ w,
        Alike (fun left right => left.1.Folds right.1 ∧ left.2 = right.2)
          (d.elaborate I application scene w) (d'.elaborate I application' scene' w)
  | .const _ _ name value => by
    rw [Fold.declaration]
    refine bind (value.eval_fold hI happlication) fun value' hvalue => ?_
    refine pure fun hscene w => ?_
    simp only [Declaration.elaborate, hvalue hscene]
    refine Alike.of_eq fun value => ?_
    exact (Alike.orFault (hscene.bind? name .place)).bind fun _ _ hbound => .ok ⟨hbound, rfl⟩
  | .var _ _ name type => by
    rw [Fold.declaration]
    refine pure fun hscene w => ?_
    simp only [Declaration.elaborate]
    exact (Alike.orFault (hscene.bind? name .place)).bind fun _ _ hbound => .ok ⟨hbound, rfl⟩
  | .proc _ _ name formals body => by
    rw [Fold.declaration]
    intro n scene scene' hscene w
    show Alike _ (orFault name.binding >>= _) (orFault name.binding >>= _)
    -- the body is folded in place, so its meaning in the new scene is the folded one
    exact .of_eq fun id => .ok ⟨.more (.procedure n hscene) hscene, rfl⟩
  | .func _ _ name formals _ body => by
    rw [Fold.declaration]
    intro n scene scene' hscene w
    show Alike _ (orFault name.binding >>= _) (orFault name.binding >>= _)
    exact .of_eq fun id => .ok ⟨.more (.function n hscene) hscene, rfl⟩
  | .type .. => by
    rw [Fold.declaration]
    exact pure fun hscene w => .ok ⟨hscene, rfl⟩
  | .sequence _ first second => by
    rw [Fold.declaration]
    refine bind (first.elaborate_fold hI happlication) fun first' hfirst => ?_
    refine bind (second.elaborate_fold hI happlication) fun second' hsecond => ?_
    refine pure fun hscene w => ?_
    simp only [Declaration.elaborate]
    refine (hfirst hscene w).bind fun left right ⟨hinner, hworld⟩ => ?_
    rw [← hworld]
    exact hsecond hinner left.2

theorem Actuals.eval_fold (hI : I.Exact) (happlication : application.Folds application') :
    (args : Actuals) → (Fold.actuals args).Gives fun args' =>
      ∀ {scene scene' : Scene}, scene.Folds scene' → ∀ w,
        Alike (List.Forall₂ Meaning.Folds) (args.eval I application scene w)
          (args'.eval I application' scene' w)
  | .empty _ => by
    rw [Fold.actuals]
    exact pure fun _ _ => .ok .nil
  | .one _ first => by
    rw [Fold.actuals]
    refine bind (first.eval_fold hI happlication) fun first' hfirst => ?_
    refine pure fun hscene w => ?_
    simp only [Actuals.eval]
    exact (hfirst hscene w).bind fun _ _ hmeaning => .ok (.cons hmeaning .nil)
  | .more _ first rest => by
    rw [Fold.actuals]
    refine bind (first.eval_fold hI happlication) fun first' hfirst => ?_
    refine bind (rest.eval_fold hI happlication) fun rest' hrest => ?_
    refine pure fun hscene w => ?_
    simp only [Actuals.eval]
    refine (hfirst hscene w).bind fun _ _ hmeaning => ?_
    exact (hrest hscene w).bind fun _ _ hothers => .ok (.cons hmeaning hothers)

theorem Actual.eval_fold (hI : I.Exact) (happlication : application.Folds application') :
    (a : Actual) → (Fold.actual a).Gives fun a' =>
      ∀ {scene scene' : Scene}, scene.Folds scene' → ∀ w,
        Alike Meaning.Folds (a.eval I application scene w) (a'.eval I application' scene' w)
  | .const _ value => by
    rw [Fold.actual]
    refine bind (value.eval_fold hI happlication) fun value' hvalue => ?_
    refine pure fun hscene w => ?_
    simp only [Actual.eval, hvalue hscene]
    exact Alike.of_eq fun _ => .ok .place
  | .var _ found => by
    rw [Fold.actual]
    refine bind (found.locate_fold hI happlication) fun found' ⟨_, hfound⟩ => ?_
    refine pure fun hscene w => ?_
    simp only [Actual.eval, hfound hscene]
    exact Alike.of_eq fun _ => .ok .place
  | .proc _ name => by
    rw [Fold.actual]
    exact pure fun hscene w => .orFault (hscene.meaning? name)
  | .func _ name => by
    rw [Fold.actual]
    exact pure fun hscene w => .orFault (hscene.meaning? name)

end

end

/-! ## Commands -/

namespace Run

variable {α β γ : Type} {R : α → β → Prop}

/-- Steps without effects that are alike go on in the same way. -/
theorem lift_bind_eq {x : Except Stop α} {y : Except Stop β} (h : Alike R x y) {f : α → Run γ}
    {g : β → Run γ} (hfg : ∀ a b, R a b → f a = g b) :
    (liftM x : Run α) >>= f = (liftM y : Run β) >>= g := by
  cases h with
  | stop reason => rfl
  | ok hab => exact hfg _ _ hab

/-- Questions with answers that are alike go on in the same way. -/
theorem ask_bind_eq {x : World → Except Stop α} {y : World → Except Stop β}
    (h : ∀ w, Alike R (x w) (y w)) {f : α → Run γ} {g : β → Run γ}
    (hfg : ∀ a b, R a b → f a = g b) : ask x >>= f = ask y >>= g := by
  funext w
  exact congrFun (lift_bind_eq (h w) hfg) w

end Run

/-- The two ways to call routines do the same with a routine and with its folded form. -/
structure Callees.Folds (callees callees' : Callees) : Prop where
  fuel    : callees.fuel = callees'.fuel
  apply   : callees.apply.Folds callees'.apply
  perform : ∀ {meaning meaning' : Meaning} {arguments arguments' : List Meaning},
    meaning.Folds meaning' → List.Forall₂ Meaning.Folds arguments arguments' →
      callees.perform meaning arguments = callees'.perform meaning' arguments'

section

variable {I : Interpretation} {callees callees' : Callees}

theorem Callees.Folds.perform_meaning (h : callees.Folds callees') {meaning meaning' : Meaning}
    {arguments arguments' : List Meaning} (hmeaning : meaning.Folds meaning')
    (harguments : List.Forall₂ Meaning.Folds arguments arguments') :
    meaning.perform I callees arguments = meaning'.perform I callees' arguments' := by
  cases hmeaning with
  | primitive => exact congrArg Run.change (funext (I.perform_folds _ harguments))
  | place => exact h.perform .place harguments
  | procedure n hscene => exact h.perform (.procedure n hscene) harguments
  | function n hscene => exact h.perform (.function n hscene) harguments

/-- A condition is tested as its folded form is. -/
theorem Callees.Folds.test (hI : I.Exact) (h : callees.Folds callees') (condition : Expression) :
    (Fold.expression condition).Gives fun condition' =>
      ∀ {scene scene' : Scene}, scene.Folds scene' →
        condition.test I callees scene = condition'.test I callees' scene' := by
  intro n scene scene' hscene
  simp only [Expression.test, condition.eval_fold hI h.apply n hscene]

open Fold.Gives in
/-- A command does what its folded form does. -/
theorem Command.perform_fold (hI : I.Exact) (h : callees.Folds callees') (c : Command) :
    (Fold.command c).Gives fun c' => ∀ {scene scene' : Scene}, scene.Folds scene' →
      c.perform I callees scene = c'.perform I callees' scene' := by
  cases c with
  | empty =>
    rw [Fold.command]
    exact pure fun _ => rfl
  | assign _ target value =>
    rw [Fold.command]
    refine bind (target.locate_fold hI h.apply) fun target' htarget => ?_
    refine bind (value.eval_fold hI h.apply) fun value' hvalue => ?_
    exact pure fun hscene => by
      simp only [Command.perform, htarget.2 hscene, hvalue hscene]
  | call _ callee args =>
    rw [Fold.command]
    refine bind (args.eval_fold hI h.apply) fun args' hargs => ?_
    refine pure fun hscene => ?_
    simp only [Command.perform]
    -- equal arguments go to a routine and its folded form
    refine Run.ask_bind_eq (hargs hscene) fun _ _ harguments => ?_
    refine Run.lift_bind_eq (.orFault (hscene.meaning? callee)) fun _ _ hmeaning => ?_
    exact h.perform_meaning hmeaning harguments
  | sequence _ first second =>
    rw [Fold.command]
    refine bind (first.perform_fold hI h) fun first' hfirst => ?_
    refine bind (second.perform_fold hI h) fun second' hsecond => ?_
    exact pure fun hscene => by simp only [Command.perform, hfirst hscene, hsecond hscene]
  | letIn _ declared body =>
    rw [Fold.command]
    refine bind (declared.elaborate_fold hI h.apply) fun declared' hdeclared => ?_
    refine bind (body.perform_fold hI h) fun body' hbody => ?_
    refine pure fun hscene => ?_
    simp only [Command.perform]
    refine bind_congr fun before => ?_
    refine Run.lift_bind_eq (hdeclared hscene before) fun left right hboth => ?_
    obtain ⟨hinner, hworld⟩ := hboth
    simp only [hworld, hbody hinner]
  | ifElse _ condition thenBranch elseBranch =>
    rw [Fold.command]
    refine bind (h.test hI condition) fun condition' hcondition => ?_
    refine bind (thenBranch.perform_fold hI h) fun thenBranch' hthen => ?_
    refine bind (elseBranch.perform_fold hI h) fun elseBranch' helse => ?_
    exact pure fun hscene => by
      simp only [Command.perform, hcondition hscene, hthen hscene, helse hscene]
  | whileDo _ condition body =>
    rw [Fold.command]
    refine bind (h.test hI condition) fun condition' hcondition => ?_
    refine bind (body.perform_fold hI h) fun body' hbody => ?_
    exact pure fun hscene => by
      simp only [Command.perform, hcondition hscene, hbody hscene, h.fuel]
  | repeatUntil _ body condition =>
    rw [Fold.command]
    refine bind (h.test hI condition) fun condition' hcondition => ?_
    refine bind (body.perform_fold hI h) fun body' hbody => ?_
    exact pure fun hscene => by
      simp only [Command.perform, hcondition hscene, hbody hscene, h.fuel]
  | loopWhile _ body condition tail =>
    rw [Fold.command]
    refine bind (body.perform_fold hI h) fun body' hbody => ?_
    refine bind (h.test hI condition) fun condition' hcondition => ?_
    refine bind (tail.perform_fold hI h) fun tail' htail => ?_
    exact pure fun hscene => by
      simp only [Command.perform, hcondition hscene, hbody hscene, htail hscene, h.fuel]

end

/-! ## Routines and programs -/

variable {I : Interpretation}

/-- Whatever the fuel, functions are applied like their folded forms. -/
theorem applyWith_folds (hI : I.Exact) (fuel : Nat) :
    (applyWith I fuel).Folds (applyWith I fuel) := by
  induction fuel with
  | zero =>
    intro meaning meaning' arguments arguments' w _ _
    rfl
  | succ fuel ih =>
    intro meaning meaning' arguments arguments' w hmeaning harguments
    cases hmeaning with
    | @function id formals body scene scene' n hscene =>
      have hself : Scene.Folds (.more id (.function id formals body scene) scene)
          (.more id (.function id formals ((Fold.expression body).run n).1 scene') scene') :=
        .more (.function n hscene) hscene
      refine (Alike.orFault (hself.bindAll? harguments formals)).bind_eq fun _ _ hbound => ?_
      exact body.eval_fold hI ih n hbound w
    | _ => rfl

/-- Whatever the fuel, routines are called like their folded forms. -/
theorem Interpretation.callees_folds (hI : I.Exact) (fuel : Nat) :
    (I.callees fuel).Folds (I.callees fuel) := by
  induction fuel with
  | zero => exact ⟨rfl, applyWith_folds hI 0, fun _ _ => rfl⟩
  | succ fuel ih =>
    refine ⟨rfl, applyWith_folds hI (fuel + 1), fun hmeaning harguments => ?_⟩
    cases hmeaning with
    | @procedure id formals body scene scene' n hscene =>
      have hself : Scene.Folds (.more id (.procedure id formals body scene) scene)
          (.more id (.procedure id formals ((Fold.command body).run n).1 scene') scene') :=
        .more (.procedure n hscene) hscene
      refine Run.lift_bind_eq (.orFault (hself.bindAll? harguments formals)) fun _ _ hbound => ?_
      exact body.perform_fold hI ih n hbound
    | _ => rfl

mutual

/-- Everything that a name means can be folded. -/
theorem Meaning.exists_folds : (meaning : Meaning) → ∃ meaning', meaning.Folds meaning'
  | .place _ => ⟨_, .place⟩
  | .primitive _ => ⟨_, .primitive⟩
  | .procedure _ _ _ scene => by
    obtain ⟨_, hscene⟩ := scene.exists_folds
    exact ⟨_, .procedure 0 hscene⟩
  | .function _ _ _ scene => by
    obtain ⟨_, hscene⟩ := scene.exists_folds
    exact ⟨_, .function 0 hscene⟩

theorem Scene.exists_folds : (scene : Scene) → ∃ scene', scene.Folds scene'
  | .standard => ⟨_, .standard⟩
  | .more _ meaning others => by
    obtain ⟨_, hmeaning⟩ := meaning.exists_folds
    obtain ⟨_, hothers⟩ := others.exists_folds
    exact ⟨_, .more hmeaning hothers⟩

end

/-- A program and its folded form go through the same worlds with any fuel. -/
theorem Program.run_fold (hI : I.Exact) (program : Program) (journal : Journal) (fuel : Nat) :
    program.run I fuel = (program.fold journal).program.run I fuel :=
  congrArg (fun m => Run.exec m .empty)
    (program.command.perform_fold hI (Interpretation.callees_folds hI fuel) 0 .standard)

/-- What folding makes an integer literal has the value of that literal, in any scene. -/
theorem Expression.eval_of_folds (hI : I.Exact) {e : Expression} {n : Nat} {a : Int}
    (h : ((Fold.expression e).run n).1.integerValue? = some a) (fuel : Nat) (scene : Scene)
    (w : World) : e.eval I (applyWith I fuel) scene w = .ok [some a] := by
  obtain ⟨scene', hscene⟩ := scene.exists_folds
  rw [e.eval_fold hI (applyWith_folds hI fuel) n hscene w]
  exact Expression.eval_of_integerValue? h I _ scene' w

/-- Folding keeps the meaning of every program. The folded program goes through the same worlds,
    with what it exchanges with the outside in them, and ends, faults or diverges as the program
    does; every expression has the value of its folded form; and what is replaced by a literal
    never faults and always has the literal's value. -/
theorem Program.fold_preserves_meaning (hI : I.Exact) (program : Program) (journal : Journal) :
    (∀ fuel, program.run I fuel = (program.fold journal).program.run I fuel) ∧
    (∀ outcome w, program.Ends I outcome w ↔
      (program.fold journal).program.Ends I outcome w) ∧
    (program.Diverges I ↔ (program.fold journal).program.Diverges I) ∧
    (∀ (e : Expression) (n fuel : Nat) {scene scene' : Scene}, scene.Folds scene' → ∀ w,
      e.eval I (applyWith I fuel) scene w =
        ((Fold.expression e).run n).1.eval I (applyWith I fuel) scene' w) ∧
    ∀ (e : Expression) (n : Nat) (a : Int),
      ((Fold.expression e).run n).1.integerValue? = some a → ∀ (fuel : Nat) (scene : Scene)
        (w : World), e.eval I (applyWith I fuel) scene w = .ok [some a] := by
  have hrun := program.run_fold hI journal
  refine ⟨hrun, fun outcome w => ?_, ?_, fun e n fuel _ _ hscene w => ?_, fun e n a h => ?_⟩
  · simp only [Ends, hrun]
  · simp only [Diverges, hrun]
  · exact e.eval_fold hI (applyWith_folds hI fuel) n hscene w
  · exact Expression.eval_of_folds hI h

/-- A machine that has the arithmetic primitives alone, and no more range than it needs. -/
private def arithmetic : Interpretation where
  result p arguments := match arguments with
    | [a, b] => p.evaluate? a b
    | _ => none
  answer before _ _ := some before.length

private theorem arithmetic_exact : arithmetic.Exact where
  add a b hrange := Primitive.evaluate?_eq .add a b rfl hrange
  sub a b hrange := Primitive.evaluate?_eq .sub a b rfl hrange
  mult a b hrange := Primitive.evaluate?_eq .mult a b rfl hrange
  div a b hne hrange := Primitive.evaluate?_eq .div a b (if_neg hne) hrange
  mod a b hne hrange := Primitive.evaluate?_eq .mod a b (if_neg hne) hrange

/-- A text with four operations that fold, and one that overflows. -/
private def arithmeticText : String :=
  "let func f(n: Integer): Integer ~ n * (7 // 2) in
   begin putint(f(2 + 3)); putint((0 - 7) / 2); putint(32767 + 1) end"

/-- The text writes two numbers and faults, folded or not. -/
theorem Program.fold_preserves_meaning_sample :
    ∃ program, Program.parse arithmeticText = .ok program ∧
      let checked := program.check .empty
      checked.journal.clean = true ∧ (checked.program.fold .empty).folds = 4 ∧
        (checked.program.run arithmetic 2).1 ≠ .ok () ∧
        (checked.program.run arithmetic 2).2.trace = [⟨.putint, [5], 0⟩, ⟨.putint, [-3], 1⟩] := by
  have h : (Program.parse arithmeticText).toOption.any (fun program =>
      let checked := program.check .empty
      let run := (checked.program.fold .empty).program.run arithmetic 2
      checked.journal.clean && (checked.program.fold .empty).folds == 4 && !run.1.isOk &&
        run.2.trace = [⟨.putint, [5], 0⟩, ⟨.putint, [-3], 1⟩]) = true := by decide +kernel
  cases hparse : Program.parse arithmeticText with
  | error d =>
    rw [hparse] at h
    cases h
  | ok program =>
    rw [hparse] at h
    simp only [Except.toOption, Option.any_some] at h
    simp only [Bool.and_eq_true, decide_eq_true_eq, beq_iff_eq] at h
    obtain ⟨⟨⟨hclean, hfolds⟩, hfault⟩, htrace⟩ := h
    obtain ⟨hrun, -⟩ := (program.check .empty).program.fold_preserves_meaning arithmetic_exact .empty
    refine ⟨program, rfl, hclean, hfolds, ?_, ?_⟩
    · rw [hrun]
      intro hok
      rw [hok] at hfault
      cases hfault
    · rw [hrun]
      exact htrace

end TriangleTam
