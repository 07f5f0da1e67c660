import TriangleTam.Proofs.Scoping.Occurrences
import TriangleTam.Proofs.Typing.Known

/-! # Levels of bindings

  Every binding of a decorated tree belongs to one level, that of the routine
  that introduces it. Lexical scoping never gives a name a binding of a deeper
  level than its own: what is bound inside of a routine is not seen outside.
-/

namespace TriangleTam

/-! ## Levels of what is introduced -/

/-- The names that are introduced have bindings of their own among those from `n` to `n'`, and
    each of these is of one level. -/
structure Spread (n n' : BindingId) (occurrences : List Occurrence) : Prop where
  le     : n ≤ n'
  levels : ∃ levelOf : BindingId → Nat, ∀ level name, .binder level name ∈ occurrences →
    ∃ id, name.binding = some id ∧ n ≤ id ∧ id < n' ∧ levelOf id = level

namespace Spread

variable {n n' n'' : BindingId} {occurrences occurrences' : List Occurrence}

theorem nil (h : n ≤ n') : Spread n n' [] :=
  ⟨h, fun _ => 0, fun _ _ hmem => absurd hmem List.not_mem_nil⟩

theorem use (h : Spread n n' occurrences) (level : Nat) (name : Name) :
    Spread n n' (.use level name :: occurrences) := by
  obtain ⟨levelOf, hlevelOf⟩ := h.levels
  refine ⟨h.le, levelOf, fun level' name' hmem => hlevelOf level' name' ?_⟩
  rcases List.mem_cons.1 hmem with heq | hmem
  · cases heq
  · exact hmem

theorem one (level : Nat) (name : Name) (h : n ≤ n') :
    Spread n (n' + 1) [.binder level (name.link n')] := by
  refine ⟨Nat.le_succ_of_le h, fun _ => level, fun level' name' hmem => ?_⟩
  cases List.mem_singleton.1 hmem
  exact ⟨n', rfl, h, Nat.lt_succ_self n', rfl⟩

theorem widen (h : Spread n' n'' occurrences) (hle : n ≤ n') : Spread n n'' occurrences := by
  obtain ⟨levelOf, hlevelOf⟩ := h.levels
  refine ⟨Nat.le_trans hle h.le, levelOf, fun level name hmem => ?_⟩
  obtain ⟨id, hname, hlow, hhigh, hlevel⟩ := hlevelOf level name hmem
  exact ⟨id, hname, Nat.le_trans hle hlow, hhigh, hlevel⟩

/-- Bindings below `n'` have the levels of the first phrase, the others those of the second. -/
theorem append (h : Spread n n' occurrences) (h' : Spread n' n'' occurrences') :
    Spread n n'' (occurrences ++ occurrences') := by
  obtain ⟨levelOf, hlevelOf⟩ := h.levels
  obtain ⟨levelOf', hlevelOf'⟩ := h'.levels
  refine ⟨Nat.le_trans h.le h'.le, fun id => if id < n' then levelOf id else levelOf' id,
    fun level name hmem => ?_⟩
  rcases List.mem_append.1 hmem with hmem | hmem
  · obtain ⟨id, hname, hlow, hhigh, hlevel⟩ := hlevelOf level name hmem
    exact ⟨id, hname, hlow, Nat.lt_of_lt_of_le hhigh h'.le, (if_pos hhigh).trans hlevel⟩
  · obtain ⟨id, hname, hlow, hhigh, hlevel⟩ := hlevelOf' level name hmem
    exact ⟨id, hname, Nat.le_trans h.le hlow, hhigh,
      (if_neg (Nat.not_lt.2 hlow)).trans hlevel⟩

end Spread

mutual

theorem Formal.Typed.spread {Γ Γ' : Env} {p p' : Supply} {formal formal' : Formal}
    {shape : FormalShape} (level : Nat) : Formal.Typed Γ p formal formal' shape Γ' p' →
    Spread p.bindings p'.bindings (formal'.occurrences level)
  | .const htype _ | .var htype _ => .one level _ htype.before.bindings
  | .proc hinner _ => .append (hinner.spread level) (.one level _ (Nat.le_refl _))
  | .func hresult hinner _ =>
    .widen (.append (hinner.spread level) (.one level _ (Nat.le_refl _)))
      hresult.before.bindings

theorem Formals.Typed.spread {Γ Γ' : Env} {p p' : Supply} {formals formals' : Formals}
    {shapes : Signature} (level : Nat) : Formals.Typed Γ p formals formals' shapes Γ' p' →
    Spread p.bindings p'.bindings (formals'.occurrences level)
  | .empty => .nil (Nat.le_refl _)
  | .one hfirst => hfirst.spread level
  | .more hfirst hrest => .append (hfirst.spread level) (hrest.spread level)

end

mutual

theorem Command.Typed.spread {Γ : Env} {p p' : Supply} {command command' : Command}
    (level : Nat) : Command.Typed Γ p command command' p' →
    Spread p.bindings p'.bindings (command'.occurrences level)
  | .empty => .nil (Nat.le_refl _)
  | .assign htarget hvalue _ _ => .append (htarget.spread level) (hvalue.spread level)
  | .call _ hargs => .use (hargs.spread level) _ _
  | .sequence hfirst hsecond => .append (hfirst.spread level) (hsecond.spread level)
  | .letIn hdeclared hbody => .append (hdeclared.spread level) (hbody.spread level)
  | .ifElse hcondition hthen helse =>
    .append (hcondition.spread level) (.append (hthen.spread level) (helse.spread level))
  | .whileDo hcondition hbody => .append (hcondition.spread level) (hbody.spread level)
  | .repeatUntil hbody hcondition => .append (hbody.spread level) (hcondition.spread level)
  | .loopWhile hbody hcondition htail =>
    .append (hbody.spread level) (.append (hcondition.spread level) (htail.spread level))

theorem Expression.Typed.spread {Γ : Env} {p p' : Supply} {expression expression' : Expression}
    {type : TypeDenoter} (level : Nat) : Expression.Typed Γ p expression expression' type p' →
    Spread p.bindings p'.bindings (expression'.occurrences level)
  | .integer | .character => .nil (Nat.le_refl _)
  | .vname hfound => hfound.spread level
  | .call _ hargs => .use (hargs.spread level) _ _
  | .ifElse hcondition hthen helse _ =>
    .append (hcondition.spread level) (.append (hthen.spread level) (helse.spread level))
  | .letIn hdeclared hbody => .append (hdeclared.spread level) (hbody.spread level)
  | .unary hoperand _ _ => .use (hoperand.spread level) _ _
  | .binary hleft hright _ _ _ | .equality hleft hright _ _ =>
    .use (.append (hleft.spread level) (hright.spread level)) _ _
  | .array helements => helements.spread level
  | .record hfields => hfields.spread level

theorem ArrayAggregate.Typed.spread {Γ : Env} {p p' : Supply}
    {elements elements' : ArrayAggregate} {type : TypeDenoter} (level : Nat) :
    ArrayAggregate.Typed Γ p elements elements' type p' →
    Spread p.bindings p'.bindings (elements'.occurrences level)
  | .one helement => helement.spread level
  | .more helement hrest _ => .append (helement.spread level) (hrest.spread level)

theorem RecordAggregate.Typed.spread {Γ : Env} {p p' : Supply}
    {fields fields' : RecordAggregate} {types : Fields} (level : Nat) :
    RecordAggregate.Typed Γ p fields fields' types p' →
    Spread p.bindings p'.bindings (fields'.occurrences level)
  | .one hvalue => hvalue.spread level
  | .more hvalue hrest _ => .append (hvalue.spread level) (hrest.spread level)

theorem Vname.Typed.spread {Γ : Env} {p p' : Supply} {vname vname' : Vname}
    {type : TypeDenoter} (level : Nat) : Vname.Typed Γ p vname vname' type p' →
    Spread p.bindings p'.bindings (vname'.occurrences level)
  | .const _ | .var _ => .use (.nil (Nat.le_refl _)) _ _
  | .dot hrecord _ => hrecord.spread level
  | .subscript harray hindex => .append (harray.spread level) (hindex.spread level)

theorem Declaration.Typed.spread {Γ Γ' : Env} {p p' : Supply}
    {declaration declaration' : Declaration} (level : Nat) :
    Declaration.Typed Γ p declaration declaration' Γ' p' →
    Spread p.bindings p'.bindings (declaration'.occurrences level)
  | .const hvalue _ => .append (hvalue.spread level) (.one level _ (Nat.le_refl _))
  | .var htype _ | .type htype _ => .one level _ htype.before.bindings
  | .proc _ hparameters hbody =>
    .append (.one level _ (Nat.le_refl _))
      (.append (hparameters.spread (level + 1)) (hbody.spread (level + 1)))
  | .func hresult _ hparameters hbody _ =>
    .append (.one level _ hresult.before.bindings)
      (.append (hparameters.spread (level + 1)) (hbody.spread (level + 1)))
  | .sequence hfirst hsecond => .append (hfirst.spread level) (hsecond.spread level)

theorem Actuals.Typed.spread {Γ : Env} {p p' : Supply} {actuals actuals' : Actuals}
    {shapes : Signature} (level : Nat) : Actuals.Typed Γ p actuals shapes actuals' p' →
    Spread p.bindings p'.bindings (actuals'.occurrences level)
  | .empty => .nil (Nat.le_refl _)
  | .one hfirst => hfirst.spread level
  | .more hfirst hrest => .append (hfirst.spread level) (hrest.spread level)

theorem Actual.Typed.spread {Γ : Env} {p p' : Supply} {actual actual' : Actual}
    {shape : FormalShape} (level : Nat) : Actual.Typed Γ p actual shape actual' p' →
    Spread p.bindings p'.bindings (actual'.occurrences level)
  | .const hvalue _ => hvalue.spread level
  | .var hfound _ _ => hfound.spread level
  | .proc _ _ | .func _ _ _ => .use (.nil (Nat.le_refl _)) _ _

end

/-! ## Levels of what is used -/

/-- A name is of the level of its occurrence if it is introduced there, and of no deeper one if
    it is used. -/
def Occurrence.Fits (levelOf : BindingId → Nat) : Occurrence → Prop
  | .use level name => ∀ id, name.binding = some id → levelOf id ≤ level
  | .binder level name => ∀ id, name.binding = some id → levelOf id = level

/-- What is introduced is of the level of its occurrence. -/
def Occurrence.Binds (levelOf : BindingId → Nat) : Occurrence → Prop
  | .use .. => True
  | .binder level name => ∀ id, name.binding = some id → levelOf id = level

/-- Nothing in the environment is of a deeper level. -/
def Env.Within (levelOf : BindingId → Nat) (level : Nat) (Γ : Env) : Prop :=
  ∀ entry ∈ Γ.entries, levelOf entry.2.1 ≤ level

variable {levelOf : BindingId → Nat} {level level' : Nat}

namespace Env.Within

variable {Γ : Env}

theorem mono (h : Γ.Within levelOf level) (hle : level ≤ level') : Γ.Within levelOf level' :=
  fun entry hmem => Nat.le_trans (h entry hmem) hle

theorem enclose (h : Γ.Within levelOf level) : Γ.enclose.Within levelOf level := by
  intro entry hmem
  rw [entries_enclose] at hmem
  exact h entry hmem

theorem enter (h : Γ.Within levelOf level) {name : String} {id : BindingId} {kind : BindingKind}
    (hid : levelOf id ≤ level) : (Γ.enter name id kind).Within levelOf level :=
  List.forall_mem_cons.2 ⟨hid, h⟩

/-- What a name stands for is of no deeper level. -/
theorem use (h : Γ.Within levelOf level) {name : Name} {id : BindingId} {kind : BindingKind}
    (hfind : Γ.find? name.spelling = some (id, kind)) :
    (Occurrence.use level (name.link id)).Fits levelOf := by
  intro id' hid'
  obtain rfl := Option.some.inj hid'
  exact h _ (mem_entries_of_find? hfind)

end Env.Within

variable {occurrences occurrences' : List Occurrence}

/-- Every name that is introduced is of the level of its occurrence. -/
def Binds (levelOf : BindingId → Nat) (occurrences : List Occurrence) : Prop :=
  ∀ occurrence ∈ occurrences, occurrence.Binds levelOf

/-- Every name fits the level of its occurrence. -/
def Fits (levelOf : BindingId → Nat) (occurrences : List Occurrence) : Prop :=
  ∀ occurrence ∈ occurrences, occurrence.Fits levelOf

/-- What was bound before counts as introduced outside of all routines. -/
theorem Spread.binds {n n' : BindingId} (h : Spread n n' occurrences) :
    ∃ levelOf, (∀ id < n, levelOf id = 0) ∧ Binds levelOf occurrences := by
  obtain ⟨levelOf, hlevelOf⟩ := h.levels
  refine ⟨fun id => if id < n then 0 else levelOf id, fun id hid => if_pos hid,
    fun occurrence hmem => ?_⟩
  cases occurrence with
  | use level name => trivial
  | binder level name =>
    intro id hid
    obtain ⟨id', hid', hlow, -, hlevel⟩ := hlevelOf level name hmem
    obtain rfl := Option.some.inj (hid'.symm.trans hid)
    exact (if_neg (Nat.not_lt.2 hlow)).trans hlevel

namespace Binds

theorem append (h : Binds levelOf (occurrences ++ occurrences')) :
    Binds levelOf occurrences ∧ Binds levelOf occurrences' :=
  List.forall_mem_append.1 h

theorem cons {occurrence : Occurrence} (h : Binds levelOf (occurrence :: occurrences)) :
    occurrence.Binds levelOf ∧ Binds levelOf occurrences :=
  List.forall_mem_cons.1 h

end Binds

namespace Fits

theorem nil : Fits levelOf [] := fun _ hmem => absurd hmem List.not_mem_nil

theorem cons {occurrence : Occurrence} (h : occurrence.Fits levelOf)
    (h' : Fits levelOf occurrences) : Fits levelOf (occurrence :: occurrences) :=
  List.forall_mem_cons.2 ⟨h, h'⟩

theorem append (h : Fits levelOf occurrences) (h' : Fits levelOf occurrences') :
    Fits levelOf (occurrences ++ occurrences') :=
  List.forall_mem_append.2 ⟨h, h'⟩

end Fits

mutual

theorem Formal.Typed.fits {Γ Γ' : Env} {p p' : Supply} {formal formal' : Formal}
    {shape : FormalShape} (hΓ : Γ.Within levelOf level) :
    Formal.Typed Γ p formal formal' shape Γ' p' → Binds levelOf (formal'.occurrences level) →
    Fits levelOf (formal'.occurrences level) ∧ Γ'.Within levelOf level
  | .const _ _, hbinds | .var _ _, hbinds => by
    have hname := hbinds.cons.1
    exact ⟨.cons hname .nil, hΓ.enter (Nat.le_of_eq (hname _ rfl))⟩
  | .proc hinner _, hbinds | .func _ hinner _, hbinds => by
    obtain ⟨hbinds₁, hbinds₂⟩ := hbinds.append
    have hname := hbinds₂.cons.1
    exact ⟨.append (hinner.fits hΓ.enclose hbinds₁).1 (.cons hname .nil),
      hΓ.enter (Nat.le_of_eq (hname _ rfl))⟩

theorem Formals.Typed.fits {Γ Γ' : Env} {p p' : Supply} {formals formals' : Formals}
    {shapes : Signature} (hΓ : Γ.Within levelOf level) :
    Formals.Typed Γ p formals formals' shapes Γ' p' → Binds levelOf (formals'.occurrences level) →
    Fits levelOf (formals'.occurrences level) ∧ Γ'.Within levelOf level
  | .empty, _ => ⟨.nil, hΓ⟩
  | .one hfirst, hbinds => hfirst.fits hΓ hbinds
  | .more hfirst hrest, hbinds => by
    obtain ⟨hbinds₁, hbinds₂⟩ := hbinds.append
    obtain ⟨hfits₁, hΓ'⟩ := hfirst.fits hΓ hbinds₁
    obtain ⟨hfits₂, hΓ''⟩ := hrest.fits hΓ' hbinds₂
    exact ⟨hfits₁.append hfits₂, hΓ''⟩

end

mutual

/-- In a decorated tree every name fits its level. -/
theorem Command.Typed.fits {Γ : Env} {p p' : Supply} {command command' : Command} {level : Nat}
    (hΓ : Γ.Within levelOf level) : Command.Typed Γ p command command' p' →
    Binds levelOf (command'.occurrences level) → Fits levelOf (command'.occurrences level)
  | .empty, _ => .nil
  | .assign htarget hvalue _ _, hbinds =>
    .append (htarget.fits hΓ hbinds.append.1) (hvalue.fits hΓ hbinds.append.2)
  | .call hfind hargs, hbinds => .cons (hΓ.use hfind) (hargs.fits hΓ hbinds.cons.2)
  | .sequence hfirst hsecond, hbinds =>
    .append (hfirst.fits hΓ hbinds.append.1) (hsecond.fits hΓ hbinds.append.2)
  | .letIn hdeclared hbody, hbinds => by
    obtain ⟨hfits, hΓ'⟩ := hdeclared.fits hΓ.enclose hbinds.append.1
    exact hfits.append (hbody.fits hΓ' hbinds.append.2)
  | .ifElse hcondition hthen helse, hbinds =>
    .append (hcondition.fits hΓ hbinds.append.1)
      (.append (hthen.fits hΓ hbinds.append.2.append.1) (helse.fits hΓ hbinds.append.2.append.2))
  | .whileDo hcondition hbody, hbinds =>
    .append (hcondition.fits hΓ hbinds.append.1) (hbody.fits hΓ hbinds.append.2)
  | .repeatUntil hbody hcondition, hbinds =>
    .append (hbody.fits hΓ hbinds.append.1) (hcondition.fits hΓ hbinds.append.2)
  | .loopWhile hbody hcondition htail, hbinds =>
    .append (hbody.fits hΓ hbinds.append.1)
      (.append (hcondition.fits hΓ hbinds.append.2.append.1)
        (htail.fits hΓ hbinds.append.2.append.2))

theorem Expression.Typed.fits {Γ : Env} {p p' : Supply} {expression expression' : Expression}
    {type : TypeDenoter} {level : Nat} (hΓ : Γ.Within levelOf level) :
    Expression.Typed Γ p expression expression' type p' →
    Binds levelOf (expression'.occurrences level) → Fits levelOf (expression'.occurrences level)
  | .integer, _ | .character, _ => .nil
  | .vname hfound, hbinds => hfound.fits hΓ hbinds
  | .call hfind hargs, hbinds => .cons (hΓ.use hfind) (hargs.fits hΓ hbinds.cons.2)
  | .ifElse hcondition hthen helse _, hbinds =>
    .append (hcondition.fits hΓ hbinds.append.1)
      (.append (hthen.fits hΓ hbinds.append.2.append.1) (helse.fits hΓ hbinds.append.2.append.2))
  | .letIn hdeclared hbody, hbinds => by
    obtain ⟨hfits, hΓ'⟩ := hdeclared.fits hΓ.enclose hbinds.append.1
    exact hfits.append (hbody.fits hΓ' hbinds.append.2)
  | .unary hoperand hfind _, hbinds => .cons (hΓ.use hfind) (hoperand.fits hΓ hbinds.cons.2)
  | .binary hleft hright hfind _ _, hbinds | .equality hleft hright hfind _, hbinds =>
    .cons (hΓ.use hfind)
      (.append (hleft.fits hΓ hbinds.cons.2.append.1) (hright.fits hΓ hbinds.cons.2.append.2))
  | .array helements, hbinds => helements.fits hΓ hbinds
  | .record hfields, hbinds => hfields.fits hΓ hbinds

theorem ArrayAggregate.Typed.fits {Γ : Env} {p p' : Supply}
    {elements elements' : ArrayAggregate} {type : TypeDenoter} {level : Nat}
    (hΓ : Γ.Within levelOf level) : ArrayAggregate.Typed Γ p elements elements' type p' →
    Binds levelOf (elements'.occurrences level) → Fits levelOf (elements'.occurrences level)
  | .one helement, hbinds => helement.fits hΓ hbinds
  | .more helement hrest _, hbinds =>
    .append (helement.fits hΓ hbinds.append.1) (hrest.fits hΓ hbinds.append.2)

theorem RecordAggregate.Typed.fits {Γ : Env} {p p' : Supply}
    {fields fields' : RecordAggregate} {types : Fields} {level : Nat}
    (hΓ : Γ.Within levelOf level) : RecordAggregate.Typed Γ p fields fields' types p' →
    Binds levelOf (fields'.occurrences level) → Fits levelOf (fields'.occurrences level)
  | .one hvalue, hbinds => hvalue.fits hΓ hbinds
  | .more hvalue hrest _, hbinds =>
    .append (hvalue.fits hΓ hbinds.append.1) (hrest.fits hΓ hbinds.append.2)

theorem Vname.Typed.fits {Γ : Env} {p p' : Supply} {vname vname' : Vname}
    {type : TypeDenoter} {level : Nat} (hΓ : Γ.Within levelOf level) :
    Vname.Typed Γ p vname vname' type p' →
    Binds levelOf (vname'.occurrences level) → Fits levelOf (vname'.occurrences level)
  | .const hfind, _ | .var hfind, _ => .cons (hΓ.use hfind) .nil
  | .dot hrecord _, hbinds => by
    have hfits := hrecord.fits hΓ hbinds
    exact hfits
  | .subscript harray hindex, hbinds =>
    .append (harray.fits hΓ hbinds.append.1) (hindex.fits hΓ hbinds.append.2)

/-- What is declared is of the level of the declaration. -/
theorem Declaration.Typed.fits {Γ Γ' : Env} {p p' : Supply}
    {declaration declaration' : Declaration} {level : Nat} (hΓ : Γ.Within levelOf level) :
    Declaration.Typed Γ p declaration declaration' Γ' p' →
    Binds levelOf (declaration'.occurrences level) →
    Fits levelOf (declaration'.occurrences level) ∧ Γ'.Within levelOf level
  | .const hvalue _, hbinds => by
    have hname := hbinds.append.2.cons.1
    exact ⟨.append (hvalue.fits hΓ hbinds.append.1) (.cons hname .nil),
      hΓ.enter (Nat.le_of_eq (hname _ rfl))⟩
  | .var _ _, hbinds | .type _ _, hbinds => by
    have hname := hbinds.cons.1
    exact ⟨.cons hname .nil, hΓ.enter (Nat.le_of_eq (hname _ rfl))⟩
  | .proc _ hparameters hbody, hbinds | .func _ _ hparameters hbody _, hbinds => by
    obtain ⟨hname, hbinds⟩ := hbinds.cons
    have hid := Nat.le_of_eq (hname _ rfl)
    -- the parameters see the routine from one level deeper
    obtain ⟨hfits, hΓ'⟩ := hparameters.fits ((hΓ.enter hid).mono (Nat.le_succ level)).enclose
      hbinds.append.1
    exact ⟨.cons hname (hfits.append (hbody.fits hΓ' hbinds.append.2)), hΓ.enter hid⟩
  | .sequence hfirst hsecond, hbinds => by
    obtain ⟨hfits₁, hΓ'⟩ := hfirst.fits hΓ hbinds.append.1
    obtain ⟨hfits₂, hΓ''⟩ := hsecond.fits hΓ' hbinds.append.2
    exact ⟨hfits₁.append hfits₂, hΓ''⟩

theorem Actuals.Typed.fits {Γ : Env} {p p' : Supply} {actuals actuals' : Actuals}
    {shapes : Signature} {level : Nat} (hΓ : Γ.Within levelOf level) :
    Actuals.Typed Γ p actuals shapes actuals' p' →
    Binds levelOf (actuals'.occurrences level) → Fits levelOf (actuals'.occurrences level)
  | .empty, _ => .nil
  | .one hfirst, hbinds => hfirst.fits hΓ hbinds
  | .more hfirst hrest, hbinds =>
    .append (hfirst.fits hΓ hbinds.append.1) (hrest.fits hΓ hbinds.append.2)

theorem Actual.Typed.fits {Γ : Env} {p p' : Supply} {actual actual' : Actual}
    {shape : FormalShape} {level : Nat} (hΓ : Γ.Within levelOf level) :
    Actual.Typed Γ p actual shape actual' p' →
    Binds levelOf (actual'.occurrences level) → Fits levelOf (actual'.occurrences level)
  | .const hvalue _, hbinds => hvalue.fits hΓ hbinds
  | .var hfound _ _, hbinds => hfound.fits hΓ hbinds
  | .proc hfind _, _ | .func hfind _ _, _ => .cons (hΓ.use hfind) .nil

end

end TriangleTam
