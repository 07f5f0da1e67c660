import Mathlib.Data.List.Nodup
import TriangleTam.Proofs.Coding.Walk

/-! # What a program introduces

  The items that a phrase introduces are those of its declarations and
  parameters, however deep they lie. In a decorated tree each of them has a
  binding of its own. Whatever is in scope at a visit was in scope at the start
  or is introduced on the way, so a binding says which item it belongs to, for
  all visits of a program at once.
-/

namespace TriangleTam

/-! ## Items of phrases -/

mutual

/-- All items that are introduced in the command. -/
def Command.introduced : Command → List Item
  | .empty _ => []
  | .assign _ target value => target.introduced ++ value.introduced
  | .call _ _ args => args.introduced
  | .sequence _ first second => first.introduced ++ second.introduced
  | .letIn _ declared body => declared.introduced ++ body.introduced
  | .ifElse _ condition thenBranch elseBranch =>
    condition.introduced ++ (thenBranch.introduced ++ elseBranch.introduced)
  | .whileDo _ condition body => condition.introduced ++ body.introduced
  | .repeatUntil _ body condition => body.introduced ++ condition.introduced
  | .loopWhile _ body condition tail =>
    body.introduced ++ (condition.introduced ++ tail.introduced)

def Expression.introduced : Expression → List Item
  | .integer .. | .character .. => []
  | .vname _ _ found => found.introduced
  | .call _ _ _ args => args.introduced
  | .ifElse _ _ condition thenBranch elseBranch =>
    condition.introduced ++ (thenBranch.introduced ++ elseBranch.introduced)
  | .letIn _ _ declared body => declared.introduced ++ body.introduced
  | .unary _ _ _ operand => operand.introduced
  | .binary _ _ left _ right => left.introduced ++ right.introduced
  | .array _ _ elements => elements.introduced
  | .record _ _ fields => fields.introduced

def ArrayAggregate.introduced : ArrayAggregate → List Item
  | .one _ element => element.introduced
  | .more _ element rest => element.introduced ++ rest.introduced

def RecordAggregate.introduced : RecordAggregate → List Item
  | .one _ _ value => value.introduced
  | .more _ _ value rest => value.introduced ++ rest.introduced

def Vname.introduced : Vname → List Item
  | .simple .. => []
  | .dot _ _ _ record _ => record.introduced
  | .subscript _ _ _ array index => array.introduced ++ index.introduced

def Declaration.introduced : Declaration → List Item
  | .const span duplicated name value =>
    value.introduced ++ [.declared (.const span duplicated name value)]
  | .var span duplicated name type => [.declared (.var span duplicated name type)]
  | .proc span duplicated name parameters body =>
    .declared (.proc span duplicated name parameters body) ::
      (parameters.items ++ body.introduced)
  | .func span duplicated name parameters result body =>
    .declared (.func span duplicated name parameters result body) ::
      (parameters.items ++ body.introduced)
  | .type span duplicated name type => [.declared (.type span duplicated name type)]
  | .sequence _ first second => first.introduced ++ second.introduced

def Actuals.introduced : Actuals → List Item
  | .empty _ => []
  | .one _ first => first.introduced
  | .more _ first rest => first.introduced ++ rest.introduced

def Actual.introduced : Actual → List Item
  | .const _ value => value.introduced
  | .var _ found => found.introduced
  | .proc .. | .func .. => []

end

/-- All items that are introduced in the phrase. -/
def Phrase.introduced : Phrase → List Item
  | .command phrase => phrase.introduced
  | .expression phrase => phrase.introduced
  | .arrayAggregate phrase => phrase.introduced
  | .recordAggregate phrase => phrase.introduced
  | .vname phrase => phrase.introduced
  | .declaration phrase => phrase.introduced
  | .actuals phrase => phrase.introduced
  | .actual phrase => phrase.introduced

/-! ## Bindings -/

/-- The items have bindings of their own, all of them in a range. -/
structure Item.Numbered (lo hi : Nat) (items : List Item) : Prop where
  within   : ∀ item ∈ items, ∃ id, item.binding? = some id ∧ lo ≤ id ∧ id < hi
  distinct : (items.map Item.binding?).Nodup

namespace Item.Numbered

variable {lo mid hi lo' hi' : Nat} {items others : List Item} {item : Item}

theorem nil : Numbered lo hi [] :=
  ⟨fun _ hmem => absurd hmem List.not_mem_nil, List.nodup_nil⟩

theorem mono (h : Numbered lo hi items) (hlo : lo' ≤ lo) (hhi : hi ≤ hi') :
    Numbered lo' hi' items := by
  refine ⟨fun item hmem => ?_, h.distinct⟩
  obtain ⟨id, hid, hlo', hhi'⟩ := h.within item hmem
  exact ⟨id, hid, Nat.le_trans hlo hlo', Nat.lt_of_lt_of_le hhi' hhi⟩

theorem singleton {id : BindingId} (hid : item.binding? = some id) (hlo : lo ≤ id)
    (hhi : id < hi) : Numbered lo hi [item] := by
  refine ⟨fun item' hmem => ?_, List.nodup_singleton _⟩
  obtain rfl := List.mem_singleton.1 hmem
  exact ⟨id, hid, hlo, hhi⟩

/-- Items from two ranges, in one order or the other. -/
theorem append (h : Numbered lo mid items) (h' : Numbered mid hi others) (hlo : lo ≤ mid)
    (hhi : mid ≤ hi) : Numbered lo hi (items ++ others) := by
  refine ⟨fun item hmem => ?_, ?_⟩
  · rcases List.mem_append.1 hmem with hmem | hmem
    · exact (h.mono (Nat.le_refl lo) hhi).within item hmem
    · exact (h'.mono hlo (Nat.le_refl hi)).within item hmem
  · rw [List.map_append]
    refine h.distinct.append h'.distinct ?_
    -- a binding of both would lie below `mid` and not below it
    intro binding hmem hmem'
    obtain ⟨item, hitem, rfl⟩ := List.mem_map.1 hmem
    obtain ⟨item', hitem', heq⟩ := List.mem_map.1 hmem'
    obtain ⟨id, hid, -, hlt⟩ := h.within item hitem
    obtain ⟨id', hid', hle, -⟩ := h'.within item' hitem'
    rw [hid, hid'] at heq
    obtain rfl := Option.some.inj heq
    exact absurd hle (Nat.not_le.2 hlt)

theorem perm (h : Numbered lo hi items) (hperm : items.Perm others) : Numbered lo hi others := by
  refine ⟨fun item hmem => h.within item (hperm.mem_iff.2 hmem), ?_⟩
  exact (hperm.map Item.binding?).nodup_iff.1 h.distinct

/-- A binding says which item it belongs to. -/
theorem eq_of_binding (h : Numbered lo hi items) {item' : Item} (hmem : item ∈ items)
    (hmem' : item' ∈ items) (hbinding : item.binding? = item'.binding?) : item = item' :=
  List.inj_on_of_nodup_map h.distinct hmem hmem' hbinding

end Item.Numbered

open Item (Numbered)

mutual

theorem Formal.Typed.numbered {Γ Γ' : Env} {p p' : Supply} {formal formal' : Formal}
    {shape : FormalShape} : Formal.Typed Γ p formal formal' shape Γ' p' →
    Numbered p.bindings p'.bindings [.parameter formal']
  | .const htype _ | .var htype _ =>
    .singleton (Item.binding?_parameter _) htype.before.bindings (Nat.lt_succ_self _)
  | .proc hinner _ =>
    .singleton (Item.binding?_parameter _) hinner.before.bindings (Nat.lt_succ_self _)
  | .func hresult hinner _ =>
    .singleton (Item.binding?_parameter _) (hresult.before.trans hinner.before).bindings
      (Nat.lt_succ_self _)

theorem Formals.Typed.numbered {Γ Γ' : Env} {p p' : Supply} {formals formals' : Formals}
    {shapes : Signature} : Formals.Typed Γ p formals formals' shapes Γ' p' →
    Numbered p.bindings p'.bindings formals'.items
  | .empty => .nil
  | .one hfirst => hfirst.numbered
  | .more hfirst hrest =>
    (hfirst.numbered.append hrest.numbered hfirst.before.bindings hrest.before.bindings).perm
      List.perm_append_comm

end

mutual

/-- The items of a decorated tree have bindings of their own: those that checking supplied. -/
theorem Command.Typed.numbered {Γ : Env} {p p' : Supply} {command command' : Command} :
    Command.Typed Γ p command command' p' →
    Numbered p.bindings p'.bindings command'.introduced
  | .empty => .nil
  | .assign htarget hvalue _ _ =>
    htarget.numbered.append hvalue.numbered htarget.before.bindings hvalue.before.bindings
  | .call _ hargs => hargs.numbered
  | .sequence hfirst hsecond =>
    hfirst.numbered.append hsecond.numbered hfirst.before.bindings hsecond.before.bindings
  | .letIn hdeclared hbody =>
    hdeclared.numbered.append hbody.numbered hdeclared.before.bindings hbody.before.bindings
  | .ifElse hcondition hthen helse =>
    hcondition.numbered.append
      (hthen.numbered.append helse.numbered hthen.before.bindings helse.before.bindings)
      hcondition.before.bindings (hthen.before.trans helse.before).bindings
  | .whileDo hcondition hbody =>
    hcondition.numbered.append hbody.numbered hcondition.before.bindings hbody.before.bindings
  | .repeatUntil hbody hcondition =>
    hbody.numbered.append hcondition.numbered hbody.before.bindings hcondition.before.bindings
  | .loopWhile hbody hcondition htail =>
    hbody.numbered.append
      (hcondition.numbered.append htail.numbered hcondition.before.bindings htail.before.bindings)
      hbody.before.bindings (hcondition.before.trans htail.before).bindings

theorem Expression.Typed.numbered {Γ : Env} {p p' : Supply} {expression expression' : Expression}
    {type : TypeDenoter} : Expression.Typed Γ p expression expression' type p' →
    Numbered p.bindings p'.bindings expression'.introduced
  | .integer | .character => .nil
  | .vname hfound => hfound.numbered
  | .call _ hargs => hargs.numbered
  | .ifElse hcondition hthen helse _ =>
    hcondition.numbered.append
      (hthen.numbered.append helse.numbered hthen.before.bindings helse.before.bindings)
      hcondition.before.bindings (hthen.before.trans helse.before).bindings
  | .letIn hdeclared hbody =>
    hdeclared.numbered.append hbody.numbered hdeclared.before.bindings hbody.before.bindings
  | .unary hoperand _ _ => hoperand.numbered
  | .binary hleft hright _ _ _ | .equality hleft hright _ _ =>
    hleft.numbered.append hright.numbered hleft.before.bindings hright.before.bindings
  | .array helements => helements.numbered
  | .record hfields => hfields.numbered

theorem ArrayAggregate.Typed.numbered {Γ : Env} {p p' : Supply}
    {elements elements' : ArrayAggregate} {type : TypeDenoter} :
    ArrayAggregate.Typed Γ p elements elements' type p' →
    Numbered p.bindings p'.bindings elements'.introduced
  | .one helement => helement.numbered
  | .more helement hrest _ =>
    helement.numbered.append hrest.numbered helement.before.bindings hrest.before.bindings

theorem RecordAggregate.Typed.numbered {Γ : Env} {p p' : Supply}
    {fields fields' : RecordAggregate} {types : Fields} :
    RecordAggregate.Typed Γ p fields fields' types p' →
    Numbered p.bindings p'.bindings fields'.introduced
  | .one hvalue => hvalue.numbered
  | .more hvalue hrest _ =>
    hvalue.numbered.append hrest.numbered hvalue.before.bindings hrest.before.bindings

theorem Vname.Typed.numbered {Γ : Env} {p p' : Supply} {vname vname' : Vname}
    {type : TypeDenoter} : Vname.Typed Γ p vname vname' type p' →
    Numbered p.bindings p'.bindings vname'.introduced
  | .const _ | .var _ => .nil
  | .dot hrecord _ => hrecord.numbered
  | .subscript harray hindex =>
    harray.numbered.append hindex.numbered harray.before.bindings hindex.before.bindings

theorem Declaration.Typed.numbered {Γ Γ' : Env} {p p' : Supply}
    {declaration declaration' : Declaration} :
    Declaration.Typed Γ p declaration declaration' Γ' p' →
    Numbered p.bindings p'.bindings declaration'.introduced
  | .const hvalue _ =>
    hvalue.numbered.append
      (.singleton (Item.binding?_declared (Declaration.introduces_const hvalue.type_eq) rfl)
        (Nat.le_refl _) (Nat.lt_succ_self _)) hvalue.before.bindings (Nat.le_succ _)
  | .var htype _ | .type htype _ =>
    .singleton (Item.binding?_declared rfl rfl) htype.before.bindings (Nat.lt_succ_self _)
  | .proc _ hparameters hbody => by
    have hinner := hparameters.numbered.append hbody.numbered hparameters.before.bindings
      hbody.before.bindings
    exact .append (.singleton (Item.binding?_declared rfl rfl) (Nat.le_refl _) (Nat.lt_succ_self _))
      hinner (Nat.le_succ _) (hparameters.before.trans hbody.before).bindings
  | .func hresult _ hparameters hbody _ => by
    have hinner := hparameters.numbered.append hbody.numbered hparameters.before.bindings
      hbody.before.bindings
    exact .append (.singleton (Item.binding?_declared rfl rfl) hresult.before.bindings
      (Nat.lt_succ_self _)) hinner (Nat.le_succ_of_le hresult.before.bindings)
      (hparameters.before.trans hbody.before).bindings
  | .sequence hfirst hsecond =>
    hfirst.numbered.append hsecond.numbered hfirst.before.bindings hsecond.before.bindings

theorem Actuals.Typed.numbered {Γ : Env} {p p' : Supply} {actuals actuals' : Actuals}
    {shapes : Signature} : Actuals.Typed Γ p actuals shapes actuals' p' →
    Numbered p.bindings p'.bindings actuals'.introduced
  | .empty => .nil
  | .one hfirst => hfirst.numbered
  | .more hfirst hrest =>
    hfirst.numbered.append hrest.numbered hfirst.before.bindings hrest.before.bindings

theorem Actual.Typed.numbered {Γ : Env} {p p' : Supply} {actual actual' : Actual}
    {shape : FormalShape} : Actual.Typed Γ p actual shape actual' p' →
    Numbered p.bindings p'.bindings actual'.introduced
  | .const hvalue _ => hvalue.numbered
  | .var hfound _ _ => hfound.numbered
  | .proc .. | .func .. => .nil

end

/-! ## Items in scope -/

namespace Part

/-- What is new in the part, or introduced in it, is introduced in the whole. -/
def InItems (items : List Item) (part : Part) : Prop :=
  part.opening.items ++ part.phrase.introduced ⊆ items

variable {items others : List Item} {part : Part}

theorem InItems.mono (h : part.InItems items) (hsubset : items ⊆ others) : part.InItems others :=
  fun _ hmem => hsubset (h hmem)

theorem InItems.sized (h : part.InItems items) (type : Option TypeDenoter) (span : Span) :
    (part.sized type span).InItems items := h

theorem InItems.inside {phrase : Phrase} {reach : Frame → Encode Frame}
    (h : phrase.introduced ⊆ items) : (Part.inside phrase reach).InItems items := h

theorem InItems.pair {first second : Phrase} {opening : Opening}
    (hopening : opening.items ⊆ first.introduced) :
    ∀ part ∈ Part.pair first second opening,
      part.InItems (first.introduced ++ second.introduced) := by
  intro part hmem
  simp only [Part.pair, List.mem_cons, List.not_mem_nil, or_false] at hmem
  rcases hmem with rfl | rfl
  · exact .inside (List.subset_append_left _ _)
  · exact List.append_subset.2 ⟨fun _ h => List.mem_append_left _ (hopening h),
      List.subset_append_right _ _⟩

theorem InItems.branches {condition : Expression} {thenPhrase elsePhrase : Phrase}
    {encodeThen : Frame → Encode Unit} :
    ∀ part ∈ Part.branches condition thenPhrase elsePhrase encodeThen,
      part.InItems (condition.introduced ++ (thenPhrase.introduced ++ elsePhrase.introduced)) := by
  intro part hmem
  simp only [Part.branches, List.mem_cons, List.not_mem_nil, or_false] at hmem
  rcases hmem with rfl | rfl | rfl
  · exact .inside (List.subset_append_left _ _)
  · exact .inside fun _ h => List.mem_append_right _ (List.mem_append_left _ h)
  · exact .inside fun _ h => List.mem_append_right _ (List.mem_append_right _ h)

end Part

/-- What a declaration is for is among what is introduced in it. -/
theorem Declaration.items_subset (declaration : Declaration) :
    declaration.items ⊆ declaration.introduced := by
  cases declaration with
  | const => exact List.subset_append_right _ _
  | var | type => exact fun _ h => h
  | proc | func => exact fun _ h => List.mem_cons.2 (.inl (List.mem_singleton.1 h))
  | sequence _ first second =>
    intro item hmem
    rcases List.mem_append.1 hmem with hmem | hmem
    · exact List.mem_append_right _ (second.items_subset hmem)
    · exact List.mem_append_left _ (first.items_subset hmem)

theorem Part.InItems.pair_after {declared : Declaration} {phrase : Phrase} :
    ∀ part ∈ Part.pair (.declaration declared) phrase (.after declared),
      part.InItems (declared.introduced ++ phrase.introduced) := by
  have hopening : (Opening.after declared).items ⊆ (Phrase.declaration declared).introduced :=
    declared.items_subset
  exact .pair hopening

theorem Command.parts_inItems {part : Part} :
    ∀ command : Command, part ∈ command.parts → part.InItems command.introduced
  | .empty _, hmem => absurd hmem List.not_mem_nil
  | .assign _ target value, hmem => by
    refine (Part.InItems.pair (List.nil_subset _) part hmem).mono ?_
    exact List.perm_append_comm.subset
  | .call _ _ args, hmem => by
    obtain rfl := List.mem_singleton.1 hmem
    exact .inside (List.Subset.refl _)
  | .sequence _ first second, hmem => by
    simp only [parts, List.mem_cons, List.not_mem_nil, or_false] at hmem
    rcases hmem with rfl | rfl
    · exact .inside (List.subset_append_left _ _)
    · exact .inside (List.subset_append_right _ _)
  | .letIn .., hmem => .pair_after part hmem
  | .ifElse .., hmem => .branches part hmem
  | .whileDo _ condition body, hmem => by
    simp only [parts, List.mem_cons, List.not_mem_nil, or_false] at hmem
    rcases hmem with rfl | rfl
    · exact .inside (List.subset_append_right _ _)
    · exact .inside (List.subset_append_left _ _)
  | .repeatUntil _ body condition, hmem => by
    simp only [parts, List.mem_cons, List.not_mem_nil, or_false] at hmem
    rcases hmem with rfl | rfl
    · exact .inside (List.subset_append_left _ _)
    · exact .inside (List.subset_append_right _ _)
  | .loopWhile _ body condition tail, hmem => by
    simp only [parts, List.mem_cons, List.not_mem_nil, or_false] at hmem
    rcases hmem with rfl | rfl | rfl
    · exact .inside (List.subset_append_left _ _)
    · exact .inside fun _ h => List.mem_append_right _ (List.mem_append_left _ h)
    · exact .inside fun _ h => List.mem_append_right _ (List.mem_append_right _ h)

theorem Expression.parts_inItems {part : Part} :
    ∀ expression : Expression, part ∈ expression.parts → part.InItems expression.introduced
  | .integer .., hmem | .character .., hmem => absurd hmem List.not_mem_nil
  | .vname .., hmem | .call .., hmem | .unary .., hmem | .array .., hmem | .record .., hmem => by
    obtain rfl := List.mem_singleton.1 hmem
    exact .inside (List.Subset.refl _)
  | .ifElse .., hmem => by
    obtain ⟨part', hmem', rfl⟩ := List.mem_map.1 hmem
    exact Part.InItems.branches part' hmem'
  | .letIn .., hmem => by
    obtain ⟨part', hmem', rfl⟩ := List.mem_map.1 hmem
    exact Part.InItems.pair_after part' hmem'
  | .binary .., hmem => by
    obtain ⟨part', hmem', rfl⟩ := List.mem_map.1 hmem
    exact Part.InItems.pair (List.nil_subset _) part' hmem'

theorem Vname.parts_inItems {part : Part} :
    ∀ vname : Vname, part ∈ vname.parts → part.InItems vname.introduced
  | .simple .., hmem => absurd hmem List.not_mem_nil
  | .dot .., hmem => by
    obtain rfl := List.mem_singleton.1 hmem
    exact .inside (List.Subset.refl _)
  | .subscript _ _ _ _ index, hmem => by
    rcases List.mem_cons.1 hmem with rfl | hmem
    · exact .inside (List.subset_append_left _ _)
    · by_cases hindex : index.integerValue?.isSome = true
      · rw [if_pos hindex] at hmem
        exact absurd hmem List.not_mem_nil
      · rw [if_neg hindex] at hmem
        obtain rfl := List.mem_singleton.1 hmem
        exact .inside (List.subset_append_right _ _)

theorem Declaration.parts_inItems {part : Part} :
    ∀ declaration : Declaration, part ∈ declaration.parts → part.InItems declaration.introduced
  | .var .., hmem | .type .., hmem => absurd hmem List.not_mem_nil
  | .const _ _ _ value, hmem => by
    by_cases hvalue : value.literalValue?.isSome = true
    · rw [parts, if_pos hvalue] at hmem
      exact absurd hmem List.not_mem_nil
    · rw [parts, if_neg hvalue] at hmem
      obtain rfl := List.mem_singleton.1 hmem
      exact .inside (List.subset_append_left _ _)
  | .proc _ _ _ parameters body, hmem | .func _ _ _ parameters _ body, hmem => by
    obtain rfl := List.mem_singleton.1 hmem
    -- the routine itself comes first among the items, and last among those of the opening
    intro item hmem
    simp only [Part.bodyOf, Opening.items, Phrase.introduced, List.mem_append,
      List.mem_singleton] at hmem
    simp only [introduced, List.mem_cons, List.mem_append]
    rcases hmem with (hparameter | hroutine) | hbody
    · exact .inr (.inl hparameter)
    · exact .inl hroutine
    · exact .inr (.inr hbody)
  | .sequence .., hmem => .pair_after part hmem

/-- What is new in a part, or introduced in it, is introduced in the whole phrase. -/
theorem Phrase.parts_inItems {phrase : Phrase} {part : Part} (hmem : part ∈ phrase.parts) :
    part.InItems phrase.introduced := by
  cases phrase with
  | command phrase => exact phrase.parts_inItems hmem
  | expression phrase => exact phrase.parts_inItems hmem
  | vname phrase => exact phrase.parts_inItems hmem
  | declaration phrase => exact phrase.parts_inItems hmem
  | arrayAggregate phrase =>
    cases phrase with
    | one =>
      obtain rfl := List.mem_singleton.1 hmem
      exact .inside (List.Subset.refl _)
    | more => exact Part.InItems.pair (List.nil_subset _) part hmem
  | recordAggregate phrase =>
    cases phrase with
    | one =>
      obtain rfl := List.mem_singleton.1 hmem
      exact .inside (List.Subset.refl _)
    | more => exact Part.InItems.pair (List.nil_subset _) part hmem
  | actuals phrase =>
    cases phrase with
    | empty => exact absurd hmem List.not_mem_nil
    | one =>
      obtain rfl := List.mem_singleton.1 hmem
      exact .inside (List.Subset.refl _)
    | more => exact Part.InItems.pair (List.nil_subset _) part hmem
  | actual phrase =>
    cases phrase with
    | const | var =>
      obtain rfl := List.mem_singleton.1 hmem
      exact .inside (List.Subset.refl _)
    | proc | func => exact absurd hmem List.not_mem_nil

/-- The items that are in scope at the visit or are introduced there. -/
def Visit.items (visit : Visit) : List Item :=
  visit.context.items ++ visit.call.phrase.introduced

/-- On the way no items come up but those of the start. -/
theorem Visit.Leads.items_subset {start visit : Visit} (h : start.Leads visit) :
    visit.items ⊆ start.items := by
  induction h with
  | refl => exact List.Subset.refl _
  | @part visit part frame s _ hpart _ _ ih =>
    refine List.Subset.trans ?_ ih
    have hitems := Phrase.parts_inItems hpart
    intro item hmem
    simp only [Visit.items, Opening.context, List.mem_append] at hmem ⊢
    rcases hmem with (hnew | hold) | hintroduced
    · exact .inr (hitems (List.mem_append_left _ hnew))
    · exact .inl hold
    · exact .inr (hitems (List.mem_append_right _ hintroduced))

/-! ## Standard items -/

theorem Context.standard_entered :
    Context.standard.items.map Item.entered? = Env.standard.entries.map some := by
  show (List.map _ (List.reverse _)) = (List.map _ (List.reverse _ ++ []))
  rw [List.append_nil, List.map_reverse, List.map_reverse, List.map_map, List.map_map]
  rfl

/-- Standard items have the first bindings. -/
theorem Context.standard_numbered : Numbered 0 Standard.bindings.size Context.standard.items := by
  have hwithin : ∀ item ∈ Context.standard.items,
      ∃ id, item.binding? = some id ∧ 0 ≤ id ∧ id < Standard.bindings.size := by
    intro item hmem
    have hentry : item.entered? ∈ Env.standard.entries.map some := by
      rw [← Context.standard_entered]
      exact List.mem_map_of_mem hmem
    obtain ⟨entry, hentry, heq⟩ := List.mem_map.1 hentry
    refine ⟨entry.2.1, ?_, Nat.zero_le _, Env.standard_below entry hentry⟩
    rw [Item.binding?, ← heq]
    rfl
  have hbindings : Context.standard.items.map Item.binding? =
      ((List.range' 0 Standard.declarations.length).map some).reverse := by
    show (List.map _ (List.reverse (List.map _ _))) = _
    rw [List.map_reverse, List.map_map, ← List.zipIdx_map_snd 0 Standard.declarations, List.map_map]
    rfl
  refine ⟨hwithin, ?_⟩
  rw [hbindings, List.nodup_reverse]
  exact List.Nodup.map (Option.some_injective _) List.nodup_range'

/-- A binding says which item it belongs to, in scope or introduced, in a program. -/
theorem Visit.Leads.eq_of_binding {Γ : Env} {p p' : Supply} {start first second : Visit}
    {command source : Command} (hcontext : start.context = .standard)
    (hphrase : start.call.phrase = .command command)
    (htyped : Command.Typed Γ p source command p') (hsupply : p.bindings = Standard.bindings.size)
    (hfirst : start.Leads first) (hsecond : start.Leads second) {item item' : Item}
    (hmem : item ∈ first.context.items) (hmem' : item' ∈ second.context.items)
    (hbinding : item.binding? = item'.binding?) : item = item' := by
  have hnumbered : Numbered 0 p'.bindings start.items := by
    unfold Visit.items
    rw [hcontext, hphrase]
    exact Context.standard_numbered.append (hsupply ▸ htyped.numbered) (Nat.zero_le _)
      (hsupply ▸ htyped.before.bindings)
  exact hnumbered.eq_of_binding (hfirst.items_subset (List.mem_append_left _ hmem))
    (hsecond.items_subset (List.mem_append_left _ hmem')) hbinding

end TriangleTam
