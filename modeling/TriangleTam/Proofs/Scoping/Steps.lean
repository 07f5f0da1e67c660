import TriangleTam.Proofs.Scoping.Rules
import TriangleTam.Proofs.Typing.Steps

/-! # Steps of resolution

  What the single steps of checking do to scopes and bindings, reports or not.
  Bindings only ever **grow**: none is taken back or renamed, and a routine is
  one of the same sort when its parameters become known. So what a name stands
  for may be said in terms of the bindings at the end of the run.
-/

namespace TriangleTam

/-! ## Growth of bindings -/

/-- A binding of the first kind may be found to be of the second. The parameters of a routine
    come to be known. -/
inductive BindingKind.Becomes : BindingKind → BindingKind → Prop
  | same {kind} : Becomes kind kind
  | proc {shapes shapes'} : Becomes (.proc shapes) (.proc shapes')
  | func {shapes shapes' result} : Becomes (.func shapes result) (.func shapes' result)

namespace BindingKind.Becomes

variable {kind kind' kind'' : BindingKind}

theorem trans (h : kind.Becomes kind') (h' : kind'.Becomes kind'') : kind.Becomes kind'' := by
  cases h with
  | same => exact h'
  | proc => cases h' <;> exact .proc
  | func => cases h' <;> exact .func

theorem role_eq (h : kind.Becomes kind') : kind'.role = kind.role := by
  cases h <;> rfl

/-- What is known from the start stays as it is. -/
theorem eq_const {type : TypeDenoter} (h : (BindingKind.const type).Becomes kind) :
    kind = .const type := by
  cases h
  rfl

theorem eq_var {type : TypeDenoter} (h : (BindingKind.var type).Becomes kind) :
    kind = .var type := by
  cases h
  rfl

theorem eq_type {type : TypeDenoter} (h : (BindingKind.type type).Becomes kind) :
    kind = .type type := by
  cases h
  rfl

theorem eq_proc {shapes : Signature} (h : (BindingKind.proc shapes).Becomes kind) :
    ∃ shapes', kind = .proc shapes' := by
  cases h <;> exact ⟨_, rfl⟩

theorem eq_func {shapes : Signature} {result : TypeDenoter}
    (h : (BindingKind.func shapes result).Becomes kind) :
    ∃ shapes', kind = .func shapes' result := by
  cases h <;> exact ⟨_, rfl⟩

end BindingKind.Becomes

@[simp] theorem Bindings.size_update (bindings : Bindings) (id : BindingId) (kind : BindingKind) :
    (bindings.update id kind).size = bindings.size :=
  Array.size_modify

/-- The second bindings may come of the first. -/
structure Bindings.Grow (bindings bindings' : Bindings) : Prop where
  size  : bindings.size ≤ bindings'.size
  keeps : ∀ {id : BindingId} {binding : Binding}, bindings[id]? = some binding →
    ∃ kind, bindings'[id]? = some ⟨binding.spelling, kind⟩ ∧ binding.kind.Becomes kind

namespace Bindings.Grow

variable {bindings bindings' bindings'' : Bindings}

theorem refl (bindings : Bindings) : bindings.Grow bindings :=
  ⟨Nat.le_refl _, fun h => ⟨_, h, .same⟩⟩

theorem trans (h : bindings.Grow bindings') (h' : bindings'.Grow bindings'') :
    bindings.Grow bindings'' := by
  refine ⟨Nat.le_trans h.size h'.size, fun hat => ?_⟩
  obtain ⟨kind, hat', hbecomes⟩ := h.keeps hat
  obtain ⟨kind', hat'', hbecomes'⟩ := h'.keeps hat'
  exact ⟨kind', hat'', hbecomes.trans hbecomes'⟩

theorem push (bindings : Bindings) (binding : Binding) :
    bindings.Grow (bindings.push binding) := by
  refine ⟨by simp, fun {id found} hat => ⟨found.kind, ?_, .same⟩⟩
  have hlt := (Array.getElem?_eq_some_iff.1 hat).1
  rw [Array.getElem?_push_lt hlt]
  rw [Array.getElem?_eq_getElem hlt] at hat
  exact hat

/-- A binding may become what its kind allows. -/
theorem update {id : BindingId} {binding : Binding} (hat : bindings[id]? = some binding)
    {kind : BindingKind} (hbecomes : binding.kind.Becomes kind) :
    bindings.Grow (bindings.update id kind) := by
  refine ⟨by simp, fun {id' found} hat' => ?_⟩
  unfold Bindings.update
  rw [Array.getElem?_modify]
  split
  · next heq =>
    subst heq
    obtain rfl := Option.some.inj (hat.symm.trans hat')
    exact ⟨kind, by rw [hat]; rfl, hbecomes⟩
  · exact ⟨found.kind, hat', .same⟩

end Bindings.Grow

/-! ## Bindings that stay -/

/-- The bindings start with those of `base`, unchanged. -/
def Bindings.Extends (bindings base : Bindings) : Prop :=
  ∀ (id : BindingId) (binding : Binding), base[id]? = some binding → bindings[id]? = some binding

namespace Bindings.Extends

variable {bindings base : Bindings}

theorem refl (bindings : Bindings) : bindings.Extends bindings := fun _ _ h => h

theorem empty (bindings : Bindings) : bindings.Extends #[] := nofun

theorem push (h : bindings.Extends base) (binding : Binding) :
    Bindings.Extends (bindings.push binding) base := by
  intro id found hat
  have hlt := (Array.getElem?_eq_some_iff.1 (h id found hat)).1
  rw [Array.getElem?_push_lt hlt, ← Array.getElem?_eq_getElem hlt]
  exact h id found hat

/-- What is bound next is not one of the first. -/
theorem next (h : bindings.Extends base) : base[bindings.size]? = none := by
  refine Option.eq_none_iff_forall_ne_some.2 fun binding hat => ?_
  have hlt := (Array.getElem?_eq_some_iff.1 (h _ binding hat)).1
  exact Nat.lt_irrefl _ hlt

theorem update (h : bindings.Extends base) {id : BindingId} (hid : base[id]? = none)
    (kind : BindingKind) : Bindings.Extends (bindings.update id kind) base := by
  intro id' found hat
  have hne : id ≠ id' := by
    rintro rfl
    rw [hid] at hat
    cases hat
  unfold Bindings.update
  rw [Array.getElem?_modify, if_neg hne]
  exact h id' found hat

end Bindings.Extends

/-! ## Steps -/

/-- All bindings in the open scopes are below `n`. -/
def Scopes.Below (Γ : Scopes) (n : BindingId) : Prop :=
  ∀ scope ∈ Γ.innermost :: Γ.outer, ∀ entry ∈ scope, entry.2 < n

namespace Scopes.Below

variable {Γ : Scopes} {n n' : BindingId}

theorem mono (h : Γ.Below n) (hle : n ≤ n') : Γ.Below n' :=
  fun scope hscope entry hentry => Nat.lt_of_lt_of_le (h scope hscope entry hentry) hle

theorem enter (h : Γ.Below n) (name : String) : (Γ.enter name n).Below (n + 1) := by
  intro scope hscope entry hentry
  rcases List.mem_cons.1 hscope with rfl | houter
  · rcases List.mem_cons.1 hentry with rfl | hold
    · exact Nat.lt_succ_self n
    · exact Nat.lt_succ_of_lt (h _ List.mem_cons_self entry hold)
  · exact Nat.lt_succ_of_lt (h scope (List.mem_cons_of_mem _ houter) entry hentry)

theorem enclose (h : Γ.Below n) : Γ.enclose.Below n := by
  intro scope hscope entry hentry
  rcases List.mem_cons.1 hscope with rfl | houter
  · cases hentry
  · exact h scope houter entry hentry

theorem sees (h : Γ.Below n) {name : String} {id : BindingId} (hsees : Γ.Sees name id) :
    id < n := by
  obtain ⟨inner, scope, outer, hscopes, -, newer, older, rfl, -⟩ := hsees
  have hscope : newer ++ (name, id) :: older ∈ Γ.innermost :: Γ.outer := by
    rw [hscopes]
    exact List.mem_append_right _ List.mem_cons_self
  exact h _ hscope (name, id) (List.mem_append_right _ List.mem_cons_self)

end Scopes.Below

namespace Check

/-- From `s` the step lets bindings grow that start with those of `base`, which stay as they are,
    and its result and the checker after it satisfy `Q`. -/
def Grows {α : Type} (m : Check α) (base : Bindings) (s : Checker) (Q : α → Checker → Prop) :
    Prop :=
  s.bindings.Extends base → (m.exec s).2.bindings.Extends base ∧
    s.bindings.Grow (m.exec s).2.bindings ∧ Q (m.exec s).1 (m.exec s).2

/-- What a look-up finds, in terms of the bindings at the end. -/
def Finds (bindings : Bindings) (Γ : Scopes) (name : String) :
    Option (BindingId × BindingKind) → Prop
  | none => ∀ id, ¬ Γ.Sees name id
  | some (id, kind) =>
    Γ.Sees name id ∧ ∃ binding, bindings[id]? = some binding ∧ kind.Becomes binding.kind

namespace Grows

variable {α β : Type} {base : Bindings} {s : Checker}

theorem pure {a : α} {Q : α → Checker → Prop} (h : Q a s) : (pure a : Check α).Grows base s Q :=
  fun hbase => ⟨hbase, .refl _, h⟩

theorem bind {m : Check α} {f : α → Check β} {Q : α → Checker → Prop} {R : β → Checker → Prop}
    (hm : m.Grows base s Q)
    (hf : ∀ a s', s.bindings.Grow s'.bindings → Q a s' → (f a).Grows base s' R) :
    (m >>= f).Grows base s R := by
  intro hbase
  obtain ⟨hbase', hgrow, hQ⟩ := hm hbase
  obtain ⟨hbase'', hgrow', hR⟩ := hf _ _ hgrow hQ hbase'
  exact ⟨hbase'', hgrow.trans hgrow', hR⟩

theorem mono {m : Check α} {Q R : α → Checker → Prop} (hm : m.Grows base s Q)
    (h : ∀ a s', s.bindings.Grow s'.bindings → Q a s' → R a s') : m.Grows base s R := by
  intro hbase
  obtain ⟨hbase', hgrow, hQ⟩ := hm hbase
  exact ⟨hbase', hgrow, h _ _ hgrow hQ⟩

/-- The bindings at the start may be used. -/
theorem start {m : Check α} {Q : α → Checker → Prop}
    (hm : s.bindings.Extends base → m.Grows base s Q) : m.Grows base s Q :=
  fun hbase => hm hbase hbase

variable {R : β → Checker → Prop}

/-- A step comes first that leaves a known checker behind. -/
theorem after {m : Check α} {f : α → Check β} {a : α} {s' : Checker} (h : m.exec s = (a, s'))
    (hkeeps : s.bindings.Extends base → s'.bindings.Extends base)
    (hgrow : s.bindings.Grow s'.bindings) (hf : (f a).Grows base s' R) :
    (m >>= f).Grows base s R := by
  have hm : m.Grows base s fun found s'' => found = a ∧ s'' = s' := by
    intro hbase
    rw [h]
    exact ⟨hkeeps hbase, hgrow, rfl, rfl⟩
  refine hm.bind ?_
  rintro _ _ - ⟨rfl, rfl⟩
  exact hf

theorem report {cause : SemanticCause} {token : String} {span : Span} {f : Unit → Check β}
    (hf : ∀ journal, (f ()).Grows base { s with journal } R) :
    (Check.report cause token span >>= f).Grows base s R :=
  after rfl id (.refl _) (hf _)

theorem reject {cause : SemanticCause} {name : Name} {f : Unit → Check β}
    (hf : ∀ journal, (f ()).Grows base { s with journal } R) :
    (Check.reject cause name >>= f).Grows base s R :=
  after rfl id (.refl _) (hf _)

/-- A report is made if a condition holds. -/
theorem perhaps {c : Prop} [Decidable c] {cause : SemanticCause} {token : String} {span : Span}
    {k : PUnit → Check β} (hk : ∀ journal, (k ⟨⟩).Grows base { s with journal } R) :
    (if c then Check.report cause token span >>= k else k ⟨⟩).Grows base s R := by
  split
  · exact report hk
  · exact hk s.journal

theorem expectBoolean {type : TypeDenoter} {span : Span} {f : Unit → Check β}
    (hf : ∀ journal, (f ()).Grows base { s with journal } R) :
    (Check.expectBoolean type span >>= f).Grows base s R := by
  unfold Check.expectBoolean
  split
  · exact report hf
  · exact hf s.journal

theorem newSerial {f : Nat → Check β} (hf : ∀ serial serials, (f serial).Grows base { s with serials } R) :
    (Check.newSerial >>= f).Grows base s R :=
  after rfl id (.refl _) (hf _ _)

theorem openScope {f : Unit → Check β}
    (hf : (f ()).Grows base { s with scopes := s.scopes.enclose } R) :
    (Check.openScope >>= f).Grows base s R :=
  after rfl id (.refl _) hf

theorem closeScope {f : Unit → Check β}
    (hf : (f ()).Grows base { s with scopes := s.scopes.close } R) :
    (Check.closeScope >>= f).Grows base s R :=
  after rfl id (.refl _) hf

/-- What is found is what the name sees. -/
theorem lookup? {name : String} {f : Option (BindingId × BindingKind) → Check β}
    (hf : ∀ found, (∀ bindings, s.scopes.Below s.bindings.size → s.bindings.Grow bindings →
      Finds bindings s.scopes name found) → (f found).Grows base s R) :
    (Check.lookup? name >>= f).Grows base s R := by
  refine after rfl id (.refl _) (hf _ fun bindings hbelow hgrow => ?_)
  show Finds bindings s.scopes name (do
    let id ← s.scopes.find? name
    let binding ← s.bindings[id]?
    return (id, binding.kind))
  cases hfind : s.scopes.find? name with
  | none =>
    intro id hsees
    rw [Scopes.find?_eq_some_iff.2 hsees] at hfind
    cases hfind
  | some id =>
    have hsees := Scopes.find?_eq_some_iff.1 hfind
    have hlt := hbelow.sees hsees
    have hat : s.bindings[id]? = some s.bindings[id] := Array.getElem?_eq_getElem hlt
    obtain ⟨kind, hlater, hbecomes⟩ := hgrow.keeps hat
    rw [Option.bind_eq_bind, Option.bind_some, hat]
    exact ⟨hsees, _, hlater, hbecomes⟩

/-- A name is bound whether or not the scope had it. -/
theorem declare {cause : SemanticCause} {name : Name} {kind : BindingKind}
    {f : Name × BindingId × Bool → Check β}
    (hf : ∀ duplicated journal, (f (name.link s.bindings.size, s.bindings.size, duplicated)).Grows base
      { s with
        bindings := s.bindings.push ⟨name.spelling, kind⟩
        scopes := s.scopes.enter name.spelling s.bindings.size
        journal } R) :
    (Check.declare cause name kind >>= f).Grows base s R := by
  have hm : (Check.declare cause name kind).Grows base s fun result s' => ∃ duplicated journal,
      result = (name.link s.bindings.size, s.bindings.size, duplicated) ∧
      s' = { s with
        bindings := s.bindings.push ⟨name.spelling, kind⟩
        scopes := s.scopes.enter name.spelling s.bindings.size
        journal } := by
    unfold Check.declare
    refine after rfl (fun hbase => hbase.push _) (.push _ _) ?_
    exact perhaps fun journal => pure ⟨_, journal, rfl, rfl⟩
  refine hm.bind ?_
  rintro _ _ - ⟨duplicated, journal, rfl, rfl⟩
  exact hf duplicated journal

/-- Parameters of a routine become known. -/
theorem rebind {id : BindingId} {binding : Binding} (hat : s.bindings[id]? = some binding)
    {kind : BindingKind} (hbecomes : binding.kind.Becomes kind) (hid : base[id]? = none)
    {f : Unit → Check β}
    (hf : (f ()).Grows base { s with bindings := s.bindings.update id kind } R) :
    (Check.rebind id kind >>= f).Grows base s R :=
  after rfl (fun hbase => hbase.update hid kind) (.update hat hbecomes) hf

end Grows

namespace Finds

variable {bindings : Bindings} {Γ : Scopes} {name : Name} {id : BindingId} {kind : BindingKind}
  {roles : List Role}

/-- What is found in one of the roles is linked. -/
theorem linked (h : Finds bindings Γ name.spelling (some (id, kind))) (hrole : kind.role ∈ roles) :
    Name.Linked bindings Γ roles name (name.link id) := by
  obtain ⟨hsees, binding, hat, hbecomes⟩ := h
  refine .seen hsees hat ?_
  rw [hbecomes.role_eq]
  exact hrole

/-- What is seen at the end has the role of what was found. -/
theorem role {spelling : String} {found : Option (BindingId × BindingKind)} (P : Role → Prop)
    (h : Finds bindings Γ spelling found)
    (hrole : ∀ id kind, found = some (id, kind) → P kind.role) :
    ∀ id binding, Γ.Sees spelling id → bindings[id]? = some binding → P binding.kind.role := by
  intro id binding hsees hat
  cases found with
  | none => exact absurd hsees (h id)
  | some found =>
    obtain ⟨hsees', binding', hat', hbecomes⟩ := h
    obtain rfl := hsees'.unique hsees
    obtain rfl := Option.some.inj (hat'.symm.trans hat)
    rw [hbecomes.role_eq]
    exact hrole _ _ rfl

/-- What is found in no role is not linked. -/
theorem unlinked {found : Option (BindingId × BindingKind)} (hname : name.binding = none)
    (h : Finds bindings Γ name.spelling found)
    (hrole : ∀ id kind, found = some (id, kind) → kind.role ∉ roles) :
    Name.Linked bindings Γ roles name name := by
  have hself : name = name.unlinked := by
    rw [Name.unlinked, ← hname]
  rw [hself]
  exact .unseen (h.role (· ∉ roles) hrole)

end Finds

end Check

end TriangleTam
