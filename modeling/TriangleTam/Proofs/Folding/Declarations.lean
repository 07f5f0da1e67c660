import TriangleTam.Proofs.Folding.Places

/-! # Declarations of a folded program

  Where folding makes the value of a constant known, the encoder neither
  computes nor stores it, and what is declared later lies deeper in its frame.
  Parameters are where they were. They are represented from the last to the
  first, so what becomes of the representations of other bindings is said for
  the numbers on both sides of theirs.
-/

namespace TriangleTam

/-! ## Numbers in scope -/

mutual

theorem Formal.Typed.env_below {Γ Γ' : Env} {s s' : Supply} {formal formal' : Formal}
    {shape : FormalShape} (h : Formal.Typed Γ s formal formal' shape Γ' s')
    (hΓ : Γ.Below s.bindings) : Γ'.Below s'.bindings := by
  cases h with
  | const htype => exact hΓ.enter (Nat.lt_succ_self _) htype.before.bind.bindings
  | var htype => exact hΓ.enter (Nat.lt_succ_self _) htype.before.bind.bindings
  | proc hinner => exact hΓ.enter (Nat.lt_succ_self _) hinner.before.bind.bindings
  | func hresult hinner =>
    exact hΓ.enter (Nat.lt_succ_self _) (hresult.before.trans hinner.before).bind.bindings

theorem Formals.Typed.env_below {Γ Γ' : Env} {s s' : Supply} {formals formals' : Formals}
    {shapes : Signature} (h : Formals.Typed Γ s formals formals' shapes Γ' s')
    (hΓ : Γ.Below s.bindings) : Γ'.Below s'.bindings :=
  match h with
  | .empty => hΓ
  | .one hfirst => hfirst.env_below hΓ
  | .more hfirst hrest => hrest.env_below (hfirst.env_below hΓ)

end

theorem Declaration.Typed.env_below {Γ Γ' : Env} {s s' : Supply}
    {declaration declaration' : Declaration}
    (h : Declaration.Typed Γ s declaration declaration' Γ' s') (hΓ : Γ.Below s.bindings) :
    Γ'.Below s'.bindings := by
  cases h with
  | const hvalue => exact hΓ.enter (Nat.lt_succ_self _) hvalue.before.bind.bindings
  | var htype | type htype => exact hΓ.enter (Nat.lt_succ_self _) htype.before.bind.bindings
  | proc _ hparameters hbody =>
    have hbefore := (hparameters.before.trans hbody.before).bindings
    exact hΓ.enter (Nat.lt_of_lt_of_le (Nat.lt_succ_self _) hbefore)
      (Nat.le_trans (Nat.le_succ _) hbefore)
  | func hresult _ hparameters hbody =>
    have hbefore := (hparameters.before.trans hbody.before).bindings
    exact hΓ.enter (Nat.lt_of_lt_of_le (Nat.lt_succ_self _) hbefore)
      (Nat.le_trans hresult.before.bindings (Nat.le_trans (Nat.le_succ _) hbefore))
  | sequence hfirst hsecond => exact hsecond.env_below (hfirst.env_below hΓ)

/-! ## Parameters -/

/-- Bindings with numbers outside of the range are represented the same. -/
def SameOutside (lo hi : Nat) (entities entities' : List (BindingId × Entity)) : Prop :=
  ∀ id, id < lo ∨ hi ≤ id → entities'.lookup id = entities.lookup id

/-- The bindings from `lo` to `hi` were represented, and with them what is in scope in `Γ'` and not
    in `Γ`. -/
structure Start.Entered (start : Start) (lo hi : Nat) (Γ Γ' : Env) (level : Nat) (u : Unbounded)
    (s : Encoder) : Prop where
  ideal   : SameOutside lo hi start.ideal.entities u.entities
  encoder : SameOutside lo hi start.encoder.entities s.entities
  staged  : ∀ entry ∈ Γ'.entries, entry ∈ Γ.entries ∨ lo ≤ entry.2.1 ∧ entry.2.1 < hi ∧
    entry.Staged level Word.greatest u.entities s.entities

namespace Start

variable {start : Start} {P : Prop} {α β γ δ : Type} {lo mid hi : Nat} {Γ Γ' Γ'' : Env}
  {level : Nat} {u u' : Unbounded} {s s' : Encoder}

namespace Entered

/-- Later parameters are represented before. -/
theorem before (h : start.Entered mid hi Γ' Γ'' level u s) {n : Nat}
    (h' : Start.Entered ⟨u, s, n⟩ lo mid Γ Γ' level u' s') (hlo : lo ≤ mid) (hhi : mid ≤ hi) :
    start.Entered lo hi Γ Γ'' level u' s' := by
  have hkept (id : Nat) (hid : id < lo ∨ hi ≤ id) :
      (id < mid ∨ hi ≤ id) ∧ (id < lo ∨ mid ≤ id) := by omega
  refine ⟨fun id hid => ?_, fun id hid => ?_, fun entry hmem => ?_⟩
  · exact (h'.ideal id (hkept id hid).2).trans (h.ideal id (hkept id hid).1)
  · exact (h'.encoder id (hkept id hid).2).trans (h.encoder id (hkept id hid).1)
  · rcases h.staged entry hmem with hmem | ⟨hlower, hupper, hstaged⟩
    · rcases h'.staged entry hmem with hmem | ⟨hlower, hupper, hstaged⟩
      · exact .inl hmem
      · exact .inr ⟨hlower, Nat.lt_of_lt_of_le hupper hhi, hstaged⟩
    · refine .inr ⟨Nat.le_trans hlo hlower, hupper, fun hlives => ?_⟩
      obtain ⟨hwords, entity, entity', hat, hat', heases⟩ := hstaged hlives
      refine ⟨hwords, entity, entity', ?_, ?_, heases⟩
      · exact (h'.ideal _ (.inr hlower)).trans hat
      · exact (h'.encoder _ (.inr hlower)).trans hat'

theorem widen (h : start.Entered mid hi Γ Γ' level u s) (hlo : lo ≤ mid) :
    start.Entered lo hi Γ Γ' level u s := by
  have hkept (id : Nat) (hid : id < lo ∨ hi ≤ id) : id < mid ∨ hi ≤ id := by omega
  refine ⟨fun id hid => h.ideal id (hkept id hid), fun id hid => h.encoder id (hkept id hid),
    fun entry hmem => (h.staged entry hmem).imp id fun ⟨hlower, hupper, hstaged⟩ => ?_⟩
  exact ⟨Nat.le_trans hlo hlower, hupper, hstaged⟩

/-- Nothing was represented before. -/
theorem after_still {n : Nat} (h : Start.Entered ⟨u, s, n⟩ lo hi Γ Γ' level u' s')
    (hideal : ∀ id, u.entities.lookup id = start.ideal.entities.lookup id)
    (hencoder : ∀ id, s.entities.lookup id = start.encoder.entities.lookup id) :
    start.Entered lo hi Γ Γ' level u' s' :=
  ⟨fun id hid => (h.ideal id hid).trans (hideal id),
    fun id hid => (h.encoder id hid).trans (hencoder id), h.staged⟩

/-- Nothing was represented since. -/
theorem before_still (h : start.Entered lo hi Γ Γ' level u s)
    (hideal : ∀ id, u'.entities.lookup id = u.entities.lookup id)
    (hencoder : ∀ id, s'.entities.lookup id = s.entities.lookup id) :
    start.Entered lo hi Γ Γ' level u' s' := by
  refine ⟨fun id hid => (hideal id).trans (h.ideal id hid),
    fun id hid => (hencoder id).trans (h.encoder id hid),
    fun entry hmem => (h.staged entry hmem).imp id fun ⟨hlower, hupper, hstaged⟩ => ?_⟩
  refine ⟨hlower, hupper, fun hlives => ?_⟩
  obtain ⟨hwords, entity, entity', hat, hat', heases⟩ := hstaged hlives
  exact ⟨hwords, entity, entity', (hideal _).trans hat, (hencoder _).trans hat', heases⟩

/-- All of it is represented, if the rest was. -/
theorem all_staged (h : start.Entered lo hi Γ Γ' level u s) {frame : Frame} (hΓ : Γ.Below lo)
    (hstaged : Γ.Staged frame start.ideal.entities start.encoder.entities)
    (hlevel : frame.level ≤ level) (hsize : frame.size ≤ Word.greatest) {inner : Frame}
    (hinner : inner.level = level) : Γ'.Staged inner u.entities s.entities := by
  subst hinner
  intro entry hmem hlives
  rcases h.staged entry hmem with hmem | ⟨-, -, hentered⟩
  · obtain ⟨hwords, entity, entity', hat, hat', heases⟩ := hstaged entry hmem hlives
    have hid := hΓ entry hmem
    refine ⟨hwords, entity, entity', ?_, ?_, heases.mono hlevel ?_⟩
    · exact (h.ideal _ (.inl hid)).trans hat
    · exact (h.encoder _ (.inl hid)).trans hat'
    · rw [max_eq_left hsize]
      exact le_max_left _ _
  · obtain ⟨hwords, entity, entity', hat, hat', heases⟩ := hentered hlives
    exact ⟨hwords, entity, entity', hat, hat', heases.mono (Nat.le_refl _) (le_max_left _ _)⟩

end Entered

/-- From an earlier number on. -/
theorem Opens.lower {x : Ideal α} {y : Encode β} {K : α → β → Unbounded → Encoder → Prop} {n : Nat}
    (h : Start.Opens ⟨start.ideal, start.encoder, n⟩ P x y K) (hn : start.next ≤ n) :
    start.Opens P x y K := by
  constructor
  intro lead hlead hpace b s' hexec hmeets
  obtain ⟨hpace', hK⟩ := h.opens hlead (hpace.restart n) hexec hmeets
  exact ⟨hpace.trans hn hpace', hK⟩

/-- Steps that match wherever they are taken leave all representations as they are. -/
theorem Matches.opens_still {x : Ideal α} {y : Encode β} {R : α → β → Prop}
    (h : ∀ n, Start.Matches ⟨start.ideal, start.encoder, n⟩ P x y R) :
    start.Opens P x y fun a b u s => R a b ∧
      (∀ id, u.entities.lookup id = start.ideal.entities.lookup id) ∧
      ∀ id, s.entities.lookup id = start.encoder.entities.lookup id := by
  constructor
  intro lead hlead hpace b s' hexec hmeets
  have hat (n : Nat) := (h n).opens.opens hlead (hpace.restart n) hexec hmeets
  refine ⟨hpace.trans (Nat.le_refl _) (hat start.next).1, (hat 0).2.1, fun id => ?_, fun id => ?_⟩
  · exact (hat (id + 1)).2.2.1 id (Nat.lt_succ_self id)
  · exact (hat (id + 1)).2.2.2 id (Nat.lt_succ_self id)

/-- A parameter is represented below those after it. -/
theorem Opens.parameter {name : Name} {id : BindingId} (hname : name.binding = some id)
    (hnew : start.next ≤ id) (frame : Frame) {words : Int} {kind : BindingKind} (spelling : String)
    (entity : Address → Entity) (hwords : kind.words ≤ Word.greatest)
    (heases : ∀ depth, Word.Fits depth → frame.size + words = depth →
      (entity ⟨frame.level, -depth⟩).Eases frame.level Word.greatest kind.words
        (entity ⟨frame.level, -depth⟩)) :
    start.Opens P
      (Ideal.assembler.below frame words >>= fun address =>
        Ideal.assembler.bind name (entity address) >>= fun _ => pure words)
      (Encode.assembler.below frame words >>= fun address =>
        Encode.assembler.bind name (entity address) >>= fun _ => pure words)
      fun a b u s => a = words ∧ b = words ∧
        start.Entered id (id + 1) Γ (Γ.enter spelling id kind) frame.level u s := by
  -- both sides compute the same address, which is a word where it is used
  have hbelow (n : Nat) : Start.Matches ⟨start.ideal, start.encoder, n⟩ P
      (Ideal.assembler.below frame words) (Encode.assembler.below frame words)
      fun a b => b = a ∧ ∃ depth, a = ⟨frame.level, -depth⟩ ∧ Word.Fits depth ∧
        frame.size + words = depth :=
    (Start.Matches.word fun hword => hword).bind fun a b ⟨ha, hb, hword⟩ =>
      .pure ⟨by rw [ha, hb], a, rfl, by rw [ha]; exact hword, ha.symm⟩
  refine (Matches.opens_still hbelow).bind (Nat.le_refl _) fun a b u s hstill _ _ => ?_
  obtain ⟨⟨rfl, depth, rfl, hword, hdepth⟩, hideal, hencoder⟩ := hstill
  refine (@Opens.represent ⟨u, s, start.next⟩ P name id hname hnew _ _).bind (Nat.le_refl _)
    fun _ _ u' s' hbound _ _ => ?_
  obtain ⟨hideal', hencoder'⟩ := hbound
  -- the new binding is the only one that is represented here
  have hentered : start.Entered id (id + 1) Γ (Γ.enter spelling id kind) frame.level u' s' := by
    refine ⟨fun other hother => ?_, fun other hother => ?_, fun entry hmem => ?_⟩
    · have hne : (other == id) = false := beq_false_of_ne (by omega)
      rw [hideal', List.lookup_cons, hne, ← hideal]
    · have hne : (other == id) = false := beq_false_of_ne (by omega)
      rw [hencoder', List.lookup_cons, hne, ← hencoder]
    · rcases List.mem_cons.1 hmem with rfl | hmem
      · refine .inr ⟨Nat.le_refl id, Nat.lt_succ_self id, fun _ => ⟨hwords, _, _, ?_, ?_,
          heases depth hword hdepth⟩⟩
        · rw [hideal', List.lookup_cons_self]
        · rw [hencoder', List.lookup_cons_self]
      · exact .inl hmem
  constructor
  intro lead hlead hpace b s'' hexec _
  obtain ⟨hb, rfl⟩ := Prod.mk.inj hexec
  obtain rfl := Except.ok.inj hb
  exact ⟨hpace, rfl, rfl, hentered⟩

end Start

namespace Address

/-- Words below the link data end there. -/
theorem eases_below {level : Nat} {depth width size : Int} (hdepth : Word.Fits depth)
    (hat : size + width = depth) (hsize : 0 ≤ size) :
    Eases level Word.greatest width ⟨level, -depth⟩ ⟨level, -depth⟩ := by
  obtain ⟨-, hupper⟩ := hdepth
  refine ⟨rfl, Nat.le_refl level, ?_, .inl rfl, ?_⟩
  · show Word.least ≤ -depth
    unfold Word.least
    unfold Word.greatest at hupper
    omega
  · have hzero : 0 ≤ Word.greatest := by decide
    show -depth + width ≤ Word.greatest
    omega

end Address

mutual

/-- A parameter is where it was. -/
theorem Formal.Typed.enters {P : Prop} {Γ Γ' : Env} {p p' : Supply} {formal formal' : Formal}
    {shape : FormalShape} (h : Formal.Typed Γ p formal formal' shape Γ' p')
    (hΓ : Γ.NamesIn p.Knows) {start : Start} (hnext : start.next ≤ p.bindings) {frame : Frame}
    (hsize : 0 ≤ frame.size) :
    start.Opens P (Ideal.assembler.formal formal' frame) (Encode.assembler.formal formal' frame)
      fun a b u s => b = a ∧ 0 ≤ a ∧
        start.Entered p.bindings p'.bindings Γ Γ' frame.level u s := by
  cases h with
  | @const _ _ span _ name _ type s' htype =>
    have hid : p.bindings ≤ s'.bindings := htype.before.bindings
    simp only [Assembler.formal]
    -- the size is asked for on both sides, which represents nothing
    refine (Start.Matches.opens_still fun _ => .sizeOf type).bind (Nat.le_refl _)
      fun a b u s hstill _ _ => ?_
    obtain ⟨⟨rfl, rfl, hexact⟩, hideal, hencoder⟩ := hstill
    have hparameter := @Start.Opens.parameter ⟨u, s, start.next⟩ P Γ (name.link s'.bindings)
      s'.bindings rfl (Nat.le_trans hnext hid) frame type.width (.const type) name.spelling
      (.unknownValue type.width) hexact.fits.2 fun depth hdepth hat =>
        .value (Address.eases_below hdepth hat hsize)
    refine hparameter.mono fun a b u' s' hparameter => ?_
    obtain ⟨ha, hb, hentered⟩ := hparameter
    exact ⟨hb.trans ha.symm, ha ▸ (htype.known hΓ).width_nonneg,
      (hentered.widen hid).after_still hideal hencoder⟩
  | @var _ _ span _ name _ type s' htype =>
    have hid : p.bindings ≤ s'.bindings := htype.before.bindings
    simp only [Assembler.formal]
    refine (Start.Matches.opens_still fun _ => .sizeOf type).bind (Nat.le_refl _)
      fun a b u s hstill _ _ => ?_
    obtain ⟨⟨-, -, hexact⟩, hideal, hencoder⟩ := hstill
    have hparameter := @Start.Opens.parameter ⟨u, s, start.next⟩ P Γ (name.link s'.bindings)
      s'.bindings rfl (Nat.le_trans hnext hid) frame Machine.addressSize (.var type) name.spelling
      (.unknownAddress Machine.addressSize) hexact.fits.2 fun depth hdepth hat =>
        .stored (Nat.le_refl _)
    refine hparameter.mono fun a b u' s' hparameter => ?_
    obtain ⟨ha, hb, hentered⟩ := hparameter
    exact ⟨hb.trans ha.symm, by rw [ha]; decide,
      (hentered.widen hid).after_still hideal hencoder⟩
  | @proc _ _ span _ name _ inner' shapes _ s' hinner =>
    have hid : p.bindings ≤ s'.bindings := hinner.before.bindings
    -- a routine takes a closure, whatever its own parameters are
    have hparameter := @Start.Opens.parameter start P Γ (name.link s'.bindings)
      s'.bindings rfl (Nat.le_trans hnext hid) frame Machine.closureSize (.proc shapes)
      name.spelling (.unknownRoutine Machine.closureSize) (show 0 ≤ Word.greatest by decide) fun depth hdepth hat =>
        .closure (Nat.le_refl _)
    simp only [Assembler.formal]
    refine hparameter.mono fun a b u' s' hparameter => ?_
    obtain ⟨ha, hb, hentered⟩ := hparameter
    exact ⟨hb.trans ha.symm, by rw [ha]; decide, hentered.widen hid⟩
  | @func _ _ span _ name _ _ result _ inner' shapes _ s' hresult hinner =>
    have hid : p.bindings ≤ s'.bindings := (hresult.before.trans hinner.before).bindings
    have hparameter := @Start.Opens.parameter start P Γ (name.link s'.bindings)
      s'.bindings rfl (Nat.le_trans hnext hid) frame Machine.closureSize (.func shapes result)
      name.spelling (.unknownRoutine Machine.closureSize) (show 0 ≤ Word.greatest by decide) fun depth hdepth hat =>
        .closure (Nat.le_refl _)
    simp only [Assembler.formal]
    refine hparameter.mono fun a b u' s' hparameter => ?_
    obtain ⟨ha, hb, hentered⟩ := hparameter
    exact ⟨hb.trans ha.symm, by rw [ha]; decide, hentered.widen hid⟩

/-- So are all parameters. -/
theorem Formals.Typed.enters {P : Prop} {Γ Γ' : Env} {p p' : Supply} {formals formals' : Formals}
    {shapes : Signature} (h : Formals.Typed Γ p formals formals' shapes Γ' p')
    (hΓ : Γ.NamesIn p.Knows) {start : Start} (hnext : start.next ≤ p.bindings) {frame : Frame}
    (hsize : 0 ≤ frame.size) :
    start.Opens P (Ideal.assembler.formals formals' frame) (Encode.assembler.formals formals' frame)
      fun a b u s => b = a ∧ 0 ≤ a ∧
        start.Entered p.bindings p'.bindings Γ Γ' frame.level u s :=
  match h with
  | .empty => by
    simp only [Assembler.formals]
    constructor
    intro lead hlead hpace b s' hexec _
    obtain ⟨hb, rfl⟩ := Prod.mk.inj hexec
    obtain rfl := Except.ok.inj hb
    exact ⟨hpace, rfl, Int.le_refl 0, fun _ _ => rfl, fun _ _ => rfl, fun _ hmem => .inl hmem⟩
  | .one hfirst => by
    simp only [Assembler.formals]
    exact hfirst.enters hΓ hnext hsize
  | .more hfirst hrest => by
    have hbefore := hfirst.before.bindings
    simp only [Assembler.formals]
    -- the rest comes first, and leaves the first parameter's number alone
    refine (hrest.enters (hfirst.known hΓ).names (Nat.le_trans hnext hbefore) hsize).bind
      (Nat.le_refl _) fun a b u s hrested _ _ => ?_
    obtain ⟨rfl, ha, hentered⟩ := hrested
    have hgrown (n : Nat) : Start.Matches ⟨u, s, n⟩ P (Ideal.assembler.grow frame b)
        (Encode.assembler.grow frame b) fun inner inner' => inner' = inner ∧
          inner = frame.replace (frame.size + b) :=
      (Start.Matches.grow fun hword => hword).mono fun _ _ hgrown =>
        ⟨hgrown.2.1.trans hgrown.1.symm, hgrown.1⟩
    have hgrows : Start.Opens ⟨u, s, start.next⟩ P _ _ _ := Start.Matches.opens_still hgrown
    refine hgrows.bind (Nat.le_refl _) fun inner inner' u₁ s₁ hstill _ _ => ?_
    obtain ⟨⟨rfl, rfl⟩, hideal, hencoder⟩ := hstill
    have hentered₁ := hentered.before_still hideal hencoder
    have hsize' : 0 ≤ (frame.replace (frame.size + b)).size := Int.add_nonneg hsize ha
    refine (hfirst.enters hΓ (show (⟨u₁, s₁, start.next⟩ : Start).next ≤ _ from hnext) hsize').bind
      (Nat.le_refl _) fun c d u₂ s₂ hentered₂ _ _ => ?_
    obtain ⟨rfl, hc, hentered₂⟩ := hentered₂
    have hboth := hentered₁.before hentered₂ hbefore hrest.before.bindings
    have hword (n : Nat) : Start.Matches ⟨u₂, s₂, n⟩ P (Ideal.assembler.word (b + d))
        (Encode.assembler.word (b + d)) fun e f => f = e ∧ 0 ≤ e :=
      (Start.Matches.word fun hword => hword).mono fun e f hsum =>
        ⟨hsum.2.1.trans hsum.1.symm, hsum.1 ▸ Int.add_nonneg ha hc⟩
    have hwords : Start.Opens ⟨u₂, s₂, start.next⟩ P _ _ _ := Start.Matches.opens_still hword
    refine hwords.mono fun e f u₃ s₃ hsum => ?_
    obtain ⟨⟨hf, he⟩, hideal, hencoder⟩ := hsum
    exact ⟨hf, he, hboth.before_still hideal hencoder⟩

end

/-! ## Declarations -/

section

variable {P : Prop} {Γ Γ' Γ'' : Env} {n n' : Nat} {start : Start} {frame frame' : Frame}

namespace Setting

/-- What is declared next comes at the end of the frame. -/
theorem eases_next (h : Setting Γ n start frame frame') (width : Int) :
    frame.address.Eases frame.level (max Word.greatest (frame.size + width)) width
      frame'.address := by
  have hlower := h.under.lower
  have hupper := h.under.upper
  refine ⟨h.under.level, Nat.le_refl _, ?_, .inr ⟨hlower, hupper⟩, ?_⟩
  · have hleast : Word.least ≤ 0 := by decide
    exact Int.le_trans hleast hlower
  · exact Int.le_trans (Int.add_le_add_right hupper width) (le_max_right _ _)

/-- A new binding is in scope, and the frame larger by its words. -/
theorem enters (h : Setting Γ n start frame frame') {name : Name} {id : BindingId}
    (hname : name.binding = some id) (hid : n ≤ id) {spelling : String} (kind : BindingKind)
    (hwords : kind.words ≤ Word.greatest) {entity entity' : Entity} {a b : Int} (hb : 0 ≤ b)
    (hle : b ≤ a) (heases : entity.Eases frame.level (max Word.greatest (frame.size + a))
      kind.words entity') :
    start.Opens P (Ideal.assembler.bind name entity >>= fun _ => pure a)
      (Encode.assembler.bind name entity' >>= fun _ => pure b) fun a b u s =>
        0 ≤ b ∧ b ≤ a ∧ (Γ.enter spelling id kind).Staged (frame.replace (frame.size + a))
          u.entities s.entities := by
  have hnew := Nat.le_trans h.next hid
  refine (Start.Opens.represent hname hnew entity entity').bind (Nat.le_refl _)
    fun _ _ u s hbound _ _ => ?_
  obtain ⟨hideal, hencoder⟩ := hbound
  -- what was in scope is staged for a larger frame too
  have hstaged : Γ.Staged (frame.replace (frame.size + a)) start.ideal.entities
      start.encoder.entities := by
    refine h.staged.mono (Nat.le_refl _) ?_
    rw [h.bound_eq]
    exact le_max_left _ _
  constructor
  intro lead _ hpace c s' hexec _
  obtain ⟨hc, rfl⟩ := Prod.mk.inj hexec
  obtain rfl := Except.ok.inj hc
  refine ⟨hpace, hb, hle, ?_⟩
  show Env.Staged _ _ u.entities s.entities
  rw [hideal, hencoder]
  exact hstaged.enter h.below hnew hwords heases

end Setting

namespace Declaration.Eases

/-- Whatever comes first, the binding is entered where that led to. -/
theorem of_first {α β : Type} {x : Ideal α} {y : Encode β} {R : α → β → Prop} {f : α → Ideal Int}
    {g : β → Encode Int} (hset : Setting Γ n start frame frame') (hfirst : start.Matches P x y R)
    (hf : ∀ a b inner, R a b → Setting Γ n inner frame frame' → inner.Opens P (f a) (g b)
      fun a b u s => 0 ≤ b ∧ b ≤ a ∧ Γ'.Staged (frame.replace (frame.size + a))
        u.entities s.entities) :
    start.Opens P (x >>= f) (y >>= g) fun a b u s => 0 ≤ b ∧ b ≤ a ∧
      Γ'.Staged (frame.replace (frame.size + a)) u.entities s.entities := by
  refine hfirst.opens.bind (Nat.le_refl _) fun a b u s hmatched hideal hencoder => ?_
  exact hf a b ⟨u, s, start.next⟩ hmatched.1 (hset.restart hideal hencoder)

theorem const_literal {span : Span} {name : Name} {id : BindingId} {spelling : String}
    {value : Expression} {known : Int} {type : TypeDenoter}
    (hliteral : value.literalValue? = some known) (htype : value.type = some type)
    (hid : n ≤ id) :
    Declaration.Eases P Γ n (Γ.enter spelling id (.const type))
      (.const span false (name.link id) value) (.const span false (name.link id) value) := by
  intro start frame frame' hset
  simp only [Assembler.declaration, hliteral, htype]
  refine of_first hset (.sizeOf? type value.span value.span) fun a b inner hab hinner => ?_
  obtain ⟨rfl, rfl, hexact⟩ := hab
  exact hinner.enters rfl hid (.const type) hexact.fits.2 (Int.le_refl 0) (Int.le_refl 0) (.same rfl)

theorem const_open {span : Span} {name : Name} {id : BindingId} {spelling : String}
    {value value' : Expression} {type : TypeDenoter}
    (hvalue : Expression.Eases P Γ n value value' type) (hopen : value.literalValue? = none)
    (hopen' : value'.literalValue? = none) (hid : n ≤ id) (hwidth : 0 ≤ type.width) :
    Declaration.Eases P Γ n (Γ.enter spelling id (.const type))
      (.const span false (name.link id) value) (.const span false (name.link id) value') := by
  intro start frame frame' hset
  simp only [Assembler.declaration, hopen, hopen']
  refine of_first hset (hvalue hset) fun a b inner hab hinner => ?_
  obtain ⟨rfl, rfl, hexact⟩ := hab
  exact hinner.enters rfl hid (.const type) hexact.fits.2 hwidth (Int.le_refl _)
    (.value (hinner.eases_next type.width))

/-- Folding makes the value of the constant known. -/
theorem const_known {span : Span} {name : Name} {id : BindingId} {spelling : String}
    {value value' : Expression} {known : Int} {type : TypeDenoter}
    (hvalue : Expression.Eases P Γ n value value' type) (hopen : value.literalValue? = none)
    (hknown : value'.integerValue? = some known) (htype : value'.type = some .integer)
    (hinteger : type = .integer) (hid : n ≤ id) :
    Declaration.Eases P Γ n (Γ.enter spelling id (.const type))
      (.const span false (name.link id) value) (.const span false (name.link id) value') := by
  intro start frame frame' hset
  simp only [Assembler.declaration, hopen, Expression.literalValue?_of_integerValue? hknown, htype]
  subst hinteger
  have hmatch : start.Matches P (Ideal.assembler.expression value frame)
      (Encode.assembler.sizeOf? (some .integer) value'.span)
      fun a _ => a = TypeDenoter.width .integer ∧ TypeDenoter.Exact .integer := by
    constructor
    intro lead hlead u s hpace b s' hexec hmeets
    obtain ⟨after, ⟨rfl, ha, hexact⟩, hpace'⟩ := hvalue.alone hknown htype hset hlead hpace hmeets
    obtain ⟨_, ⟨rfl, -⟩, hpace''⟩ := Start.Follows.sizeOf? _ hexact hpace' hexec
    exact ⟨lead, ⟨rfl, ha, hexact⟩, hpace''.mono (by omega)⟩
  refine of_first hset hmatch fun a b inner hab hinner => ?_
  obtain ⟨rfl, hexact⟩ := hab
  exact hinner.enters rfl hid (.const .integer) hexact.fits.2 (Int.le_refl 0) (by decide) .known

theorem var {span : Span} {name : Name} {id : BindingId} {spelling : String}
    {type : TypeDenoter} (hid : n ≤ id) (hwidth : 0 ≤ type.width) :
    Declaration.Eases P Γ n (Γ.enter spelling id (.var type))
      (.var span false (name.link id) type) (.var span false (name.link id) type) := by
  intro start frame frame' hset
  simp only [Assembler.declaration]
  refine of_first hset (.sizeOf type) fun a b inner hab hinner => ?_
  obtain ⟨rfl, rfl, hexact⟩ := hab
  refine of_first hinner (.emit ..) fun _ _ inner' _ hinner' => ?_
  exact hinner'.enters rfl hid (.var type) hexact.fits.2 hwidth (Int.le_refl _)
    (.address (hinner'.eases_next type.width))

theorem type {span : Span} {name : Name} {id : BindingId} {spelling : String}
    {type : TypeDenoter} :
    Declaration.Eases P Γ n (Γ.enter spelling id (.type type))
      (.type span false name type) (.type span false name type) := by
  intro start frame frame' hset
  simp only [Assembler.declaration]
  refine of_first hset (.sizeOf type) fun a b inner hab hinner => ?_
  constructor
  intro lead _ hpace c s' hexec _
  obtain ⟨hc, rfl⟩ := Prod.mk.inj hexec
  obtain rfl := Except.ok.inj hc
  have hstaged : Γ.Staged (frame.replace (frame.size + 0)) inner.ideal.entities
      inner.encoder.entities := by
    refine hinner.staged.mono (Nat.le_refl _) ?_
    rw [hinner.bound_eq]
    exact le_max_left _ _
  exact ⟨hpace, Int.le_refl 0, Int.le_refl 0, hstaged.enter_type spelling id type⟩

/-- What is declared first is in scope of what is declared second. -/
theorem sequence {span : Span} {first first' second second' : Declaration}
    (hfirst : Declaration.Eases P Γ n Γ' first first')
    (hsecond : Declaration.Eases P Γ' n' Γ'' second second') (hn : n ≤ n') (hbelow : Γ'.Below n')
    {n'' : Nat} (hn' : n' ≤ n'') (hbelow' : Γ''.Below n'') :
    Declaration.Eases P Γ n Γ'' (.sequence span first second) (.sequence span first' second') := by
  intro start frame frame' hset
  simp only [Assembler.declaration]
  refine (hfirst hset).bind (Nat.le_trans hset.next hn) fun a b u s hopened _ _ => ?_
  obtain ⟨hb, hle, hstaged⟩ := hopened
  have hgrows : Start.Opens ⟨u, s, n'⟩ P _ _ _ := (Start.Matches.grow (hset.fits hb hle)).opens
  refine hgrows.bind (Nat.le_refl _) fun _ _ u₁ s₁ hframes hideal hencoder => ?_
  obtain ⟨⟨rfl, rfl, hfits⟩, -⟩ := hframes
  have hgrown := hset.grow hb hle hfits
  -- the second declaration starts in frames grown by what the first one takes
  have hset' : Setting Γ' n' ⟨u₁, s₁, n'⟩ (frame.replace (frame.size + a))
      (frame'.replace (frame'.size + b)) :=
    ⟨Nat.le_refl _, hbelow, hgrown.level, hgrown.size, hgrown.under,
      hstaged.later hbelow hideal hencoder⟩
  refine (hsecond hset').bind hn' fun c d u₂ s₂ hopened _ _ => ?_
  obtain ⟨hd, hle', hstaged'⟩ := hopened
  -- folding only lowers the words of a declaration, so their sum is a word as before
  have hword : Word.Fits (a + c) → Word.Fits (b + d) := by
    intro ⟨_, hupper⟩
    show Word.least ≤ _ ∧ _ ≤ Word.greatest
    unfold Word.least
    omega
  have hwords : Start.Opens ⟨u₂, s₂, n''⟩ P _ _ _ := (Start.Matches.word hword).opens
  refine hwords.mono fun e f u₃ s₃ hsums => ?_
  obtain ⟨⟨rfl, rfl, -⟩, hideal', hencoder'⟩ := hsums
  refine ⟨Int.add_nonneg hb hd, Int.add_le_add hle hle', ?_⟩
  rw [← Int.add_assoc]
  exact hstaged'.later hbelow' hideal' hencoder'

/-- A routine is represented before its parameters, and its body is in a frame of its own. -/
theorem routine {name : Name} {id : BindingId} (hname : name.binding = some id) (hid : n ≤ id)
    {spelling : String} {kind : BindingKind} (hwords : kind.words = 0) {hi : Nat}
    {parameters : Ideal Int} {parameters' : Encode Int} {body : Ideal Int} {body' : Encode Int}
    (hset : Setting Γ n start frame frame') (hbelow : Γ'.Below hi) (hhi : id + 1 ≤ hi)
    (hparameters : ∀ inner : Start, inner.next ≤ id + 1 →
      inner.Opens P parameters parameters' fun a b u s => b = a ∧ 0 ≤ a ∧
        inner.Entered (id + 1) hi (Γ.enter spelling id kind).enclose Γ' (frame.level + 1) u s)
    (hbody : ∀ inner, Setting Γ' hi inner (frame.push Machine.linkDataSize)
      (frame'.push Machine.linkDataSize) → inner.Matches P body body' fun a b => b = a) :
    start.Opens P (Ideal.assembler.routine name frame.level parameters body)
      (Encode.assembler.routine name frame'.level parameters' body')
      fun _ _ u s => (Γ.enter spelling id kind).Staged frame u.entities s.entities := by
  have hnew : start.next ≤ id := Nat.le_trans hset.next hid
  unfold Assembler.routine
  rw [hset.under.level]
  refine (Start.Matches.emitForward .jump .jump 0).opens.bind (Nat.le_refl _)
    fun jump jump' u s hjump _ _ => ?_
  obtain ⟨-, hideal, hencoder⟩ := hjump
  have hset₁ := hset.restart hideal hencoder
  have hnexts : Start.Opens ⟨u, s, start.next⟩ P _ _ _ := Start.Matches.next.opens
  refine hnexts.bind (Nat.le_refl _) fun entry entry' u s hat _ _ => ?_
  obtain ⟨-, hideal, hencoder⟩ := hat
  have hset₂ := hset₁.restart hideal hencoder
  refine (@Start.Opens.represent ⟨u, s, start.next⟩ P name id hname hnew _ _).bind
    (Nat.le_succ_of_le hnew) fun _ _ u s hbound _ _ => ?_
  obtain ⟨hideal, hencoder⟩ := hbound
  have hstaged : (Γ.enter spelling id kind).Staged frame u.entities s.entities := by
    rw [hideal, hencoder]
    exact hset₂.staged.enter hset₂.below hnew (hwords ▸ by decide) (.routine (Nat.le_refl _))
  have hbelow₁ : (Γ.enter spelling id kind).Below (id + 1) :=
    hset.below.enter (Nat.lt_succ_self id) (Nat.le_succ_of_le hnew)
  -- the routine stays represented, whatever its body does
  suffices hrest : Start.Opens ⟨u, s, id + 1⟩ P _ _ fun _ _ _ _ => True from
    hrest.kept.mono fun _ _ u' s' ⟨_, hideal, hencoder⟩ => hstaged.later hbelow₁ hideal hencoder
  have hnests : Start.Opens ⟨u, s, id + 1⟩ P _ _ _ := (Start.Matches.nests frame.level).opens
  refine hnests.bind (Nat.le_refl _) fun _ _ u₁ s₁ hnested hideal hencoder => ?_
  obtain ⟨⟨rfl, rfl, hlevel⟩, -⟩ := hnested
  rw [if_pos rfl, if_pos rfl]
  refine (hparameters ⟨u₁, s₁, id + 1⟩ (Nat.le_refl _)).bind hhi
    fun a b u₂ s₂ hopened _ _ => ?_
  obtain ⟨-, -, hentered⟩ := hopened
  have hinside : Γ'.Staged (frame.push Machine.linkDataSize) u₂.entities s₂.entities :=
    hentered.all_staged hbelow₁.enclose (hstaged.later hbelow₁ hideal hencoder).enclose
      (Nat.le_succ _) hset.size rfl
  have hset₃ : Setting Γ' hi ⟨u₂, s₂, hi⟩ (frame.push Machine.linkDataSize)
      (frame'.push Machine.linkDataSize) :=
    ⟨Nat.le_refl _, hbelow, hlevel, (by decide : Machine.linkDataSize ≤ Word.greatest),
      ⟨congrArg (· + 1) hset.under.level, (by decide : 0 ≤ Machine.linkDataSize),
        Int.le_refl _⟩, hinside⟩
  suffices hends : Start.Matches ⟨u₂, s₂, hi⟩ P _ _ fun _ _ => True from
    hends.opens.mono fun _ _ _ _ _ => trivial
  refine (hbody _ hset₃).bind fun size size' hsize => ?_
  subst hsize
  exact (Start.Matches.emit .ret .ret size' .cb .cb a b).bind fun _ _ _ => .patch jump jump'

/-- A routine takes no words of the frame. -/
theorem of_routine {x : Ideal Unit} {y : Encode Unit}
    (h : start.Opens P x y fun _ _ u s => Γ'.Staged frame u.entities s.entities) :
    start.Opens P (x >>= fun _ => pure 0) (y >>= fun _ => pure 0) fun a b u s =>
      0 ≤ b ∧ b ≤ a ∧ Γ'.Staged (frame.replace (frame.size + a)) u.entities s.entities := by
  refine h.bind (Nat.le_refl _) fun _ _ u s hstaged _ _ => ?_
  constructor
  intro lead _ hpace b s' hexec _
  obtain ⟨hb, rfl⟩ := Prod.mk.inj hexec
  obtain rfl := Except.ok.inj hb
  refine ⟨hpace, Int.le_refl 0, Int.le_refl 0, ?_⟩
  show Γ'.Staged (frame.replace (frame.size + 0)) u.entities s.entities
  rw [Int.add_zero]
  exact hstaged

section

variable {span : Span} {name : Name} {p p' : Supply} {shapes : Signature}
  {parameters parameters' : Formals} {outer : Env}

/-- The parameters of a routine come to the same places on both sides. -/
theorem parameters_enter (hset : Setting Γ n start frame frame')
    (hparameters : Formals.Typed outer p parameters parameters' shapes Γ' p')
    (hnames : outer.NamesIn p.Knows) (inner : Start) (hinner : inner.next ≤ p.bindings) :
    inner.Opens P (Ideal.assembler.formals parameters' (frame.push 0))
      (Encode.assembler.formals parameters' (frame'.push 0)) fun a b u s => b = a ∧ 0 ≤ a ∧
        inner.Entered p.bindings p'.bindings outer Γ' (frame.level + 1) u s := by
  have hframe : frame'.push 0 = frame.push 0 := by
    unfold Frame.push
    rw [hset.under.level]
  rw [hframe]
  exact hparameters.enters hnames hinner (Int.le_refl 0)

theorem proc {body body' : Command}
    (hparameters : Formals.Typed (Γ.enter name.spelling p.bindings (.proc shapes)).enclose p.bind
      parameters parameters' shapes Γ' p')
    (hnames : (Γ.enter name.spelling p.bindings (.proc shapes)).enclose.NamesIn p.bind.Knows)
    (hbelow : Γ'.Below p'.bindings) (hbody : Command.Eases P Γ' p'.bindings body body') :
    Declaration.Eases P Γ p.bindings (Γ.enter name.spelling p.bindings (.proc shapes))
      (.proc span false (name.link p.bindings) parameters' body)
      (.proc span false (name.link p.bindings) parameters' body') := by
  intro start frame frame' hset
  simp only [Assembler.declaration]
  refine of_routine (routine rfl (Nat.le_refl _) rfl hset hbelow hparameters.before.bindings
    (parameters_enter hset hparameters hnames) fun inner hinner => ?_)
  exact (hbody hinner).bind fun _ _ _ => .pure rfl

theorem func {result bodyType : TypeDenoter} {body body' : Expression} (hn : n ≤ p.bindings)
    (hparameters : Formals.Typed (Γ.enter name.spelling p.bindings (.func shapes result)).enclose
      p.bind parameters parameters' shapes Γ' p')
    (hnames : (Γ.enter name.spelling p.bindings (.func shapes result)).enclose.NamesIn
      p.bind.Knows)
    (hbelow : Γ'.Below p'.bindings) (hbody : Expression.Eases P Γ' p'.bindings body body' bodyType) :
    Declaration.Eases P Γ n (Γ.enter name.spelling p.bindings (.func shapes result))
      (.func span false (name.link p.bindings) parameters' result body)
      (.func span false (name.link p.bindings) parameters' result body') := by
  intro start frame frame' hset
  simp only [Assembler.declaration]
  refine of_routine (routine rfl hn rfl hset hbelow hparameters.before.bindings
    (parameters_enter hset hparameters hnames) fun inner hinner => ?_)
  exact (hbody hinner).mono fun a b ⟨ha, hb, _⟩ => hb.trans ha.symm

end

end Declaration.Eases

end

end TriangleTam
