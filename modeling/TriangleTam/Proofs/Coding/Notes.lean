import TriangleTam.Proofs.Coding.Outcomes
import TriangleTam.Proofs.Coding.Reach

/-! # Notes of display registers

  Encoding that takes **notes**: for every display register that it asks for,
  the level of the frame and the level of the data. Apart from the notes it is
  the encoding, and all that it notes of a decorated program is near.
-/

namespace TriangleTam

/-! ## What is asked for -/

/-- Of the frame's level, an entity depends on the display register of its own level alone. -/
theorem Entity.asks_only (entity : Entity) {frame frame' : Frame} (hsize : frame.size = frame'.size)
    (h : ∀ level, entity.level? = some level →
      ∀ e : Emitter, e.displayRegister frame level = e.displayRegister frame' level) :
    (∀ size access, entity.fetch frame size access = entity.fetch frame' size access) ∧
    (∀ size access, entity.store frame size access = entity.store frame' size access) ∧
    (∀ access, entity.fetchAddress frame access = entity.fetchAddress frame' access) ∧
    entity.call frame = entity.call frame' ∧
    entity.fetchClosure frame = entity.fetchClosure frame' := by
  cases entity with
  | unknownValue _ address | knownAddress _ address | unknownAddress _ address
  | knownRoutine _ address | unknownRoutine _ address =>
    have hregister := h address.level rfl
    refine ⟨fun _ _ => ?_, fun _ _ => ?_, fun _ => ?_, ?_, ?_⟩ <;> funext e <;>
      simp only [fetch, store, fetchAddress, call, fetchClosure, Emitter.pushAddress,
        Emitter.pushStoredAddress, Emitter.pushStoredClosure, hregister]
  | equalityRoutine primitive =>
    refine ⟨fun _ _ => rfl, fun _ _ => rfl, fun _ => rfl, ?_, rfl⟩
    unfold call
    rw [hsize]
  | _ => exact ⟨fun _ _ => rfl, fun _ _ => rfl, fun _ => rfl, rfl, rfl⟩

/-- One more entity has the level of its binding. -/
theorem Entity.levels_cons {levelOf : BindingId → Nat} {entities : List (BindingId × Entity)}
    (h : ∀ id entity, entities.lookup id = some entity →
      ∀ level, entity.level? = some level → level = levelOf id)
    {id : BindingId} {entity : Entity}
    (hlevel : ∀ level, entity.level? = some level → level = levelOf id) :
    ∀ id' entity', List.lookup id' ((id, entity) :: entities) = some entity' →
      ∀ level, entity'.level? = some level → level = levelOf id' := by
  intro id' entity' hat
  rw [List.lookup_cons] at hat
  cases heq : id' == id with
  | false =>
    rw [heq] at hat
    exact h id' entity' hat
  | true =>
    rw [heq] at hat
    obtain rfl := Option.some.inj hat
    rw [eq_of_beq heq]
    exact hlevel

/-! ## Encoding with notes -/

/-- A step of encoding that takes notes. -/
abbrev Noted := StateT (List Reach) Encode

namespace Noted

/-- A step of the encoder that asks for display registers. -/
def asking {α : Type} (reaches : List Reach) (act : Encode α) : Noted α := fun notes => do
  let a ← act
  return (a, notes ++ reaches)

/-- The operations of the encoder. Those that use an entity note what it asks for. -/
def assembler : Assembler Noted where
  next := asking [] Encode.next
  emit op n r d := asking [] (Encode.emit op n r d)
  patch address := asking [] (Encode.patch address)
  bind name entity := asking [] (Encode.bind name entity)
  entityOf name := asking [] (Encode.entityOf name)
  word n := asking [] (Encode.word n)
  sizeOf type := asking [] (Encode.sizeOf type)
  sizeOf? type span := asking [] (Encode.sizeOf? type span)
  fieldOffset record field := asking [] (Encode.fieldOffset record field)
  fetch place frame size := asking (place.1.reaches frame) (Encode.fetch place frame size)
  store place frame size := asking (place.1.reaches frame) (Encode.store place frame size)
  fetchAddress place frame := asking (place.1.reaches frame) (Encode.fetchAddress place frame)
  call entity frame := asking (entity.reaches frame) (Encode.requesting (entity.call frame))
  fetchClosure entity frame :=
    asking (entity.reaches frame) (Encode.requesting (entity.fetchClosure frame))
  nests level := asking [] (Encode.assembler.nests level)

/-! ## Keeping within reach -/

/-- Nothing was reported to be out of reach, and entities have the levels of their bindings. -/
structure Apt (journal : Journal) (levelOf : BindingId → Nat) (s : Encoder) : Prop where
  silent : s.emitter.Silent journal
  levels : ∀ id entity, s.entities.lookup id = some entity →
    ∀ level, entity.level? = some level → level = levelOf id

variable {journal : Journal} {levelOf : BindingId → Nat} {s s' : Encoder} {α β : Type}

namespace Apt

theorem measured (h : Apt journal levelOf s) (hmeasured : s.Measured s') :
    Apt journal levelOf s' := by
  refine ⟨h.silent.of_diagnostics hmeasured.diagnostics, ?_⟩
  rw [hmeasured.entities]
  exact h.levels

theorem emitting (h : Apt journal levelOf s) {e : Emitter} (he : e.Silent journal) :
    Apt journal levelOf { s with emitter := e } := ⟨he, h.levels⟩

theorem bind (h : Apt journal levelOf s) {id : BindingId} {entity : Entity}
    (hlevel : ∀ level, entity.level? = some level → level = levelOf id) {e : Emitter}
    (he : e.Silent journal) :
    Apt journal levelOf { s with emitter := e, entities := (id, entity) :: s.entities } :=
  ⟨he, Entity.levels_cons h.levels hlevel⟩

end Apt

/-- The noted step does what the step does, keeps within reach, notes near data alone, and
    returns what is so. -/
def Tracks (journal : Journal) (levelOf : BindingId → Nat) : Assembler.Relation Noted Encode :=
  fun _ x x' Q => ∀ ⦃s a s'⦄, Apt journal levelOf s → x'.exec s = (.ok a, s') →
    Apt journal levelOf s' ∧ Q a ∧ ∀ notes, ∃ reaches, (∀ reach ∈ reaches, reach.Near) ∧
      (x.run notes).exec s = (.ok (a, notes ++ reaches), s')

/-- What is so of the parts of a tree that fits the levels. -/
def facts (levelOf : BindingId → Nat) : Assembler.Facts where
  occurs occurrence := occurrence.Fits levelOf
  reaches level entity := ∀ level', entity.level? = some level' → level' ≤ level

namespace Tracks

theorem pure {a : α} {Q : α → Prop} (h : Q a) :
    Tracks journal levelOf (Pure.pure a) (Pure.pure a) Q := by
  intro s a' s' hapt hexec
  obtain ⟨ha, rfl⟩ := Prod.mk.inj hexec
  obtain rfl := Except.ok.inj ha
  exact ⟨hapt, h, fun notes => ⟨[], nofun, by rw [List.append_nil]; rfl⟩⟩

theorem bind {x : Noted α} {x' : Encode α} {f : α → Noted β} {f' : α → Encode β} {Q : α → Prop}
    {P : β → Prop} (hx : Tracks journal levelOf x x' Q)
    (hf : ∀ a, Q a → Tracks journal levelOf (f a) (f' a) P) :
    Tracks journal levelOf (x >>= f) (x' >>= f') P := by
  intro s b s'' hapt hexec
  obtain ⟨a, s', hexec₁, hexec₂⟩ := Encode.exec_bind_ok hexec
  obtain ⟨hapt', ha, hnotes⟩ := hx hapt hexec₁
  obtain ⟨hapt'', hb, hnotes'⟩ := hf a ha hapt' hexec₂
  refine ⟨hapt'', hb, fun notes => ?_⟩
  obtain ⟨reaches, hnear, hrun⟩ := hnotes notes
  obtain ⟨reaches', hnear', hrun'⟩ := hnotes' (notes ++ reaches)
  refine ⟨reaches ++ reaches', List.forall_mem_append.2 ⟨hnear, hnear'⟩, ?_⟩
  rw [StateT.run_bind, Encode.exec_bind hrun, hrun', List.append_assoc]

/-- A step of the encoder that asks for near data. -/
theorem asking {act : Encode α} {reaches : List Reach} {Q : α → Prop}
    (hnear : ∀ reach ∈ reaches, reach.Near)
    (hact : ∀ ⦃s a s'⦄, Apt journal levelOf s → act.exec s = (.ok a, s') →
      Apt journal levelOf s' ∧ Q a) :
    Tracks journal levelOf (Noted.asking reaches act) act Q := by
  intro s a s' hapt hexec
  obtain ⟨hapt', ha⟩ := hact hapt hexec
  refine ⟨hapt', ha, fun notes => ⟨reaches, hnear, ?_⟩⟩
  exact Encode.exec_bind hexec

/-- A step that leaves the display alone. -/
theorem still {act : Encode α} {Q : α → Prop}
    (hact : ∀ ⦃s a s'⦄, Apt journal levelOf s → act.exec s = (.ok a, s') →
      Apt journal levelOf s' ∧ Q a) :
    Tracks journal levelOf (Noted.asking [] act) act Q :=
  asking nofun hact

theorem emitting {act : Emitter → Emitter}
    (hact : ∀ {e : Emitter}, e.Silent journal → (act e).Silent journal) :
    Tracks journal levelOf (Noted.asking [] (Encode.emitting act)) (Encode.emitting act)
      fun _ => True := by
  refine still fun s a s' hapt hexec => ?_
  obtain ⟨-, rfl⟩ := Prod.mk.inj hexec
  exact ⟨hapt.emitting (hact hapt.silent), trivial⟩

theorem emit (op : OpCode) (n : Int) (r : Register) (d : Int) :
    Tracks journal levelOf (assembler.emit op n r d) (Encode.assembler.emit op n r d)
      fun _ => True :=
  emitting fun he => he.emit

/-- What a name stands for is of no deeper level than the use of the name. -/
theorem entityOf {level : Nat} {name : Name} (hname : (Occurrence.use level name).Fits levelOf) :
    Tracks journal levelOf (assembler.entityOf name) (Encode.assembler.entityOf name)
      ((facts levelOf).reaches level) := by
  refine still fun s entity s' hapt hexec => ?_
  obtain ⟨rfl, id, hid, hat⟩ := Encode.entityOf_ok hexec
  refine ⟨hapt, fun level' hlevel => ?_⟩
  rw [hapt.levels id entity hat level' hlevel]
  exact hname id hid

theorem bindName {level : Nat} {name : Name} {entity : Entity}
    (hname : (Occurrence.binder level name).Fits levelOf)
    (hentity : ∀ level', entity.level? = some level' → level' = level) :
    Tracks journal levelOf (assembler.bind name entity) (Encode.assembler.bind name entity)
      fun _ => True := by
  refine still fun s a s' hapt hexec => ?_
  obtain ⟨id, after, hid, hdiagnostics, rfl⟩ := Encode.bind_ok hexec
  refine ⟨hapt.bind (fun level' hlevel => ?_) (hapt.silent.of_diagnostics hdiagnostics), trivial⟩
  rw [hentity level' hlevel, hname id hid]

section

variable {entity : Entity} {frame : Frame} (hlevel : frame.level ≤ Machine.maxRoutineLevel)
  (hreaches : ∀ level, entity.level? = some level → level ≤ frame.level)

include hlevel hreaches

theorem requesting {act : Emitter → Except NotApplicable Emitter}
    (hact : ∀ {e e' : Emitter}, e.Silent journal → act e = .ok e' → e'.Silent journal) :
    Tracks journal levelOf (Noted.asking (entity.reaches frame) (Encode.requesting act))
      (Encode.requesting act) fun _ => True := by
  refine asking (Entity.Near.of_level hlevel hreaches) fun s a s' hapt hexec => ?_
  obtain ⟨e, he, rfl⟩ := Encode.requesting_ok hexec
  exact ⟨hapt.emitting (hact hapt.silent he), trivial⟩

/-- A request whose size operand is cut first. -/
theorem moving {limit : Limit} (hlimit : limit ≠ .displayReach) (size : Int)
    {act : Int → Emitter → Except NotApplicable Emitter}
    (hact : ∀ {size : Int} {e e' : Emitter}, e.Silent journal → act size e = .ok e' →
      e'.Silent journal) :
    Tracks journal levelOf (Noted.asking (entity.reaches frame) (do
        let size ← Encode.clampOperand size limit
        Encode.requesting (act size)))
      (do
        let size ← Encode.clampOperand size limit
        Encode.requesting (act size)) fun _ => True := by
  refine asking (Entity.Near.of_level hlevel hreaches) fun s a s' hapt hexec => ?_
  obtain ⟨size', s₁, hclamp, hrequest⟩ := Encode.exec_bind_ok hexec
  obtain ⟨-, rfl⟩ := Prod.mk.inj ((Encode.clampOperand_exec size limit s).symm.trans hclamp)
  obtain ⟨e, he, rfl⟩ := Encode.requesting_ok hrequest
  have hclamped := hapt.silent.clampOperand size hlimit
  exact ⟨(hapt.emitting hclamped).emitting (hact hclamped he), trivial⟩

end

end Tracks

theorem agrees (journal : Journal) (levelOf : BindingId → Nat) :
    Assembler.Agrees assembler Encode.assembler (fun _ => Tracks journal levelOf)
      (facts levelOf) where
  pure := .pure
  bind := .bind
  loadL n := .emit .loadL 0 .cb n
  push n := .emit .push 0 .cb n
  pop n d := .emit .pop n .cb d
  primitive p := .emit .call Register.sb.number .pb p.displacement
  word n := .still fun _ _ _ hapt hexec => ⟨hapt.measured (Encode.word_measured hexec).2, trivial⟩
  sizeOf _ := .still fun _ _ _ hapt hexec =>
    ⟨hapt.measured (Encode.sizeOf_measured hexec).2, trivial⟩
  sizeOf? span _ := .still fun _ _ _ hapt hexec =>
    ⟨hapt.measured (Encode.sizeOf?_measured hexec).1, trivial⟩
  fieldOffset field _ := .still fun _ _ _ hapt hexec =>
    ⟨hapt.measured (Encode.fieldOffset_measured hexec), trivial⟩
  entityOf hname := .entityOf hname
  bindName hname hlocal := .bindName hname hlocal.level?_eq
  fetch size hlevel hreaches := .moving hlevel hreaches (by decide) size
    fun he => (Entity.fetch_asks _ _ _ _).silent (Entity.Near.of_level hlevel hreaches).admits.fetch he
  store size hlevel hreaches := .moving hlevel hreaches (by decide) size
    fun he => (Entity.store_asks _ _ _ _).silent (Entity.Near.of_level hlevel hreaches).admits.store he
  fetchAddress hlevel hreaches := .requesting hlevel hreaches
    fun he => (Entity.fetchAddress_asks _ _ _).silent
      (Entity.Near.of_level hlevel hreaches).admits.fetchAddress he
  invoke hlevel hname := .bind (.entityOf hname) fun _ hreaches =>
    .requesting hlevel hreaches fun he =>
      (Entity.call_asks _ _).silent (Entity.Near.of_level hlevel hreaches).admits.call he
  pass hlevel hname := .bind (.entityOf hname) fun _ hreaches =>
    .requesting hlevel hreaches fun he =>
      (Entity.fetchClosure_asks _ _).silent
        (Entity.Near.of_level hlevel hreaches).admits.fetchClosure he

/-- A routine has a body only where there may be one more level. -/
theorem nests (level : Nat) :
    Tracks journal levelOf (assembler.nests level) (Encode.assembler.nests level)
      fun nested => nested = true → level < Machine.maxRoutineLevel := by
  refine .still fun s nested s' hapt hexec => ?_
  unfold Encode.assembler at hexec
  dsimp only at hexec
  by_cases hlevel : level ≥ Machine.maxRoutineLevel
  · rw [if_pos hlevel] at hexec
    obtain ⟨hnested, rfl⟩ := Prod.mk.inj hexec
    obtain rfl := Except.ok.inj hnested
    have hlimit : Limit.routineNesting ≠ .displayReach := by decide
    exact ⟨hapt.emitting (hapt.silent.restrict hlimit), nofun⟩
  · rw [if_neg hlevel] at hexec
    obtain ⟨-, rfl⟩ := Prod.mk.inj hexec
    exact ⟨hapt, fun _ => Nat.lt_of_not_le hlevel⟩

theorem controls (journal : Journal) (levelOf : BindingId → Nat) :
    Assembler.Controls assembler Encode.assembler (Tracks journal levelOf) (facts levelOf) where
  next := .still fun _ _ _ hapt hexec => by
    obtain ⟨-, rfl⟩ := Prod.mk.inj hexec
    exact ⟨hapt, trivial⟩
  jump op n d := .emit op n .cb d
  patch address := .emitting fun he => he.patch address
  nests level := nests level
  bindRoutine entry hname := by
    refine .bindName hname fun level' hlevel => ?_
    exact (Option.some.inj hlevel).symm

/-- Encoding that takes notes does what encoding does. -/
theorem covers (journal : Journal) (levelOf : BindingId → Nat) :
    Assembler.Covers assembler Encode.assembler (fun _ => Tracks journal levelOf)
      (facts levelOf) :=
  (agrees journal levelOf).covers (controls journal levelOf)

end Noted

end TriangleTam
