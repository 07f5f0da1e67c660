import TriangleTam.Proofs.Coding.Ideal
import TriangleTam.Proofs.Coding.Notes

/-! # Limits

  From a quiet encoder on, encoding and the ideal translation go together. The
  encoder stays quiet as long as the demands are met that the ideal machine
  was asked for, and no longer; and while it is quiet, both write the same code.
-/

namespace TriangleTam

/-! ## Demands on a machine with some code -/

/-- A machine with so many instructions provides all that is asked for. -/
structure Meets (used : Nat) (demands : List Demand) : Prop where
  room : used + demands.count .room ≤ Machine.codeStoreSize
  met  : ∀ demand ∈ demands, demand.Met

theorem meets_nil {used : Nat} : Meets used [] ↔ used ≤ Machine.codeStoreSize :=
  ⟨fun h => h.room, fun h => ⟨h, List.forall_mem_nil _⟩⟩

theorem meets_append {used : Nat} {demands demands' : List Demand} :
    Meets used (demands ++ demands') ↔
      Meets used demands ∧ Meets (used + demands.count .room) demands' := by
  constructor
  · rintro ⟨hroom, hmet⟩
    obtain ⟨hmet, hmet'⟩ := List.forall_mem_append.1 hmet
    rw [List.count_append] at hroom
    exact ⟨⟨by omega, hmet⟩, ⟨by omega, hmet'⟩⟩
  · rintro ⟨⟨-, hmet⟩, ⟨hroom, hmet'⟩⟩
    refine ⟨?_, List.forall_mem_append.2 ⟨hmet, hmet'⟩⟩
    rw [List.count_append]
    omega

/-! ## Emitters -/

/-- The instructions were appended, and the emitter stays quiet if and only if the demands are
    met. -/
structure Emitter.Fulfils (e e' : Emitter) (lines : List Instruction) (demands : List Demand) :
    Prop extends e.Appends e' lines where
  count : demands.count .room = lines.length
  quiet : e.Quiet → e.code.size ≤ Machine.codeStoreSize →
    (e'.Quiet ↔ Meets e.code.size demands)

namespace Emitter

variable {e e' e'' : Emitter} {lines lines' : List Instruction} {demands demands' : List Demand}

theorem Appends.size_eq (h : e.Appends e' lines) (hquiet : e'.Quiet) :
    e'.code.size = e.code.size + lines.length := by
  have hlength := congrArg List.length (h.code hquiet)
  rwa [List.length_append] at hlength

namespace Fulfils

theorem refl (e : Emitter) : e.Fulfils e [] [] :=
  ⟨.refl e, rfl, fun hquiet hroom => ⟨fun _ => meets_nil.2 hroom, fun _ => hquiet⟩⟩

theorem trans (h : e.Fulfils e' lines demands) (h' : e'.Fulfils e'' lines' demands') :
    e.Fulfils e'' (lines ++ lines') (demands ++ demands') := by
  refine ⟨h.toAppends.trans h'.toAppends, ?_, fun hquiet hroom => ?_⟩
  · rw [List.count_append, List.length_append, h.count, h'.count]
  · rw [meets_append, h.count, ← h.quiet hquiet hroom]
    constructor
    · intro hquiet''
      have hquiet' := h'.before.quiet hquiet''
      have hsize := h.toAppends.size_eq hquiet'
      have hmeets := (h'.quiet hquiet' (h.before.room hroom)).1 hquiet''
      exact ⟨hquiet', hsize ▸ hmeets⟩
    · rintro ⟨hquiet', hmeets⟩
      rw [← h.toAppends.size_eq hquiet'] at hmeets
      exact (h'.quiet hquiet' (h.before.room hroom)).2 hmeets

end Fulfils

theorem clampOperand_fulfils (e : Emitter) (n : Int) (limit : Limit) :
    e.Fulfils (e.clampOperand n limit).2 [] [.length n] := by
  refine ⟨(e.clampOperand_appends n limit).1, rfl, fun hquiet hroom => ?_⟩
  unfold clampOperand
  by_cases hn : n > Machine.maxOperandSize
  · rw [if_pos hn]
    refine ⟨fun hquiet' => absurd hquiet'.clean (e.restrict_noisy _), fun hmeets => ?_⟩
    exact absurd (hmeets.met _ List.mem_cons_self) (Int.not_le.2 hn)
  · rw [if_neg hn]
    exact ⟨fun _ => ⟨hroom, List.forall_mem_singleton.2 (Int.not_lt.1 hn)⟩, fun _ => hquiet⟩

theorem push_fulfils (e : Emitter) (i : Instruction) :
    e.Fulfils (if e.code.size < Machine.codeStoreSize then { e with code := e.code.push i }
      else e.restrictCode) [i] [.room] := by
  refine ⟨e.push_appends i, rfl, fun hquiet _ => ?_⟩
  by_cases hroom : e.code.size < Machine.codeStoreSize
  · rw [if_pos hroom]
    exact ⟨fun _ => ⟨hroom, List.forall_mem_singleton.2 trivial⟩,
      fun _ => ⟨hquiet.clean, hquiet.notFull, hquiet.addressable⟩⟩
  · rw [if_neg hroom]
    exact ⟨fun hquiet' => absurd hquiet' e.restrictCode_not_quiet,
      fun hmeets => absurd hmeets.room hroom⟩

theorem emit_fulfils (e : Emitter) (op : OpCode) (n : Int) (r : Register) (d : Int) :
    e.Fulfils (e.emit op n r d) [⟨op, r.number, n, d⟩] [.length n, .room] :=
  { e.emit_appends op n r d with
    count := rfl
    quiet := ((e.clampOperand_fulfils n .operandLength).trans (push_fulfils _ _)).quiet }

theorem displace_fulfils (e : Emitter) (address : Address) (access : Access) :
    e.Fulfils (e.displace address access).2 [] [.word (address.displacement + access.offset)] := by
  refine ⟨(e.displace_appends address access).1, rfl, fun hquiet hroom => ?_⟩
  unfold displace
  dsimp only
  by_cases hfits : Word.Fits (address.displacement + access.offset)
  · rw [if_pos hfits]
    exact ⟨fun _ => ⟨hroom, List.forall_mem_singleton.2 hfits⟩, fun _ => hquiet⟩
  · rw [if_neg hfits]
    exact ⟨fun hquiet' => absurd hquiet' e.restrictAddress_not_quiet,
      fun hmeets => absurd (hmeets.met _ List.mem_cons_self) hfits⟩

/-- Near data has its register, so that no request for it is reported. -/
theorem serve_fulfils (e : Emitter) {request : Request} (hnear : request.Near) :
    e.Fulfils (e.serve request) request.code request.demands := by
  cases request with
  | register frame level =>
    have heq : e.serve (.register frame level) = e := Reach.Near.displayRegister_eq hnear e
    rw [heq]
    exact .refl e
  | emit op n r d => exact e.emit_fulfils op n r d
  | place op n r address access =>
    obtain ⟨happends, hdisplacement⟩ := e.displace_appends address access
    have hserved := (e.displace_fulfils address access).trans
      (emit_fulfils _ op n r (e.displace address access).1)
    refine ⟨⟨hserved.before, fun hquiet => ?_⟩, rfl, hserved.quiet⟩
    have hquiet' := (emit_appends _ op n r _).before.quiet hquiet
    refine (hserved.code hquiet).trans ?_
    rw [hdisplacement hquiet']
    rfl

theorem serveAll_fulfils (e : Emitter) {requests : List Request}
    (hnear : ∀ request ∈ requests, request.Near) :
    e.Fulfils (e.serveAll requests) (requests.flatMap Request.code)
      (requests.flatMap Request.demands) := by
  induction requests generalizing e with
  | nil => exact .refl e
  | cons request requests ih =>
    obtain ⟨hfirst, hrest⟩ := List.forall_mem_cons.1 hnear
    exact (e.serve_fulfils hfirst).trans (ih _ hrest)

end Emitter

/-! ## Encoders -/

/-- What encoding keeps to: what is laid out is exact unless something was out of range, code
    does not outgrow its store, and entities have the levels of their bindings. -/
structure Encoder.Fit (made : List TypeDenoter) (levelOf : BindingId → Nat) (s : Encoder) :
    Prop where
  laid   : s.Laid made
  room   : s.start ≤ Machine.codeStoreSize
  levels : ∀ id entity, s.entities.lookup id = some entity →
    ∀ level, entity.level? = some level → level = levelOf id

/-- The ideal machine has the same code and the same representations. -/
structure Encoder.Mirrors (s : Encoder) (u : Unbounded) : Prop where
  code     : s.emitter.code.toList = u.code
  entities : s.entities = u.entities

variable {made : List TypeDenoter} {levelOf : BindingId → Nat} {s s' : Encoder} {α β : Type}

theorem Encoder.Mirrors.start_eq {u : Unbounded} (h : s.Mirrors u) : s.start = u.code.length :=
  congrArg List.length h.code

/-- From a quiet encoder on, the ideal step foretells whether the encoder stays quiet, and if so,
    what it returns and does. -/
structure Ideal.Foretells (made : List TypeDenoter) (levelOf : BindingId → Nat) (x : Ideal α)
    (s : Encoder) (a : α) (s' : Encoder) : Prop where
  fit    : s'.Fit made levelOf
  before : s'.Quiet → s.Quiet
  quiet  : ∀ {u}, s.Quiet → s.Mirrors u → (s'.Quiet ↔ Meets s.start (x.run u).2.2)
  same   : ∀ {u}, s.Quiet → s.Mirrors u → s'.Quiet →
    (x.run u).1 = a ∧ s'.Mirrors (x.run u).2.1

namespace Ideal

namespace Foretells

/-- Code was written. -/
theorem of_fulfils (hfit : s.Fit made levelOf) {e : Emitter} {lines : List Instruction}
    {demands : List Demand} (h : s.emitter.Fulfils e lines demands) {x : Ideal α} {a a' : α}
    (hx : ∀ u, x.run u = (a', { u with code := u.code ++ lines }, demands))
    (ha : e.Quiet → a' = a) : x.Foretells made levelOf s a { s with emitter := e } where
  fit := ⟨hfit.laid, h.before.room hfit.room, hfit.levels⟩
  before hquiet := ⟨h.before.quiet hquiet.emitter, hquiet.inRange⟩
  quiet {u} hquiet _ := by
    rw [hx]
    have hiff := h.quiet hquiet.emitter hfit.room
    exact ⟨fun hquiet' => hiff.1 hquiet'.emitter, fun hmeets => ⟨hiff.2 hmeets, hquiet.inRange⟩⟩
  same {u} hquiet hmirrors hquiet' := by
    rw [hx]
    refine ⟨ha hquiet'.emitter, ?_, hmirrors.entities⟩
    rw [h.code hquiet'.emitter, hmirrors.code]

/-- Sizes were asked for. -/
theorem of_measured (hfit : s.Fit made levelOf) (h : s.Measured s') (hlaid : s'.Laid made)
    {demands : List Demand} (hroom : .room ∉ demands)
    (hrange : s'.outOfRange = false ↔ s.outOfRange = false ∧ ∀ demand ∈ demands, demand.Met)
    {x : Ideal α} {a a' : α} (hx : ∀ u, x.run u = (a', u, demands))
    (ha : (∀ demand ∈ demands, demand.Met) → a' = a) : x.Foretells made levelOf s a s' where
  fit := by
    refine ⟨hlaid, ?_, ?_⟩
    · show s'.emitter.code.size ≤ _
      rw [h.code]
      exact hfit.room
    · rw [h.entities]
      exact hfit.levels
  before hquiet := ⟨h.quiet_iff.1 hquiet.emitter, (hrange.1 hquiet.inRange).1⟩
  quiet {u} hquiet _ := by
    rw [hx]
    constructor
    · intro hquiet'
      refine ⟨?_, (hrange.1 hquiet'.inRange).2⟩
      rw [List.count_eq_zero_of_not_mem hroom]
      exact hfit.room
    · intro hmeets
      exact ⟨h.quiet_iff.2 hquiet.emitter, hrange.2 ⟨hquiet.inRange, hmeets.met⟩⟩
  same {u} hquiet hmirrors hquiet' := by
    rw [hx]
    refine ⟨ha (hrange.1 hquiet'.inRange).2, ?_, ?_⟩
    · rw [h.code, hmirrors.code]
    · rw [h.entities, hmirrors.entities]

/-- Nothing was done. -/
theorem of_eq (hfit : s.Fit made levelOf) {x : Ideal α} {a : α}
    (hx : ∀ u, (x.run u).2 = (u, []))
    (ha : ∀ u, s.Quiet → s.Mirrors u → (x.run u).1 = a) : x.Foretells made levelOf s a s where
  fit := hfit
  before := id
  quiet {u} hquiet _ := by
    rw [hx]
    exact ⟨fun _ => meets_nil.2 hfit.room, fun _ => hquiet⟩
  same {u} hquiet hmirrors _ := by
    rw [hx]
    exact ⟨ha u hquiet hmirrors, hmirrors⟩

theorem bind {s₁ s₂ : Encoder} {x : Ideal α} {f : α → Ideal β} {a : α} {b : β}
    (h : x.Foretells made levelOf s a s₁) (h' : (f a).Foretells made levelOf s₁ b s₂) :
    (x >>= f).Foretells made levelOf s b s₂ where
  fit := h'.fit
  before := h.before ∘ h'.before
  quiet {u} hquiet hmirrors := by
    have hrun : ((x >>= f).run u).2.2 =
        (x.run u).2.2 ++ ((f (x.run u).1).run (x.run u).2.1).2.2 := rfl
    rw [hrun, meets_append, ← h.quiet hquiet hmirrors]
    -- where the first step keeps quiet, the second starts from what it foretold
    have hsecond (hquiet₁ : s₁.Quiet) : s₂.Quiet ↔
        Meets (s.start + (x.run u).2.2.count .room)
          ((f (x.run u).1).run (x.run u).2.1).2.2 := by
      obtain ⟨ha, hmirrors₁⟩ := h.same hquiet hmirrors hquiet₁
      have hstart : s.start + (x.run u).2.2.count .room = s₁.start := by
        rw [hmirrors.start_eq, hmirrors₁.start_eq, x.room]
      rw [ha, hstart]
      exact h'.quiet hquiet₁ hmirrors₁
    exact ⟨fun hquiet₂ => ⟨h'.before hquiet₂, (hsecond (h'.before hquiet₂)).1 hquiet₂⟩,
      fun ⟨hquiet₁, hmeets⟩ => (hsecond hquiet₁).2 hmeets⟩
  same {u} hquiet hmirrors hquiet₂ := by
    have hquiet₁ := h'.before hquiet₂
    obtain ⟨ha, hmirrors₁⟩ := h.same hquiet hmirrors hquiet₁
    have hlast := h'.same hquiet₁ hmirrors₁ hquiet₂
    rw [← ha] at hlast
    exact hlast

end Foretells

/-! ## Operations -/

/-- From a fit encoder on, the step of the encoder is foretold by the ideal step, and what it
    returns is so. -/
def Foretelling (made : List TypeDenoter) (levelOf : BindingId → Nat) :
    Assembler.Relation Ideal Encode :=
  fun _ x x' Q => ∀ ⦃s a s'⦄, s.Fit made levelOf → x'.exec s = (.ok a, s') →
    Q a ∧ x.Foretells made levelOf s a s'

/-- What is so of the parts of a tree whose types are known and that fits the levels. -/
def facts (made : List TypeDenoter) (levelOf : BindingId → Nat) : Assembler.Facts where
  written := TypeDenoter.Known made
  found := Finds (TypeDenoter.Known made)
  occurs occurrence := occurrence.Fits levelOf
  reaches level entity := ∀ level', entity.level? = some level' → level' ≤ level

namespace Foretelling

theorem pure {a : α} {Q : α → Prop} (h : Q a) :
    Foretelling made levelOf (Pure.pure a) (Pure.pure a) Q := by
  intro s a' s' hfit hexec
  obtain ⟨ha, rfl⟩ := Prod.mk.inj hexec
  obtain rfl := Except.ok.inj ha
  exact ⟨h, .of_eq hfit (fun _ => rfl) fun _ _ _ => rfl⟩

theorem bind {x : Ideal α} {x' : Encode α} {f : α → Ideal β} {f' : α → Encode β} {Q : α → Prop}
    {P : β → Prop} (hx : Foretelling made levelOf x x' Q)
    (hf : ∀ a, Q a → Foretelling made levelOf (f a) (f' a) P) :
    Foretelling made levelOf (x >>= f) (x' >>= f') P := by
  intro s b s'' hfit hexec
  obtain ⟨a, s', hexec₁, hexec₂⟩ := Encode.exec_bind_ok hexec
  obtain ⟨ha, hforetells⟩ := hx hfit hexec₁
  obtain ⟨hb, hforetells'⟩ := hf a ha hforetells.fit hexec₂
  exact ⟨hb, hforetells.bind hforetells'⟩

/-! ### Code -/

theorem emit (op : OpCode) (n : Int) (r : Register) (d : Int) :
    Foretelling made levelOf (assembler.emit op n r d) (Encode.assembler.emit op n r d)
      fun _ => True := by
  intro s a s' hfit hexec
  obtain ⟨-, rfl⟩ := Prod.mk.inj hexec
  exact ⟨trivial, .of_fulfils hfit (s.emitter.emit_fulfils op n r d) (fun _ => rfl) fun _ => rfl⟩

/-- What an entity is asked to do, where its data is near. -/
theorem requesting {act : Emitter → Except NotApplicable Emitter}
    {requests : Option (List Request)} (hasks : Entity.Asks act requests)
    (hnear : ∀ {made}, requests = some made → ∀ request ∈ made, request.Near) :
    Foretelling made levelOf (serve (requests.getD [])) (Encode.requesting act)
      fun _ => True := by
  intro s a s' hfit hexec
  obtain ⟨e, he, rfl⟩ := Encode.requesting_ok hexec
  obtain ⟨made, rfl, rfl⟩ := hasks _ _ he
  exact ⟨trivial, .of_fulfils hfit (s.emitter.serveAll_fulfils (hnear rfl)) (fun _ => rfl)
    fun _ => rfl⟩

theorem clampOperand (n : Int) (limit : Limit) :
    Foretelling made levelOf (length n) (Encode.clampOperand n limit) fun _ => True := by
  intro s a s' hfit hexec
  obtain ⟨ha, rfl⟩ := Prod.mk.inj ((Encode.clampOperand_exec n limit s).symm.trans hexec)
  obtain rfl := Except.ok.inj ha
  refine ⟨trivial, .of_fulfils hfit (s.emitter.clampOperand_fulfils n limit) (fun u => ?_)
    fun hquiet => ((s.emitter.clampOperand_appends n limit).2 hquiet).symm⟩
  rw [List.append_nil]
  rfl

theorem next : Foretelling made levelOf assembler.next Encode.assembler.next fun _ => True := by
  intro s a s' hfit hexec
  obtain ⟨ha, rfl⟩ := Prod.mk.inj hexec
  obtain rfl := Except.ok.inj ha
  refine ⟨trivial, .of_eq hfit (fun _ => rfl) fun u _ hmirrors => ?_⟩
  exact congrArg Int.ofNat hmirrors.start_eq.symm

theorem patch (address : Int) :
    Foretelling made levelOf (assembler.patch address) (Encode.assembler.patch address)
      fun _ => True := by
  intro s a s' hfit hexec
  obtain ⟨-, rfl⟩ := Prod.mk.inj hexec
  refine ⟨trivial, ?_⟩
  show Foretells made levelOf _ s () { s with emitter := s.emitter.patch address }
  by_cases haddress : address < 0
  · have hsame : s.emitter.patch address = s.emitter := if_pos haddress
    rw [hsame]
    refine .of_eq hfit (fun u => ?_) fun _ _ _ => rfl
    exact Prod.ext (if_pos haddress) rfl
  · have hpatched : s.emitter.patch address = { s.emitter with
        code := s.emitter.code.modify address.toNat fun i => { i with d := s.emitter.next } } :=
      if_neg haddress
    have hsize : (s.emitter.code.modify address.toNat fun i =>
        { i with d := s.emitter.next }).size = s.emitter.code.size := Array.size_modify
    rw [hpatched]
    refine ⟨⟨hfit.laid, ?_, hfit.levels⟩, ?_, fun hquiet hmirrors => ?_,
      fun hquiet hmirrors _ => ⟨rfl, ?_, ?_⟩⟩
    · exact Nat.le_trans (Nat.le_of_eq hsize) hfit.room
    · exact fun hquiet => ⟨⟨hquiet.1.1, hquiet.1.2, hquiet.1.3⟩, hquiet.2⟩
    · exact ⟨fun _ => meets_nil.2 hfit.room,
        fun _ => ⟨⟨hquiet.1.1, hquiet.1.2, hquiet.1.3⟩, hquiet.2⟩⟩
    · have hnext : s.emitter.next = s.emitter.code.toList.length := rfl
      dsimp only [assembler, Ideal.patch]
      rw [if_neg haddress, Array.toList_modify, hnext, hmirrors.code]
    · dsimp only [assembler, Ideal.patch]
      rw [if_neg haddress]
      exact hmirrors.entities

/-- Where a routine is nested too deeply, the encoder reports it. -/
theorem nests (level : Nat) :
    Foretelling made levelOf (assembler.nests level) (Encode.assembler.nests level)
      fun nested => nested = true → level < Machine.maxRoutineLevel := by
  intro s nested s' hfit hexec
  unfold Encode.assembler at hexec
  dsimp only at hexec
  by_cases hlevel : level ≥ Machine.maxRoutineLevel
  · rw [if_pos hlevel] at hexec
    obtain ⟨hnested, rfl⟩ := Prod.mk.inj hexec
    obtain rfl := Except.ok.inj hnested
    have hnoisy := s.emitter.restrict_noisy Limit.routineNesting.message
    refine ⟨nofun, ⟨⟨hfit.laid, hfit.room, hfit.levels⟩, fun hquiet => ?_, fun _ _ => ?_,
      fun _ _ hquiet => ?_⟩⟩
    · exact absurd hquiet.emitter.clean hnoisy
    · refine ⟨fun hquiet => absurd hquiet.emitter.clean hnoisy, fun hmeets => ?_⟩
      exact absurd (hmeets.met _ List.mem_cons_self) (Nat.not_lt.2 hlevel)
    · exact absurd hquiet.emitter.clean hnoisy
  · rw [if_neg hlevel] at hexec
    obtain ⟨hnested, rfl⟩ := Prod.mk.inj hexec
    obtain rfl := Except.ok.inj hnested
    have hmet : ∀ demand ∈ [Demand.nesting level], demand.Met :=
      List.forall_mem_singleton.2 (Nat.lt_of_not_le hlevel)
    exact ⟨fun _ => Nat.lt_of_not_le hlevel, .of_measured hfit ⟨rfl, rfl, rfl, rfl, rfl⟩ hfit.laid
      (by simp) (iff_self_and.2 fun _ => hmet) (fun _ => rfl) fun _ => rfl⟩

/-! ### Names -/

theorem entityOf {level : Nat} {name : Name} (hname : (Occurrence.use level name).Fits levelOf) :
    Foretelling made levelOf (assembler.entityOf name) (Encode.assembler.entityOf name)
      ((facts made levelOf).reaches level) := by
  intro s entity s' hfit hexec
  obtain ⟨rfl, id, hid, hat⟩ := Encode.entityOf_ok hexec
  refine ⟨fun level' hlevel => ?_, .of_eq hfit (fun _ => rfl) fun u _ hmirrors => ?_⟩
  · rw [hfit.levels id entity hat level' hlevel]
    exact hname id hid
  · have hfound : (name.binding.bind fun id => u.entities.lookup id) = some entity := by
      rw [hid, Option.bind_some, ← hmirrors.entities, hat]
    exact congrArg (Option.getD · (.typeRepresentation 0)) hfound

theorem bindName {level : Nat} {name : Name} {entity : Entity}
    (hname : (Occurrence.binder level name).Fits levelOf)
    (hentity : ∀ level', entity.level? = some level' → level' = level) :
    Foretelling made levelOf (assembler.bind name entity) (Encode.assembler.bind name entity)
      fun _ => True := by
  intro s a s' hfit hexec
  obtain ⟨id, journal, hid, hdiagnostics, rfl⟩ := Encode.bind_ok hexec
  have hlevel : ∀ level', entity.level? = some level' → level' = levelOf id := by
    intro level' hlevel
    rw [hentity level' hlevel, hname id hid]
  have hquiet : ({ s.emitter with journal } : Emitter).Quiet ↔ s.emitter.Quiet := by
    constructor
    · exact fun hquiet => ⟨hdiagnostics ▸ hquiet.1, hquiet.2, hquiet.3⟩
    · exact fun hquiet => ⟨hdiagnostics.trans hquiet.1, hquiet.2, hquiet.3⟩
  refine ⟨trivial, ⟨⟨hfit.laid, hfit.room, Entity.levels_cons hfit.levels hlevel⟩, ?_,
    fun hquiet₀ _ => ?_, fun _ hmirrors _ => ⟨rfl, ?_, ?_⟩⟩⟩
  · exact fun hquiet' => ⟨hquiet.1 hquiet'.emitter, hquiet'.inRange⟩
  · exact ⟨fun _ => meets_nil.2 hfit.room, fun _ => ⟨hquiet.2 hquiet₀.emitter, hquiet₀.inRange⟩⟩
  · dsimp only [assembler, represent]
    rw [hid]
    exact hmirrors.code
  · dsimp only [assembler, represent]
    rw [hid, hmirrors.entities]

/-! ### Sizes -/

theorem word (n : Int) :
    Foretelling made levelOf (assembler.word n) (Encode.assembler.word n) fun _ => True := by
  intro s k s' hfit hexec
  obtain ⟨rfl, hmeasured⟩ := Encode.word_measured hexec
  obtain ⟨-, rfl⟩ := Prod.mk.inj ((Encode.word_exec n s).symm.trans hexec)
  have hmet : (∀ demand ∈ [Demand.word n], demand.Met) ↔ Word.Fits n := List.forall_mem_singleton
  refine ⟨trivial, .of_measured hfit hmeasured (fun hrange => ?_) (by simp) ?_ (fun _ => rfl)
    fun hfits => (Word.clamp_of_fits (hmet.1 hfits)).symm⟩
  · exact hfit.laid (Bool.or_eq_false_iff.1 hrange).1
  · rw [hmet, Bool.or_eq_false_iff, Bool.not_eq_false', decide_eq_true_iff]

theorem sizeOf {type : TypeDenoter} (hknown : type.Known made) :
    Foretelling made levelOf (assembler.sizeOf type) (Encode.assembler.sizeOf type)
      fun size => size = type.size := by
  intro s n s' hfit hexec
  obtain ⟨rfl, hmeasured⟩ := Encode.sizeOf_measured hexec
  obtain ⟨journal, -, hexec'⟩ := Encode.sizeOf_exec type s
  obtain ⟨-, rfl⟩ := Prod.mk.inj (hexec'.symm.trans hexec)
  have hlaid (hrange : s.outOfRange = false) :
      type.LaidOut made { layouts := s.layouts } (type.layOut { layouts := s.layouts }) :=
    hknown.layOut fun _ => hfit.laid hrange
  have hmet : (∀ demand ∈ type.measures.map Demand.word, demand.Met) ↔ type.Exact := by
    rw [List.forall_mem_map, TypeDenoter.exact_iff]
    rfl
  refine ⟨rfl, .of_measured hfit hmeasured (fun hrange => ?_)
    (Demand.room_not_mem_map_word _) ?_ (fun _ => rfl) fun hexact => ?_⟩
  · obtain ⟨hrange₀, hrange₁⟩ := Bool.or_eq_false_iff.1 hrange
    exact (hlaid hrange₀).sound hrange₁
  · rw [hmet, Bool.or_eq_false_iff]
    exact and_congr_right fun hrange₀ =>
      ⟨(hlaid hrange₀).exact, fun hexact => hexact.layOut_outOfRange _⟩
  · exact (hmet.1 hexact).size_eq.symm

theorem sizeOf? {type : Option TypeDenoter} (span : Span)
    (hfound : Finds (TypeDenoter.Known made) type) :
    Foretelling made levelOf (assembler.sizeOf? type span) (Encode.assembler.sizeOf? type span)
      fun _ => True := by
  obtain ⟨type', rfl, hknown⟩ := hfound
  exact fun s a s' hfit hexec => ⟨trivial, (sizeOf hknown hfit hexec).2⟩

theorem fieldOffset {record : Vname} (field : Name)
    (hfound : Finds (TypeDenoter.Known made) record.type) :
    Foretelling made levelOf (assembler.fieldOffset record field)
      (Encode.assembler.fieldOffset record field) fun _ => True := by
  intro s offset s' hfit hexec
  obtain ⟨type, htype, hoffset, hsize⟩ := Encode.fieldOffset_ok hexec
  obtain ⟨_, hmem, hknown⟩ := hfound
  obtain rfl := Option.some.inj (htype.symm.trans hmem)
  obtain ⟨-, hforetells⟩ := sizeOf hknown hfit hsize
  unfold assembler Ideal.fieldOffset
  dsimp only
  rw [htype]
  refine ⟨trivial, hforetells.bind (.of_eq hforetells.fit (fun _ => rfl) fun u hquiet _ => ?_)⟩
  -- the encoder is quiet after the size was asked for, so the type is exact
  obtain ⟨_, _, hexec', -, -, -, hexact⟩ := Encode.sizeOf_does hknown hfit.laid
  obtain ⟨-, rfl⟩ := Prod.mk.inj (hexec'.symm.trans hsize)
  rw [(hexact hquiet).fieldOffset?_eq] at hoffset
  show (type.position? field.spelling).getD 0 = offset
  rw [hoffset]
  rfl

/-! ### Places -/

section

variable {entity : Entity} {frame : Frame} (hlevel : frame.level ≤ Machine.maxRoutineLevel)
  (hreaches : ∀ level, entity.level? = some level → level ≤ frame.level)

include hlevel hreaches

theorem fetch (size : Int) (access : Access) :
    Foretelling made levelOf (assembler.fetch (entity, access) frame size)
      (Encode.assembler.fetch (entity, access) frame size) fun _ => True :=
  bind (clampOperand size .loadLength) fun _ _ => requesting (Entity.fetch_asks _ _ _ _)
    (Entity.Near.of_level hlevel hreaches).admits.fetch

theorem store (size : Int) (access : Access) :
    Foretelling made levelOf (assembler.store (entity, access) frame size)
      (Encode.assembler.store (entity, access) frame size) fun _ => True :=
  bind (clampOperand size .storeLength) fun _ _ => requesting (Entity.store_asks _ _ _ _)
    (Entity.Near.of_level hlevel hreaches).admits.store

theorem fetchAddress (access : Access) :
    Foretelling made levelOf (assembler.fetchAddress (entity, access) frame)
      (Encode.assembler.fetchAddress (entity, access) frame) fun _ => True :=
  requesting (Entity.fetchAddress_asks _ _ _)
    (Entity.Near.of_level hlevel hreaches).admits.fetchAddress

theorem call :
    Foretelling made levelOf (assembler.call entity frame) (Encode.assembler.call entity frame)
      fun _ => True :=
  requesting (Entity.call_asks _ _) (Entity.Near.of_level hlevel hreaches).admits.call

theorem fetchClosure :
    Foretelling made levelOf (assembler.fetchClosure entity frame)
      (Encode.assembler.fetchClosure entity frame) fun _ => True :=
  requesting (Entity.fetchClosure_asks _ _)
    (Entity.Near.of_level hlevel hreaches).admits.fetchClosure

end

end Foretelling

/-! ## Trees -/

theorem agrees (made : List TypeDenoter) (levelOf : BindingId → Nat) :
    Assembler.Agrees assembler Encode.assembler (fun _ => Foretelling made levelOf)
      (facts made levelOf) where
  pure := .pure
  bind := .bind
  loadL n := .emit .loadL 0 .cb n
  push n := .emit .push 0 .cb n
  pop n d := .emit .pop n .cb d
  primitive p := .emit .call Register.sb.number .pb p.displacement
  word := .word
  sizeOf hknown := fun _ _ _ hfit hexec => ⟨trivial, (Foretelling.sizeOf hknown hfit hexec).2⟩
  sizeOf? := .sizeOf?
  fieldOffset := .fieldOffset
  entityOf := .entityOf
  bindName hname hlocal := .bindName hname hlocal.level?_eq
  fetch size hlevel hreaches := .fetch hlevel hreaches size _
  store size hlevel hreaches := .store hlevel hreaches size _
  fetchAddress hlevel hreaches := .fetchAddress hlevel hreaches _
  invoke hlevel hname := .bind (.entityOf hname) fun _ hreaches => .call hlevel hreaches
  pass hlevel hname := .bind (.entityOf hname) fun _ hreaches => .fetchClosure hlevel hreaches

theorem controls (made : List TypeDenoter) (levelOf : BindingId → Nat) :
    Assembler.Controls assembler Encode.assembler (Foretelling made levelOf)
      (facts made levelOf) where
  next := .next
  jump op n d := .emit op n .cb d
  patch := .patch
  nests := .nests
  bindRoutine entry hname := by
    refine .bindName hname fun level' hlevel => ?_
    exact (Option.some.inj hlevel).symm

/-- The ideal translation of a tree foretells its encoding. -/
theorem covers (made : List TypeDenoter) (levelOf : BindingId → Nat) :
    Assembler.Covers assembler Encode.assembler (fun _ => Foretelling made levelOf)
      (facts made levelOf) :=
  (agrees made levelOf).covers (controls made levelOf)

end Ideal

end TriangleTam
