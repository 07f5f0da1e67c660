import TriangleTam.Proofs.Coding.Limits

/-! # Keeping pace

  How the encoder fares with one tree is compared with the ideal translation of
  another. The encoder **keeps pace** if it writes no more code than the ideal
  machine, and if it has nothing to report as long as the demands on the ideal
  machine are met. It is given a **lead**: the number of instructions that the
  ideal machine is ahead, which one side may win and the other spend.

  The one thing that the encoder may report nevertheless is that an address is
  no word, and this only in a case `P` that is named in advance.
-/

namespace TriangleTam

/-! ## Tame encoders -/

/-- The demand is met, or it is one that may fail in the case `P`. -/
def Demand.Borne (P : Prop) (demand : Demand) : Prop :=
  demand.Met ∨ P ∧ ∃ n, demand = .word n

theorem Demand.Met.borne {demand : Demand} (h : demand.Met) (P : Prop) : demand.Borne P := .inl h

/-- Nothing was reported but that an address is no word, and this in the case `P`. -/
structure Emitter.Tame (P : Prop) (e : Emitter) : Prop where
  notFull : e.full = false
  reports : e.journal.diagnostics =
    if e.unaddressable then #[.ofRestriction Limit.word.message] else #[]
  cause   : e.unaddressable = true → P

/-- The emitter is tame, and no size is out of range but in the case `P`. -/
structure Encoder.Tame (P : Prop) (s : Encoder) : Prop where
  emitter : s.emitter.Tame P
  cause   : s.outOfRange = true → P

namespace Emitter.Tame

variable {P : Prop} {e : Emitter}

theorem log (h : e.Tame P) {journal : Journal}
    (hjournal : journal.diagnostics = e.journal.diagnostics) :
    Emitter.Tame P { e with journal } :=
  ⟨h.notFull, hjournal.trans h.reports, h.cause⟩

theorem write (h : e.Tame P) (code : Array Instruction) : Emitter.Tame P { e with code } :=
  ⟨h.notFull, h.reports, h.cause⟩

theorem restrictAddress (h : e.Tame P) (hP : P) : e.restrictAddress.Tame P := by
  unfold Emitter.restrictAddress
  by_cases hreported : e.unaddressable = true
  · rwa [if_pos hreported]
  · rw [if_neg hreported]
    refine ⟨h.notFull, ?_, fun _ => hP⟩
    have hnone := h.reports
    rw [if_neg hreported] at hnone
    show e.journal.diagnostics.push (.ofRestriction Limit.word.message) = _
    rw [hnone]
    rfl

/-- Where there is room for it, an instruction with a short operand is appended. -/
theorem emit (h : e.Tame P) (op : OpCode) {n : Int} (r : Register) (d : Int)
    (hn : n ≤ Machine.maxOperandSize) (hroom : e.code.size < Machine.codeStoreSize) :
    (e.emit op n r d).Tame P ∧ (e.emit op n r d).code.size = e.code.size + 1 := by
  have hclamp : e.clampOperand n .operandLength = (n, e) := if_neg (Int.not_lt.2 hn)
  unfold Emitter.emit
  rw [hclamp]
  dsimp only
  rw [if_pos hroom]
  exact ⟨h.write _, Array.size_push ..⟩

theorem displace (h : e.Tame P) (address : Address) (access : Access)
    (hborne : Word.Fits (address.displacement + access.offset) ∨ P) :
    (e.displace address access).2.Tame P ∧ (e.displace address access).2.code = e.code := by
  unfold Emitter.displace
  dsimp only
  by_cases hfits : Word.Fits (address.displacement + access.offset)
  · rw [if_pos hfits]
    exact ⟨h, rfl⟩
  · rw [if_neg hfits]
    exact ⟨h.restrictAddress (hborne.resolve_left hfits), e.code_restrictAddress⟩

/-- A near request that can be borne is served. -/
theorem serve (h : e.Tame P) {request : Request} (hnear : request.Near)
    (hborne : ∀ demand ∈ request.demands, demand.Borne P)
    (hroom : e.code.size + request.code.length ≤ Machine.codeStoreSize) :
    (e.serve request).Tame P ∧ (e.serve request).code.size = e.code.size + request.code.length := by
  -- only a demand for a word can be borne when it is not met
  have hlength {n : Int} (hn : (Demand.length n).Borne P) : n ≤ Machine.maxOperandSize := by
    rcases hn with hmet | ⟨-, n', heq⟩
    · exact hmet
    · cases heq
  cases request with
  | register frame level =>
    have heq : e.serve (.register frame level) = e := Reach.Near.displayRegister_eq hnear e
    rw [heq]
    exact ⟨h, rfl⟩
  | emit op n r d => exact h.emit op r d (hlength (hborne _ List.mem_cons_self)) hroom
  | place op n r address access =>
    obtain ⟨hword, hrest⟩ := List.forall_mem_cons.1 hborne
    -- a displacement that is no word is reported, and this in the case `P`
    have hfits : Word.Fits (address.displacement + access.offset) ∨ P := hword.imp id And.left
    obtain ⟨hdisplaced, hcode⟩ := h.displace address access hfits
    have hroom' : (e.displace address access).2.code.size < Machine.codeStoreSize := by
      rw [hcode]
      exact hroom
    obtain ⟨hemitted, hsize⟩ := hdisplaced.emit op r (e.displace address access).1
      (hlength (hrest _ List.mem_cons_self)) hroom'
    refine ⟨hemitted, hsize.trans ?_⟩
    rw [hcode]
    rfl

theorem serveAll {requests : List Request} (h : e.Tame P)
    (hnear : ∀ request ∈ requests, request.Near)
    (hborne : ∀ demand ∈ requests.flatMap Request.demands, demand.Borne P)
    (hroom : e.code.size + (requests.flatMap Request.code).length ≤ Machine.codeStoreSize) :
    (e.serveAll requests).Tame P ∧
      (e.serveAll requests).code.size = e.code.size + (requests.flatMap Request.code).length := by
  induction requests generalizing e with
  | nil => exact ⟨h, rfl⟩
  | cons request requests ih =>
    obtain ⟨hfirst, hrest⟩ := List.forall_mem_cons.1 hnear
    rw [List.flatMap_cons] at hborne
    obtain ⟨hborne₁, hborne₂⟩ := List.forall_mem_append.1 hborne
    rw [List.flatMap_cons, List.length_append] at hroom ⊢
    obtain ⟨htame, hsize⟩ := h.serve hfirst hborne₁ (by omega)
    obtain ⟨htame', hsize'⟩ := ih htame hrest hborne₂ (by omega)
    exact ⟨htame', by rw [show e.serveAll (request :: requests) =
      (e.serve request).serveAll requests from rfl, hsize', hsize, Nat.add_assoc]⟩

end Emitter.Tame

/-! ## Keeping pace -/

/-- The bindings with numbers below `n` are represented the same. -/
def SameBelow (n : Nat) (entities entities' : List (BindingId × Entity)) : Prop :=
  ∀ id < n, entities'.lookup id = entities.lookup id

namespace SameBelow

variable {n : Nat} {entities entities' entities'' : List (BindingId × Entity)}

theorem refl (n : Nat) (entities : List (BindingId × Entity)) : SameBelow n entities entities :=
  fun _ _ => rfl

theorem trans (h : SameBelow n entities entities') (h' : SameBelow n entities' entities'') :
    SameBelow n entities entities'' :=
  fun id hid => (h' id hid).trans (h id hid)

theorem mono {n' : Nat} (h : SameBelow n' entities entities') (hle : n ≤ n') :
    SameBelow n entities entities' :=
  fun id hid => h id (Nat.lt_of_lt_of_le hid hle)

/-- A binding with another number was represented. -/
theorem cons (h : SameBelow n entities entities') {id : BindingId} (hid : n ≤ id)
    (entity : Entity) : SameBelow n entities ((id, entity) :: entities') := by
  intro id' hlt
  rw [List.lookup_cons]
  have hne : (id' == id) = false := beq_false_of_ne (Nat.ne_of_lt (Nat.lt_of_lt_of_le hlt hid))
  rw [hne]
  exact h id' hlt

end SameBelow

/-- Where an ideal translation and the encoder started, and the number of the first binding made
    since. -/
structure Start where
  ideal   : Unbounded
  encoder : Encoder
  next    : Nat

/-- The encoder kept pace since the start, and the ideal machine is ahead by the lead. Old
    bindings are represented as they were. -/
structure Start.Pace (start : Start) (P : Prop) (lead : Int) (u : Unbounded) (s : Encoder) :
    Prop where
  room    : u.code.length ≤ Machine.codeStoreSize
  code    : s.start + lead ≤ u.code.length
  tame    : s.Tame P
  ideal   : SameBelow start.next start.ideal.entities u.entities
  encoder : SameBelow start.next start.encoder.entities s.entities

namespace Start.Pace

variable {start : Start} {P : Prop} {lead lead' : Int} {u : Unbounded} {s : Encoder}

theorem mono (h : start.Pace P lead u s) (hle : lead' ≤ lead) : start.Pace P lead' u s :=
  ⟨h.room, Int.le_trans (Int.add_le_add_left hle _) h.code, h.tame, h.ideal, h.encoder⟩

/-- From the start on there is pace. -/
theorem restart (h : start.Pace P lead u s) (n : Nat) : Start.Pace ⟨u, s, n⟩ P lead u s :=
  ⟨h.room, h.code, h.tame, .refl _ _, .refl _ _⟩

/-- A later start is on the way. -/
theorem trans (h : start.Pace P lead u s) {n : Nat} (hn : start.next ≤ n) {u' : Unbounded}
    {s' : Encoder} (h' : Start.Pace ⟨u, s, n⟩ P lead' u' s') : start.Pace P lead' u' s' :=
  ⟨h'.room, h'.code, h'.tame, h.ideal.trans (h'.ideal.mono hn),
    h.encoder.trans (h'.encoder.mono hn)⟩

end Start.Pace

namespace Start

variable {start : Start} {P : Prop} {lead lead' : Int} {α β γ δ : Type}

/-- If the demands on the ideal step are met, the encoder keeps pace with it. What both return and
    the lead afterwards satisfy `Q`. -/
def Keeps (start : Start) (P : Prop) (lead : Int) (x : Ideal α) (y : Encode β)
    (Q : α → β → Int → Prop) : Prop :=
  ∀ ⦃u s⦄, start.Pace P lead u s → ∀ ⦃b s'⦄, y.exec s = (.ok b, s') →
    Meets u.code.length (x.run u).2.2 →
      ∃ lead', Q (x.run u).1 b lead' ∧ start.Pace P lead' (x.run u).2.1 s'

/-- The ideal step does its part alone. -/
def Leads (start : Start) (P : Prop) (lead : Int) (x : Ideal α) (Q : α → Int → Prop) : Prop :=
  ∀ ⦃u s⦄, start.Pace P lead u s → Meets u.code.length (x.run u).2.2 →
    ∃ lead', Q (x.run u).1 lead' ∧ start.Pace P lead' (x.run u).2.1 s

/-- The encoder does its part alone. -/
def Follows (start : Start) (P : Prop) (lead : Int) (y : Encode β) (Q : β → Int → Prop) : Prop :=
  ∀ ⦃u s⦄, start.Pace P lead u s → ∀ ⦃b s'⦄, y.exec s = (.ok b, s') →
    ∃ lead', Q b lead' ∧ start.Pace P lead' u s'

variable {x : Ideal α} {y : Encode β}

theorem Keeps.mono {Q R : α → β → Int → Prop} (h : start.Keeps P lead x y Q)
    (hQR : ∀ a b lead', Q a b lead' → R a b lead') : start.Keeps P lead x y R := by
  intro u s hpace b s' hexec hmeets
  obtain ⟨lead', hQ, hpace'⟩ := h hpace hexec hmeets
  exact ⟨lead', hQR _ _ _ hQ, hpace'⟩

theorem Keeps.pure {a : α} {b : β} {Q : α → β → Int → Prop} (h : Q a b lead) :
    start.Keeps P lead (pure a) (pure b) Q := by
  intro u s hpace b' s' hexec _
  obtain ⟨hb, rfl⟩ := Prod.mk.inj hexec
  obtain rfl := Except.ok.inj hb
  exact ⟨lead, h, hpace⟩

theorem Keeps.bind {f : α → Ideal γ} {g : β → Encode δ} {Q : α → β → Int → Prop}
    {R : γ → δ → Int → Prop} (h : start.Keeps P lead x y Q)
    (hf : ∀ a b lead', Q a b lead' → start.Keeps P lead' (f a) (g b) R) :
    start.Keeps P lead (x >>= f) (y >>= g) R := by
  intro u s hpace d s'' hexec hmeets
  obtain ⟨b, s', hfirst, hsecond⟩ := Encode.exec_bind_ok hexec
  obtain ⟨hmeets₁, hmeets₂⟩ := meets_append.1 hmeets
  obtain ⟨lead', hQ, hpace'⟩ := h hpace hfirst hmeets₁
  rw [← x.room u] at hmeets₂
  exact hf _ _ _ hQ hpace' hsecond hmeets₂

theorem Keeps.left {f : α → Ideal γ} {Q : α → Int → Prop} {R : γ → β → Int → Prop}
    (h : start.Leads P lead x Q)
    (hf : ∀ a lead', Q a lead' → start.Keeps P lead' (f a) y R) :
    start.Keeps P lead (x >>= f) y R := by
  intro u s hpace b s' hexec hmeets
  obtain ⟨hmeets₁, hmeets₂⟩ := meets_append.1 hmeets
  obtain ⟨lead', hQ, hpace'⟩ := h hpace hmeets₁
  rw [← x.room u] at hmeets₂
  exact hf _ _ hQ hpace' hexec hmeets₂

theorem Keeps.right {g : β → Encode δ} {Q : β → Int → Prop} {R : α → δ → Int → Prop}
    (h : start.Follows P lead y Q)
    (hg : ∀ b lead', Q b lead' → start.Keeps P lead' x (g b) R) :
    start.Keeps P lead x (y >>= g) R := by
  intro u s hpace d s'' hexec hmeets
  obtain ⟨b, s', hfirst, hsecond⟩ := Encode.exec_bind_ok hexec
  obtain ⟨lead', hQ, hpace'⟩ := h hpace hfirst
  exact hg _ _ hQ hpace' hsecond hmeets

theorem Leads.bind {f : α → Ideal γ} {Q : α → Int → Prop} {R : γ → Int → Prop}
    (h : start.Leads P lead x Q) (hf : ∀ a lead', Q a lead' → start.Leads P lead' (f a) R) :
    start.Leads P lead (x >>= f) R := by
  intro u s hpace hmeets
  obtain ⟨hmeets₁, hmeets₂⟩ := meets_append.1 hmeets
  obtain ⟨lead', hQ, hpace'⟩ := h hpace hmeets₁
  rw [← x.room u] at hmeets₂
  exact hf _ _ hQ hpace' hmeets₂

theorem Leads.pure {a : α} {Q : α → Int → Prop} (h : Q a lead) :
    start.Leads P lead (pure a) Q :=
  fun _ _ hpace _ => ⟨lead, h, hpace⟩

/-- Less of a lead. -/
theorem Keeps.weaken {Q : α → β → Int → Prop} (h : start.Keeps P lead x y fun a b after =>
      ∃ least, least ≤ after ∧ Q a b least) : start.Keeps P lead x y Q := by
  intro u s hpace b s' hexec hmeets
  obtain ⟨after, ⟨least, hle, hQ⟩, hpace'⟩ := h hpace hexec hmeets
  exact ⟨least, hQ, hpace'.mono hle⟩

theorem Leads.mono {Q R : α → Int → Prop} (h : start.Leads P lead x Q)
    (hQR : ∀ a after, Q a after → R a after) : start.Leads P lead x R := by
  intro u s hpace hmeets
  obtain ⟨after, hQ, hpace'⟩ := h hpace hmeets
  exact ⟨after, hQR _ _ hQ, hpace'⟩

/-! ### Code -/

/-- The instructions that are asked for are written, if there are no more than the lead allows. -/
theorem Follows.requesting {act : Emitter → Except NotApplicable Emitter}
    {requests : Option (List Request)} (hasks : Entity.Asks act requests)
    (hnear : ∀ {made}, requests = some made → ∀ request ∈ made, request.Near)
    (hborne : ∀ {made}, requests = some made →
      ∀ demand ∈ made.flatMap Request.demands, demand.Borne P)
    (hlead : ∀ {made}, requests = some made →
      0 ≤ lead' ∧ lead' + (made.flatMap Request.code).length ≤ lead) :
    start.Follows P lead (Encode.requesting act) fun _ after => after = lead' := by
  intro u s hpace b s' hexec
  obtain ⟨e, hact, rfl⟩ := Encode.requesting_ok hexec
  obtain ⟨made, hmade, rfl⟩ := hasks _ _ hact
  obtain ⟨hle, hlead⟩ := hlead hmade
  have hcode := hpace.code
  have hroom := hpace.room
  have hstart : s.start = s.emitter.code.size := rfl
  obtain ⟨htame, hsize⟩ :=
    hpace.tame.emitter.serveAll (hnear hmade) (hborne hmade) (by omega)
  refine ⟨lead', rfl, hpace.room, ?_, ⟨htame, hpace.tame.cause⟩, hpace.ideal, hpace.encoder⟩
  show ((s.emitter.serveAll made).code.size : Int) + lead' ≤ u.code.length
  omega

/-- The ideal machine wins what it writes alone. -/
theorem Leads.serve (requests : List Request) :
    start.Leads P lead (Ideal.serve requests) fun _ after =>
      (∀ demand ∈ requests.flatMap Request.demands, demand.Met) ∧
        after = lead + (requests.flatMap Request.code).length := by
  intro u s hpace hmeets
  have hroom := hmeets.room
  have hlength := (Ideal.serve requests).room u
  refine ⟨_, ⟨hmeets.met, rfl⟩, by omega, ?_, hpace.tame, hpace.ideal, hpace.encoder⟩
  show (s.start : Int) + (lead + (requests.flatMap Request.code).length) ≤
    ((u.code ++ requests.flatMap Request.code).length : Nat)
  have hcode := hpace.code
  rw [List.length_append]
  omega

/-- Both write what entities ask for. -/
theorem Keeps.requesting {act : Emitter → Except NotApplicable Emitter}
    {requests requests' : Option (List Request)} (hasks : Entity.Asks act requests')
    (hnear : ∀ {made}, requests' = some made → ∀ request ∈ made, request.Near)
    (hborne : ∀ {made}, requests' = some made →
      (∀ demand ∈ (requests.getD []).flatMap Request.demands, demand.Met) →
        ∀ demand ∈ made.flatMap Request.demands, demand.Borne P)
    (hlead : ∀ {made}, requests' = some made → 0 ≤ lead' ∧
      lead' + (made.flatMap Request.code).length ≤
        lead + ((requests.getD []).flatMap Request.code).length) :
    start.Keeps P lead (Ideal.serve (requests.getD [])) (Encode.requesting act)
      fun _ _ after => after = lead' := by
  intro u s hpace b s' hexec hmeets
  obtain ⟨_, ⟨hmet, rfl⟩, hpace'⟩ := Leads.serve (requests.getD []) hpace hmeets
  exact Follows.requesting hasks hnear (fun hmade => hborne hmade hmet) hlead hpace' hexec

end Start

/-! ## Matching steps -/

namespace Start

/-- Whatever the lead, the encoder keeps pace with the ideal step and the lead stays. What both
    return is related. -/
structure Matches (start : Start) (P : Prop) {α β : Type} (x : Ideal α) (y : Encode β)
    (R : α → β → Prop) : Prop where
  keeps : ∀ lead, 0 ≤ lead → start.Keeps P lead x y fun a b after => after = lead ∧ R a b

namespace Matches

variable {start : Start} {P : Prop} {α β γ δ : Type} {x : Ideal α} {y : Encode β}
  {f : α → Ideal γ} {g : β → Encode δ} {R : α → β → Prop} {R' : γ → δ → Prop}

theorem mono {S : α → β → Prop} (h : start.Matches P x y R) (hRS : ∀ a b, R a b → S a b) :
    start.Matches P x y S :=
  ⟨fun lead hlead => (h.keeps lead hlead).mono fun _ _ _ hQ => ⟨hQ.1, hRS _ _ hQ.2⟩⟩

theorem pure {a : α} {b : β} (h : R a b) : start.Matches P (pure a) (pure b) R :=
  ⟨fun _ _ => .pure ⟨rfl, h⟩⟩

theorem bind (h : start.Matches P x y R)
    (hf : ∀ a b, R a b → start.Matches P (f a) (g b) R') :
    start.Matches P (x >>= f) (y >>= g) R' := by
  constructor
  intro lead hlead
  refine (h.keeps lead hlead).bind fun a b after hQ => ?_
  obtain ⟨rfl, hR⟩ := hQ
  exact (hf a b hR).keeps after hlead

/-- Before steps that keep pace. -/
theorem before (h : start.Matches P x y R) {lead : Int} (hlead : 0 ≤ lead)
    {Q : γ → δ → Int → Prop} (hf : ∀ a b, R a b → start.Keeps P lead (f a) (g b) Q) :
    start.Keeps P lead (x >>= f) (y >>= g) Q := by
  refine (h.keeps lead hlead).bind fun a b after hQ => ?_
  obtain ⟨rfl, hR⟩ := hQ
  exact hf a b hR

/-! ### Code -/

/-- Both write an instruction with the same length operand. -/
theorem emit (op op' : OpCode) (n : Int) (r r' : Register) (d d' : Int) :
    start.Matches P (Ideal.assembler.emit op n r d) (Encode.assembler.emit op' n r' d')
      fun _ _ => True := by
  constructor
  intro lead hlead
  have hasks : Entity.Asks (fun e => .ok (e.emit op' n r' d')) (some [.emit op' n r' d']) := by
    intro e e' heq
    obtain rfl := Except.ok.inj heq
    exact ⟨_, rfl, rfl⟩
  have hkeeps : start.Keeps P lead (Ideal.serve ((some [Request.emit op n r d]).getD []))
      (Encode.requesting fun e => .ok (e.emit op' n r' d')) fun _ _ after => after = lead := by
    refine Keeps.requesting hasks (fun hmade => ?_) (fun hmade hmet demand hmem => ?_)
      fun hmade => ?_
    · obtain rfl := Option.some.inj hmade
      simp [Request.Near]
    · obtain rfl := Option.some.inj hmade
      exact (hmet demand hmem).borne P
    · obtain rfl := Option.some.inj hmade
      exact ⟨hlead, Int.le_refl _⟩
  exact hkeeps.mono fun _ _ _ heq => ⟨heq, trivial⟩

theorem next : start.Matches P Ideal.assembler.next Encode.assembler.next fun _ _ => True := by
  constructor
  intro lead _ u s hpace b s' hexec _
  obtain ⟨-, rfl⟩ := Prod.mk.inj hexec
  exact ⟨lead, ⟨rfl, trivial⟩, hpace⟩

theorem patch (address address' : Int) :
    start.Matches P (Ideal.assembler.patch address) (Encode.assembler.patch address')
      fun _ _ => True := by
  constructor
  intro lead _ u s hpace b s' hexec _
  obtain ⟨-, rfl⟩ := Prod.mk.inj hexec
  refine ⟨lead, ⟨rfl, trivial⟩, ?_⟩
  -- a patch changes an instruction on either side, and the length of neither code
  have hlength := (Ideal.patch address).room u
  have hsize : (s.emitter.patch address').code.size = s.emitter.code.size := by
    unfold Emitter.patch
    split
    · rfl
    · exact Array.size_modify
  have htame : (s.emitter.patch address').Tame P := by
    unfold Emitter.patch
    split
    · exact hpace.tame.emitter
    · exact hpace.tame.emitter.write _
  have hentities : ((Ideal.patch address).run u).2.1.entities = u.entities := by
    dsimp only [Ideal.patch]
    split <;> rfl
  refine ⟨?_, ?_, ⟨htame, hpace.tame.cause⟩, ?_, hpace.encoder⟩
  · exact Nat.le_trans (Nat.le_of_eq hlength) hpace.room
  · have hcode := hpace.code
    show ((s.emitter.patch address').code.size : Int) + lead ≤
      (((Ideal.patch address).run u).2.1.code.length : Nat)
    rw [hsize, hlength]
    exact hcode
  · show SameBelow start.next start.ideal.entities ((Ideal.patch address).run u).2.1.entities
    rw [hentities]
    exact hpace.ideal

theorem emitForward (op op' : OpCode) (n : Int) :
    start.Matches P (Ideal.assembler.emitForward op n) (Encode.assembler.emitForward op' n)
      fun _ _ => True :=
  next.bind fun _ _ _ => (emit ..).bind fun _ _ _ => .pure trivial

/-! ### Sizes -/

/-- Sizes were asked for, and what is so of them is so now. -/
theorem of_measured {demands : List Demand} {a : α} (hx : ∀ u, x.run u = (a, u, demands))
    (hy : ∀ {s b s'}, y.exec s = (.ok b, s') → (∀ demand ∈ demands, demand.Met) →
      R a b ∧ s.Measured s' ∧ (s.Tame P → s'.outOfRange = true → P)) :
    start.Matches P x y R := by
  constructor
  intro lead _ u s hpace b s' hexec hmeets
  rw [hx] at hmeets ⊢
  obtain ⟨hR, hmeasured, hcause⟩ := hy hexec hmeets.met
  refine ⟨lead, ⟨rfl, hR⟩, hpace.room, ?_, ⟨⟨?_, ?_, ?_⟩, hcause hpace.tame⟩, hpace.ideal, ?_⟩
  · show (s'.emitter.code.size : Int) + lead ≤ u.code.length
    rw [hmeasured.code]
    exact hpace.code
  · exact hmeasured.full.trans hpace.tame.emitter.notFull
  · rw [hmeasured.diagnostics, hmeasured.addressable]
    exact hpace.tame.emitter.reports
  · rw [hmeasured.addressable]
    exact hpace.tame.emitter.cause
  · rw [hmeasured.entities]
    exact hpace.encoder

/-- Where the ideal machine has a word, the encoder has one too, but for the case `P`. -/
theorem word_or {n n' : Int} (hfits : Word.Fits n → Word.Fits n' ∨ P) :
    start.Matches P (Ideal.assembler.word n) (Encode.assembler.word n')
      fun a b => a = n ∧ Word.Fits n ∧ (Word.Fits n' → b = n') := by
  refine of_measured (fun _ => rfl) fun hexec hmet => ?_
  have hn : Word.Fits n := hmet _ List.mem_cons_self
  obtain ⟨rfl, hmeasured⟩ := Encode.word_measured hexec
  obtain ⟨-, rfl⟩ := Prod.mk.inj ((Encode.word_exec n' _).symm.trans hexec)
  refine ⟨⟨rfl, hn, Word.clamp_of_fits⟩, hmeasured, fun htame hrange => ?_⟩
  rcases hfits hn with hfits' | hP
  · rw [decide_eq_true hfits', Bool.not_true, Bool.or_false] at hrange
    exact htame.cause hrange
  · exact hP

theorem word {n n' : Int} (hfits : Word.Fits n → Word.Fits n') :
    start.Matches P (Ideal.assembler.word n) (Encode.assembler.word n')
      fun a b => a = n ∧ b = n' ∧ Word.Fits n :=
  (word_or fun hn => .inl (hfits hn)).mono fun _ _ ⟨ha, hn, hb⟩ => ⟨ha, hb (hfits hn), hn⟩

/-- The frames with more words. -/
theorem grow {frame frame' : Frame} {n n' : Int}
    (hfits : Word.Fits (frame.size + n) → Word.Fits (frame'.size + n')) :
    start.Matches P (Ideal.assembler.grow frame n) (Encode.assembler.grow frame' n')
      fun a b => a = frame.replace (frame.size + n) ∧ b = frame'.replace (frame'.size + n') ∧
        Word.Fits (frame.size + n) :=
  (word hfits).bind fun _ _ ⟨ha, hb, hn⟩ => .pure ⟨by rw [ha], by rw [hb], hn⟩

/-- The size of a type is its width. -/
theorem sizeOf (type : TypeDenoter) :
    start.Matches P (Ideal.assembler.sizeOf type) (Encode.assembler.sizeOf type)
      fun a b => a = type.width ∧ b = type.width ∧ type.Exact := by
  refine of_measured (fun _ => rfl) fun {s b s'} hexec hmet => ?_
  have hexact : type.Exact := by
    rw [TypeDenoter.exact_iff]
    exact fun n hn => hmet _ (List.mem_map_of_mem hn)
  obtain ⟨rfl, hmeasured⟩ := Encode.sizeOf_measured hexec
  obtain ⟨journal, -, hexec'⟩ := Encode.sizeOf_exec type s
  obtain ⟨-, rfl⟩ := Prod.mk.inj (hexec'.symm.trans hexec)
  refine ⟨⟨rfl, hexact.size_eq, hexact⟩, hmeasured, fun htame hrange => ?_⟩
  have hlaid : (type.layOut { layouts := s.layouts }).outOfRange = false :=
    hexact.layOut_outOfRange _
  rw [hlaid, Bool.or_false] at hrange
  exact htame.cause hrange

theorem sizeOf? (type : TypeDenoter) (span span' : Span) :
    start.Matches P (Ideal.assembler.sizeOf? (some type) span)
      (Encode.assembler.sizeOf? (some type) span')
      fun a b => a = type.width ∧ b = type.width ∧ type.Exact :=
  sizeOf type

/-- The offset of a field is its position. -/
theorem fieldOffset {record record' : Vname} {type : TypeDenoter} {field : Name} {position : Int}
    (htype : record.type = some type) (htype' : record'.type = some type)
    (hposition : type.position? field.spelling = some position) :
    start.Matches P (Ideal.assembler.fieldOffset record field)
      (Encode.assembler.fieldOffset record' field) fun a b => a = position ∧ b = position := by
  unfold Ideal.assembler Encode.assembler
  dsimp only
  unfold Ideal.fieldOffset Encode.fieldOffset
  simp only [htype, htype']
  refine (sizeOf type).bind fun _ _ hsize => ?_
  rw [hsize.2.2.fieldOffset?_eq, hposition]
  simp only [Option.bind_some, hposition]
  exact .pure ⟨rfl, rfl⟩

/-- A length that one instruction moves is not cut. -/
theorem length (n : Int) (limit : Limit) :
    start.Matches P (Ideal.length n) (Encode.clampOperand n limit)
      fun a b => a = n ∧ b = n ∧ n ≤ Machine.maxOperandSize := by
  refine of_measured (fun _ => rfl) fun {s b s'} hexec hmet => ?_
  have hn : n ≤ Machine.maxOperandSize := hmet _ List.mem_cons_self
  have hclamp : s.emitter.clampOperand n limit = (n, s.emitter) := if_neg (Int.not_lt.2 hn)
  rw [Encode.clampOperand_exec, hclamp] at hexec
  obtain ⟨hb, rfl⟩ := Prod.mk.inj hexec
  exact ⟨⟨rfl, (Except.ok.inj hb).symm, hn⟩, ⟨rfl, rfl, rfl, rfl, rfl⟩, fun htame => htame.cause⟩

/-! ### Routines and control -/

/-- Where the ideal machine may nest a routine, so may the encoder. -/
theorem nests (level : Nat) :
    start.Matches P (Ideal.assembler.nests level) (Encode.assembler.nests level)
      fun a b => a = true ∧ b = true ∧ level < Machine.maxRoutineLevel := by
  refine of_measured (fun _ => rfl) fun {s b s'} hexec hmet => ?_
  have hlevel : level < Machine.maxRoutineLevel := hmet _ List.mem_cons_self
  unfold Encode.assembler at hexec
  dsimp only at hexec
  rw [if_neg (Nat.not_le.2 hlevel)] at hexec
  obtain ⟨hb, rfl⟩ := Prod.mk.inj hexec
  obtain rfl := Except.ok.inj hb
  exact ⟨⟨rfl, rfl, hlevel⟩, ⟨rfl, rfl, rfl, rfl, rfl⟩, fun htame => htame.cause⟩

/-- A new binding is represented. -/
theorem represent {name : Name} {id : BindingId} (hname : name.binding = some id)
    (hnew : start.next ≤ id) (entity entity' : Entity) :
    start.Matches P (Ideal.assembler.bind name entity) (Encode.assembler.bind name entity')
      fun _ _ => True := by
  constructor
  intro lead _ u s hpace b s' hexec _
  obtain ⟨id', journal, hid, hdiagnostics, rfl⟩ := Encode.bind_ok hexec
  obtain rfl := Option.some.inj (hname.symm.trans hid)
  have hrun : (Ideal.assembler.bind name entity).run u =
      ((), { u with entities := (id, entity) :: u.entities }, []) := by
    dsimp only [Ideal.assembler, Ideal.represent]
    rw [hname]
  rw [hrun]
  exact ⟨lead, ⟨rfl, trivial⟩, hpace.room, hpace.code,
    ⟨hpace.tame.emitter.log hdiagnostics, hpace.tame.cause⟩, hpace.ideal.cons hnew entity,
    hpace.encoder.cons hnew entity'⟩

section

variable {ε ζ : Type} {x₂ : Ideal γ} {y₂ : Encode δ} {x₃ : Ideal ε} {y₃ : Encode ζ}
  {R₂ : γ → δ → Prop} {R₃ : ε → ζ → Prop}

theorem branch (h₁ : start.Matches P x y R) (h₂ : start.Matches P x₂ y₂ R₂)
    (h₃ : start.Matches P x₃ y₃ R₃) :
    start.Matches P (Ideal.assembler.branch x x₂ x₃) (Encode.assembler.branch y y₂ y₃) R₃ :=
  h₁.bind fun _ _ _ => (emitForward ..).bind fun _ _ _ => h₂.bind fun _ _ _ =>
    (emitForward ..).bind fun _ _ _ => (patch ..).bind fun _ _ _ => h₃.bind fun _ _ hresult =>
    (patch ..).bind fun _ _ _ => .pure hresult

theorem whileDo (h₁ : start.Matches P x y R) (h₂ : start.Matches P x₂ y₂ R₂) :
    start.Matches P (Ideal.assembler.whileDo x x₂) (Encode.assembler.whileDo y y₂)
      fun _ _ => True :=
  (emitForward ..).bind fun _ _ _ => next.bind fun _ _ _ => h₂.bind fun _ _ _ =>
    (patch ..).bind fun _ _ _ => h₁.bind fun _ _ _ => emit ..

theorem repeatUntil (h₁ : start.Matches P x y R) (h₂ : start.Matches P x₂ y₂ R₂) :
    start.Matches P (Ideal.assembler.repeatUntil x x₂) (Encode.assembler.repeatUntil y y₂)
      fun _ _ => True :=
  next.bind fun _ _ _ => h₁.bind fun _ _ _ => h₂.bind fun _ _ _ => emit ..

theorem loopWhile (h₁ : start.Matches P x y R) (h₂ : start.Matches P x₂ y₂ R₂)
    (h₃ : start.Matches P x₃ y₃ R₃) :
    start.Matches P (Ideal.assembler.loopWhile x x₂ x₃) (Encode.assembler.loopWhile y y₂ y₃)
      fun _ _ => True :=
  next.bind fun _ _ _ => h₁.bind fun _ _ _ => h₂.bind fun _ _ _ =>
    (emitForward ..).bind fun _ _ _ => h₃.bind fun _ _ _ => (emit ..).bind fun _ _ _ => patch ..

end

end Matches

/-! ## Steps of one side -/

section

variable {start : Start} {P : Prop} {α β γ δ : Type} {lead : Int}

/-- Steps that represent nothing lose no lead. -/
theorem Leads.of_entities {x : Ideal α} {R : α → Prop}
    (hentities : ∀ u, (x.run u).2.1.entities = u.entities) (hR : ∀ u, R (x.run u).1) :
    start.Leads P lead x fun a after => after = lead ∧ R a := by
  intro u s hpace hmeets
  have hroom := hmeets.room
  have hlength := x.room u
  have hcode := hpace.code
  refine ⟨lead, ⟨rfl, hR u⟩, by omega, by omega, hpace.tame, ?_, hpace.encoder⟩
  rw [hentities]
  exact hpace.ideal

/-- The ideal machine needs a word. -/
theorem Leads.word (n : Int) :
    start.Leads P lead (Ideal.assembler.word n) fun a after =>
      after = lead ∧ a = n ∧ Word.Fits n := by
  intro u s hpace hmeets
  exact ⟨lead, ⟨rfl, rfl, hmeets.met _ List.mem_cons_self⟩, hpace⟩

theorem Leads.grow (frame : Frame) (n : Int) :
    start.Leads P lead (Ideal.assembler.grow frame n) fun a after =>
      after = lead ∧ a = frame.replace (frame.size + n) ∧ Word.Fits (frame.size + n) :=
  (Leads.word (frame.size + n)).bind fun _ _ ⟨hafter, ha, hfits⟩ =>
    .pure ⟨hafter, by rw [ha], hfits⟩

/-- The ideal machine wins an instruction. -/
theorem Leads.emit (op : OpCode) (n : Int) (r : Register) (d : Int) :
    start.Leads P lead (Ideal.assembler.emit op n r d) fun _ after => after = lead + 1 := by
  intro u s hpace hmeets
  obtain ⟨after, ⟨-, hafter⟩, hpace'⟩ := Leads.serve [.emit op n r d] hpace hmeets
  exact ⟨after, hafter, hpace'⟩

/-- The encoder needs a word, but for the case `P`. -/
theorem Follows.word_or {n : Int} (hfits : Word.Fits n ∨ P) :
    start.Follows P lead (Encode.assembler.word n) fun b after =>
      after = lead ∧ (Word.Fits n → b = n) := by
  intro u s hpace b s' hexec
  obtain ⟨hb, rfl⟩ := Prod.mk.inj ((Encode.word_exec n s).symm.trans hexec)
  obtain rfl := Except.ok.inj hb
  refine ⟨lead, ⟨rfl, Word.clamp_of_fits⟩, hpace.room, hpace.code, ⟨hpace.tame.emitter, ?_⟩,
    hpace.ideal, hpace.encoder⟩
  intro hrange
  rcases hfits with hfits | hP
  · simp only [hfits, decide_true, Bool.not_true, Bool.or_false] at hrange
    exact hpace.tame.cause hrange
  · exact hP

/-- The encoder asks for the size of an exact type. -/
theorem Follows.sizeOf? {type : TypeDenoter} (span : Span) (hexact : type.Exact) :
    start.Follows P lead (Encode.assembler.sizeOf? (some type) span)
      fun b after => after = lead ∧ b = type.width := by
  intro u s hpace b s' hexec
  obtain ⟨hb, hmeasured⟩ := Encode.sizeOf_measured hexec
  obtain ⟨journal, hjournal, hexec'⟩ := Encode.sizeOf_exec type s
  obtain ⟨-, rfl⟩ := Prod.mk.inj (hexec'.symm.trans hexec)
  have hlaid : (type.layOut { layouts := s.layouts }).outOfRange = false :=
    hexact.layOut_outOfRange _
  refine ⟨lead, ⟨rfl, hb.trans hexact.size_eq⟩, hpace.room, hpace.code,
    ⟨hpace.tame.emitter.log hjournal, fun hrange => ?_⟩, hpace.ideal, hpace.encoder⟩
  rw [hlaid, Bool.or_false] at hrange
  exact hpace.tame.cause hrange

/-- The encoder spends one instruction. -/
theorem Follows.emit (op : OpCode) {n : Int} (r : Register) (d : Int)
    (hn : n ≤ Machine.maxOperandSize) (hlead : 0 ≤ lead) :
    start.Follows P (lead + 1) (Encode.assembler.emit op n r d) fun _ after => after = lead := by
  intro u s hpace b s' hexec
  obtain ⟨-, rfl⟩ := Prod.mk.inj hexec
  have hcode := hpace.code
  have hroom := hpace.room
  have hstart : s.start = s.emitter.code.size := rfl
  obtain ⟨htame, hsize⟩ := hpace.tame.emitter.emit op r d hn (by omega)
  refine ⟨lead, rfl, hpace.room, ?_, ⟨htame, hpace.tame.cause⟩, hpace.ideal, hpace.encoder⟩
  show ((s.emitter.emit op n r d).code.size : Int) + lead ≤ u.code.length
  omega

/-- Steps of the ideal machine, where the encoder does nothing. -/
theorem Leads.keeps {x : Ideal α} {b : β} {Q : α → Int → Prop} {R : α → β → Int → Prop}
    (h : start.Leads P lead x Q) (hR : ∀ a after, Q a after → R a b after) :
    start.Keeps P lead x (Pure.pure b) R := by
  intro u s hpace b' s' hexec hmeets
  obtain ⟨hb, rfl⟩ := Prod.mk.inj hexec
  obtain rfl := Except.ok.inj hb
  obtain ⟨after, hQ, hpace'⟩ := h hpace hmeets
  exact ⟨after, hR _ _ hQ, hpace'⟩

/-- A lead that is too large does no harm. -/
theorem Keeps.of_lead {x : Ideal α} {y : Encode β} {R : α → β → Prop}
    (h : start.Keeps P lead x y fun a b after => lead ≤ after ∧ R a b) :
    start.Keeps P lead x y fun a b after => after = lead ∧ R a b := by
  intro u s hpace b s' hexec hmeets
  obtain ⟨after, ⟨hle, hR⟩, hpace'⟩ := h hpace hexec hmeets
  exact ⟨lead, ⟨rfl, hR⟩, hpace'.mono hle⟩

end

/-! ## Scopes -/

/-- From the start on the encoder keeps pace with the ideal step. The results and the states
    afterwards satisfy `K`. -/
structure Opens (start : Start) (P : Prop) {α β : Type} (x : Ideal α) (y : Encode β)
    (K : α → β → Unbounded → Encoder → Prop) : Prop where
  opens : ∀ ⦃lead⦄, 0 ≤ lead → start.Pace P lead start.ideal start.encoder → ∀ ⦃b s'⦄,
    y.exec start.encoder = (.ok b, s') → Meets start.ideal.code.length (x.run start.ideal).2.2 →
      start.Pace P lead (x.run start.ideal).2.1 s' ∧
        K (x.run start.ideal).1 b (x.run start.ideal).2.1 s'

section

variable {start : Start} {P : Prop} {α β γ δ : Type} {x : Ideal α} {y : Encode β}
  {f : α → Ideal γ} {g : β → Encode δ} {K : α → β → Unbounded → Encoder → Prop}
  {K' : γ → δ → Unbounded → Encoder → Prop} {R : α → β → Prop} {R' : γ → δ → Prop}

theorem Opens.mono {L : α → β → Unbounded → Encoder → Prop} (h : start.Opens P x y K)
    (hKL : ∀ a b u s, K a b u s → L a b u s) : start.Opens P x y L := by
  constructor
  intro lead hlead hpace b s' hexec hmeets
  obtain ⟨hpace', hK⟩ := h.opens hlead hpace hexec hmeets
  exact ⟨hpace', hKL _ _ _ _ hK⟩

/-- What was represented before the start still is. -/
theorem Opens.kept (h : start.Opens P x y K) :
    start.Opens P x y fun a b u s => K a b u s ∧
      SameBelow start.next start.ideal.entities u.entities ∧
      SameBelow start.next start.encoder.entities s.entities := by
  constructor
  intro lead hlead hpace b s' hexec hmeets
  obtain ⟨hpace', hK⟩ := h.opens hlead hpace hexec hmeets
  exact ⟨hpace', hK, hpace'.ideal, hpace'.encoder⟩

/-- One step after the other, the second from where the first leads to. -/
theorem Opens.bind (h : start.Opens P x y K) {n : Nat} (hn : start.next ≤ n)
    (hf : ∀ a b u s, K a b u s → SameBelow start.next start.ideal.entities u.entities →
      SameBelow start.next start.encoder.entities s.entities →
      Opens ⟨u, s, n⟩ P (f a) (g b) K') : start.Opens P (x >>= f) (y >>= g) K' := by
  constructor
  intro lead hlead hpace d s'' hexec hmeets
  obtain ⟨b, s', hfirst, hsecond⟩ := Encode.exec_bind_ok hexec
  obtain ⟨hmeets₁, hmeets₂⟩ := meets_append.1 hmeets
  obtain ⟨hpace', hK⟩ := h.opens hlead hpace hfirst hmeets₁
  rw [← x.room start.ideal] at hmeets₂
  obtain ⟨hpace'', hK'⟩ := (hf _ _ _ _ hK hpace'.ideal hpace'.encoder).opens hlead
    (hpace'.restart n) hsecond hmeets₂
  exact ⟨hpace'.trans hn hpace'', hK'⟩

/-- Steps that match, from where the ones before led to. -/
theorem Matches.opens (h : start.Matches P x y R) :
    start.Opens P x y fun a b u s => R a b ∧
      SameBelow start.next start.ideal.entities u.entities ∧
      SameBelow start.next start.encoder.entities s.entities := by
  constructor
  intro lead hlead hpace b s' hexec hmeets
  obtain ⟨_, ⟨rfl, hR⟩, hpace'⟩ := h.keeps lead hlead hpace hexec hmeets
  exact ⟨hpace', hR, hpace'.ideal, hpace'.encoder⟩

/-- What opens a scope, wherever it is come to, and what matches inside. -/
theorem Matches.of_opens (h : ∀ u s, SameBelow start.next start.ideal.entities u.entities →
      SameBelow start.next start.encoder.entities s.entities →
      Opens ⟨u, s, start.next⟩ P x y fun a b _ _ => R a b) : start.Matches P x y R := by
  constructor
  intro lead hlead u s hpace b s' hexec hmeets
  obtain ⟨hpace', hR⟩ := (h u s hpace.ideal hpace.encoder).opens hlead (hpace.restart _) hexec
    hmeets
  exact ⟨lead, ⟨rfl, hR⟩, hpace.trans (Nat.le_refl _) hpace'⟩

/-- A binding is represented on both sides. -/
theorem Opens.represent {name : Name} {id : BindingId} (hname : name.binding = some id)
    (hnew : start.next ≤ id) (entity entity' : Entity) :
    start.Opens P (Ideal.assembler.bind name entity) (Encode.assembler.bind name entity')
      fun _ _ u s => u.entities = (id, entity) :: start.ideal.entities ∧
        s.entities = (id, entity') :: start.encoder.entities := by
  constructor
  intro lead hlead hpace b s' hexec hmeets
  obtain ⟨_, ⟨rfl, -⟩, hpace'⟩ :=
    (Matches.represent hname hnew entity entity').keeps lead hlead hpace hexec hmeets
  obtain ⟨id', journal, hid, -, rfl⟩ := Encode.bind_ok hexec
  obtain rfl := Option.some.inj (hname.symm.trans hid)
  refine ⟨hpace', ?_, rfl⟩
  dsimp only [Ideal.assembler, Ideal.represent]
  rw [hname]

end

end Start

end TriangleTam
