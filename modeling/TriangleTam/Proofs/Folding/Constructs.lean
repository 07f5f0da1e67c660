import TriangleTam.Proofs.Folding.Subscripts

/-! # Constructs of a folded program

  Construct by construct: if the encoder keeps pace on the parts of a folded
  phrase with the ideal translation of the parts before folding, then it keeps
  pace on the phrase. Sizes are the same on both sides, but for the storage of
  a declaration, which may be less.
-/

namespace TriangleTam

/-! ## Settings -/

/-- Where a phrase and its folded form are translated: in frames of one routine, the encoder's
    not larger, with all that is in scope represented. Bindings from `n` on are new. -/
structure Setting (Γ : Env) (n : Nat) (start : Start) (frame frame' : Frame) : Prop where
  next   : start.next ≤ n
  below  : Γ.Below start.next
  level  : frame.level ≤ Machine.maxRoutineLevel
  size   : frame.size ≤ Word.greatest
  under  : frame.Under frame'
  staged : Γ.Staged frame start.ideal.entities start.encoder.entities

namespace Setting

variable {Γ : Env} {n n' : Nat} {start : Start} {frame frame' : Frame}

theorem later (h : Setting Γ n start frame frame') (hn : n ≤ n') :
    Setting Γ n' start frame frame' :=
  ⟨Nat.le_trans h.next hn, h.below, h.level, h.size, h.under, h.staged⟩

/-- The bound of storage in scope. -/
theorem bound_eq (h : Setting Γ n start frame frame') :
    max Word.greatest frame.size = Word.greatest := max_eq_left h.size

/-- With more words on the stack, not more for the encoder than for the ideal machine. -/
theorem grow (h : Setting Γ n start frame frame') {a b : Int} (hb : 0 ≤ b) (hle : b ≤ a)
    (hfits : Word.Fits (frame.size + a)) :
    Setting Γ n start (frame.replace (frame.size + a)) (frame'.replace (frame'.size + b)) := by
  have hlower := h.under.lower
  have hupper := h.under.upper
  refine ⟨h.next, h.below, h.level, hfits.2, ⟨h.under.level, ?_, ?_⟩,
    h.staged.mono (Nat.le_refl _) ?_⟩
  · show 0 ≤ frame'.size + b
    omega
  · show frame'.size + b ≤ frame.size + a
    omega
  · rw [h.bound_eq]
    exact le_max_left _ _

/-- The larger frame of the ideal machine fits, so does that of the encoder. -/
theorem fits (h : Setting Γ n start frame frame') {a b : Int} (hb : 0 ≤ b) (hle : b ≤ a)
    (hfits : Word.Fits (frame.size + a)) : Word.Fits (frame'.size + b) := by
  have hlower := h.under.lower
  have hupper := h.under.upper
  obtain ⟨-, hgreatest⟩ := hfits
  show Word.least ≤ _ ∧ _ ≤ Word.greatest
  unfold Word.least
  omega

/-- Where the translations came to in the meantime. -/
theorem restart (h : Setting Γ n start frame frame') {u : Unbounded} {s : Encoder}
    (hideal : SameBelow start.next start.ideal.entities u.entities)
    (hencoder : SameBelow start.next start.encoder.entities s.entities) :
    Setting Γ n ⟨u, s, start.next⟩ frame frame' :=
  ⟨h.next, h.below, h.level, h.size, h.under, h.staged.later h.below hideal hencoder⟩

theorem enclose (h : Setting Γ n start frame frame') : Setting Γ.enclose n start frame frame' :=
  ⟨h.next, h.below.enclose, h.level, h.size, h.under, h.staged.enclose⟩

/-- A name in scope stands for an entity, and the encoder has an easier one. -/
theorem entityOf (h : Setting Γ n start frame frame') {P : Prop} {name : Name} {id : BindingId}
    {kind : BindingKind} (hname : name.binding = some id)
    {spelling : String} (hfind : Γ.find? spelling = some (id, kind)) (hlives : kind.Lives) :
    start.Matches P (Ideal.assembler.entityOf name) (Encode.assembler.entityOf name)
      fun entity entity' => entity.Eases frame.level Word.greatest kind.words entity' ∧
        kind.words ≤ Word.greatest := by
  have hmem := Env.mem_entries_of_find? hfind
  obtain ⟨hwords, entity, entity', hat, hat', heases⟩ := h.staged _ hmem hlives
  have hid : id < start.next := h.below _ hmem
  constructor
  intro lead _ u s hpace b s' hexec _
  obtain ⟨rfl, id', hid', hfound⟩ := Encode.entityOf_ok hexec
  obtain rfl := Option.some.inj (hname.symm.trans hid')
  have hright : some b = some entity' :=
    (hfound.symm.trans (hpace.encoder id hid)).trans hat'
  obtain rfl := Option.some.inj hright
  have hleft : ((Ideal.assembler.entityOf name).run u).1 = entity := by
    show (name.binding.bind fun id => u.entities.lookup id).getD _ = entity
    rw [hname, Option.bind_some, hpace.ideal id hid, hat]
    rfl
  rw [hleft]
  rw [h.bound_eq] at heases
  exact ⟨lead, ⟨rfl, heases, hwords⟩, hpace⟩

/-- A routine in scope is called. Its arguments do not matter. -/
theorem invoke (h : Setting Γ n start frame frame') {P : Prop} {name : Name} {id : BindingId}
    {kind : BindingKind} (hname : name.binding = some id)
    {spelling : String} (hfind : Γ.find? spelling = some (id, kind)) (hlives : kind.Lives)
    (a b : Int) :
    start.Matches P (Ideal.assembler.invoke name (frame.replace a))
      (Encode.assembler.invoke name (frame'.replace b)) fun _ _ => True := by
  refine (h.entityOf hname hfind hlives).bind fun entity entity' ⟨heases, _⟩ => ?_
  have hnear : entity.Eases (frame.replace a).level Word.greatest kind.words entity' := heases
  exact hnear.call h.under.level h.level

theorem pass (h : Setting Γ n start frame frame') {P : Prop} {name : Name} {id : BindingId}
    {kind : BindingKind} (hname : name.binding = some id)
    {spelling : String} (hfind : Γ.find? spelling = some (id, kind)) (hlives : kind.Lives) :
    start.Matches P (Ideal.assembler.pass name frame) (Encode.assembler.pass name frame')
      fun _ _ => True :=
  (h.entityOf hname hfind hlives).bind fun _ _ ⟨heases, _⟩ => heases.fetchClosure h.under.level h.level

end Setting

/-! ## Phrases -/

section

variable (P : Prop) (Γ : Env) (n : Nat)

/-- The encoder keeps pace on the folded command. -/
def Command.Eases (command command' : Command) : Prop :=
  ∀ ⦃start frame frame'⦄, Setting Γ n start frame frame' →
    start.Matches P (Ideal.assembler.command command frame)
      (Encode.assembler.command command' frame') fun _ _ => True

/-- The encoder keeps pace on the folded expression, and the sizes are the width of the type. -/
def Expression.Eases (expression expression' : Expression) (type : TypeDenoter) : Prop :=
  ∀ ⦃start frame frame'⦄, Setting Γ n start frame frame' →
    start.Matches P (Ideal.assembler.expression expression frame)
      (Encode.assembler.expression expression' frame')
      fun a b => a = type.width ∧ b = type.width ∧ type.Exact

def ArrayAggregate.Eases (elements elements' : ArrayAggregate) (type : TypeDenoter) : Prop :=
  ∀ ⦃start frame frame'⦄, Setting Γ n start frame frame' →
    start.Matches P (Ideal.assembler.arrayAggregate elements frame)
      (Encode.assembler.arrayAggregate elements' frame')
      fun a b => a = elements.count * type.width ∧ b = a ∧ (elements.count = 1 ∨ Word.Fits a)

def RecordAggregate.Eases (fields fields' : RecordAggregate) (types : Fields) : Prop :=
  ∀ ⦃start frame frame'⦄, Setting Γ n start frame frame' →
    start.Matches P (Ideal.assembler.recordAggregate fields frame)
      (Encode.assembler.recordAggregate fields' frame')
      fun a b => a = types.width ∧ b = types.width

/-- The places of a vname before and after folding, in a value of `width` words. -/
structure Vname.Located (vname : Vname) (type : TypeDenoter) (level : Nat) (width slack : Int)
    (place place' : Encode.Place) : Prop where
  entity : place.1.Eases level Word.greatest width place'.1
  access : place.2.Eases place'.2 slack
  fits   : Word.Fits place.2.offset
  words  : width ≤ Word.greatest
  same   : ¬ vname.Hardens → place'.2 = place.2
  inside : ¬ vname.Oversteps →
    0 ≤ place'.2.offset ∧ place'.2.offset + type.width ≤ width

/-- The encoder keeps pace on the folded vname, with a lead for what is left to do at its place. -/
def Vname.Eases (vname vname' : Vname) (type : TypeDenoter) : Prop :=
  ∀ ⦃start frame frame'⦄, Setting Γ n start frame frame' → ∀ ⦃lead⦄, 0 ≤ lead →
    start.Keeps P lead (Ideal.assembler.place vname frame) (Encode.assembler.place vname' frame')
      fun place place' after => ∃ width slack,
        vname.Located type frame.level width slack place place' ∧
          after = place.lead place' slack lead

/-- The encoder keeps pace on the folded declaration, which takes no more words and leaves what it
    declares represented. -/
def Declaration.Eases (Γ' : Env) (declaration declaration' : Declaration) : Prop :=
  ∀ ⦃start frame frame'⦄, Setting Γ n start frame frame' →
    start.Opens P (Ideal.assembler.declaration declaration frame)
      (Encode.assembler.declaration declaration' frame')
      fun a b u s => 0 ≤ b ∧ b ≤ a ∧
        Γ'.Staged (frame.replace (frame.size + a)) u.entities s.entities

def Actuals.Eases (actuals actuals' : Actuals) : Prop :=
  ∀ ⦃start frame frame'⦄, Setting Γ n start frame frame' →
    start.Matches P (Ideal.assembler.actuals actuals frame)
      (Encode.assembler.actuals actuals' frame') fun a b => b = a ∧ 0 ≤ a

def Actual.Eases (actual actual' : Actual) : Prop :=
  ∀ ⦃start frame frame'⦄, Setting Γ n start frame frame' →
    start.Matches P (Ideal.assembler.actual actual frame)
      (Encode.assembler.actual actual' frame') fun a b => b = a ∧ 0 ≤ a

end

section

variable {P : Prop} {Γ Γ' Γ'' : Env} {n n' n'' : Nat}

/-! ## Places -/

/-- What is at the places can be used on both sides, unless the vname strays. -/
theorem Vname.Located.eases {vname : Vname} {type : TypeDenoter} {level : Nat}
    {width slack : Int} {place place' : Encode.Place}
    (h : vname.Located type level width slack place place')
    (hsteady : P ∨ ¬ vname.Hardens ∨ ¬ vname.Oversteps) (htype : 0 ≤ type.width) :
    place.Eases P level Word.greatest width slack place' := by
  refine ⟨h.entity, h.access, h.fits, hsteady.imp id fun hcases => ?_⟩
  rcases hcases with hsame | hinside
  · rw [h.same hsame]
    exact .inl rfl
  · obtain ⟨hlower, hupper⟩ := h.inside hinside
    exact .inr ⟨hlower, by omega⟩

/-- Conditionally pop what a declaration left. The ideal machine pops whenever the encoder does. -/
theorem Start.Matches.popThen {start : Start} {α β : Type} {f : PUnit → Ideal α}
    {g : PUnit → Encode β} {R : α → β → Prop} (words : Int) {a b : Int} (hle : b ≤ a)
    (hf : start.Matches P (f ⟨⟩) (g ⟨⟩) R) :
    start.Matches P (if a > 0 then Ideal.assembler.emitPlain .pop words a >>= f else f ⟨⟩)
      (if b > 0 then Encode.assembler.emitPlain .pop words b >>= g else g ⟨⟩) R := by
  by_cases hright : b > 0
  · rw [if_pos hright, if_pos (show a > 0 by omega)]
    exact (Start.Matches.emit .pop .pop words .cb .cb a b).bind fun _ _ _ => hf
  · rw [if_neg hright]
    by_cases hleft : a > 0
    · -- the ideal machine alone pops, and the lead it wins is not needed
      rw [if_pos hleft]
      constructor
      intro lead hlead
      have hpops : start.Leads P lead (Ideal.assembler.emitPlain .pop words a)
          fun _ after => after = lead ∧ True := .of_entities (fun _ => rfl) fun _ => trivial
      refine .left hpops fun _ after hafter => ?_
      obtain ⟨rfl, -⟩ := hafter
      exact hf.keeps after hlead
    · rw [if_neg hleft]
      exact hf

theorem Start.Matches.pop {start : Start} (words : Int) {a b : Int} (hle : b ≤ a) :
    start.Matches P
      (if a > 0 then Ideal.assembler.emitPlain .pop words a else Pure.pure PUnit.unit)
      (if b > 0 then Encode.assembler.emitPlain .pop words b else Pure.pure PUnit.unit)
      fun _ _ => True := by
  by_cases hright : b > 0
  · rw [if_pos hright, if_pos (show a > 0 by omega)]
    exact .emit .pop .pop words .cb .cb a b
  · rw [if_neg hright]
    by_cases hleft : a > 0
    · rw [if_pos hleft]
      constructor
      intro lead hlead
      have hpops : start.Leads P lead (Ideal.assembler.emitPlain .pop words a)
          fun _ after => after = lead ∧ True := .of_entities (fun _ => rfl) fun _ => trivial
      exact hpops.keeps fun _ _ hafter => hafter
    · rw [if_neg hleft]
      exact .pure trivial

/-- A declaration, and what is translated in its scope with the larger frame. -/
theorem Setting.scope {start : Start} {frame frame' : Frame}
    (h : Setting Γ n start frame frame') {declared declared' : Declaration}
    (hdeclared : Declaration.Eases P Γ.enclose n Γ' declared declared') (hn : n ≤ n')
    (hbelow : Γ'.Below n') {α β : Type} {f : Int → Frame → Ideal α} {g : Int → Frame → Encode β}
    {R : α → β → Prop}
    (hf : ∀ inner frame frame' a b, b ≤ a → Setting Γ' n' inner frame frame' →
      inner.Matches P (f a frame) (g b frame') R) :
    start.Matches P
      (Ideal.assembler.declaration declared frame >>= fun extra =>
        Ideal.assembler.grow frame extra >>= fun frame => f extra frame)
      (Encode.assembler.declaration declared' frame' >>= fun extra =>
        Encode.assembler.grow frame' extra >>= fun frame => g extra frame) R := by
  refine .of_opens fun u s hideal hencoder => ?_
  have hset := (h.restart hideal hencoder).enclose
  refine (hdeclared hset).bind (Nat.le_trans hset.next hn) fun a b u' s' hopened _ _ => ?_
  obtain ⟨hb, hle, hstaged⟩ := hopened
  have hinside : Start.Matches ⟨u', s', n'⟩ P
      (Ideal.assembler.grow frame a >>= fun frame => f a frame)
      (Encode.assembler.grow frame' b >>= fun frame => g b frame) R := by
    refine (Start.Matches.grow (h.fits hb hle)).bind fun _ _ ⟨hl, hr, hfits⟩ => ?_
    subst hl hr
    have hset' := h.grow hb hle hfits
    exact hf _ _ _ a b hle
      ⟨Nat.le_refl _, hbelow, hset'.level, hset'.size, hset'.under, hstaged⟩
  exact hinside.opens.mono fun _ _ _ _ hmatched => hmatched.1

/-! ## Commands -/

namespace Command.Eases

theorem empty {span : Span} : Command.Eases P Γ n (.empty span) (.empty span) :=
  fun _ _ _ _ => .pure trivial

theorem assign {span : Span} {target target' : Vname} {value value' : Expression}
    {targetType valueType : TypeDenoter} (htarget : Vname.Eases P Γ n target target' targetType)
    (hvalue : Expression.Eases P Γ n' value value' valueType) (hn : n ≤ n')
    (hsteady : P ∨ ¬ target.Hardens ∨ ¬ target.Oversteps) (hwidth : 0 ≤ targetType.width)
    (hequivalent : targetType.equivalent valueType = true) :
    Command.Eases P Γ n (.assign span target value) (.assign span target' value') := by
  intro start frame frame' hset
  simp only [Assembler.command]
  refine (hvalue (hset.later hn)).bind fun a b ⟨ha, hb, _⟩ => ?_
  rw [ha, hb, ← TypeDenoter.width_eq_of_equivalent hequivalent]
  refine (Start.Matches.grow (hset.fits hwidth (Int.le_refl _))).bind fun _ _ ⟨hl, hr, hfits⟩ => ?_
  subst hl hr
  have hset' := hset.grow hwidth (Int.le_refl _) hfits
  constructor
  intro lead hlead
  refine (htarget hset' hlead).bind fun place place' after hafter => ?_
  obtain ⟨width, slack, hlocated, rfl⟩ := hafter
  exact ((hlocated.eases hsteady hwidth).store (Int.le_refl _) hset'.level hset'.under.level hlead
    targetType.width).mono fun _ _ _ heq => ⟨heq, trivial⟩

theorem call {span : Span} {callee : Name} {args args' : Actuals} {id : BindingId}
    {kind : BindingKind} (hargs : Actuals.Eases P Γ n args args')
    (hfind : Γ.find? callee.spelling = some (id, kind))
    (hlives : kind.Lives) :
    Command.Eases P Γ n (.call span (callee.link id) args) (.call span (callee.link id) args') := by
  intro start frame frame' hset
  simp only [Assembler.command]
  exact (hargs hset).bind fun a b _ => hset.invoke rfl hfind hlives a b

theorem sequence {span : Span} {first first' second second' : Command}
    (hfirst : Command.Eases P Γ n first first') (hsecond : Command.Eases P Γ n' second second')
    (hn : n ≤ n') : Command.Eases P Γ n (.sequence span first second)
      (.sequence span first' second') := by
  intro start frame frame' hset
  simp only [Assembler.command]
  exact (hfirst hset).bind fun _ _ _ => hsecond (hset.later hn)

theorem letIn {span : Span} {declared declared' : Declaration} {body body' : Command}
    (hdeclared : Declaration.Eases P Γ.enclose n Γ' declared declared')
    (hbody : Command.Eases P Γ' n' body body') (hn : n ≤ n') (hbelow : Γ'.Below n') :
    Command.Eases P Γ n (.letIn span declared body) (.letIn span declared' body') := by
  intro start frame frame' hset
  simp only [Assembler.command]
  exact hset.scope hdeclared hn hbelow fun inner frame frame' a b hle hinner =>
    (hbody hinner).bind fun _ _ _ => .pop 0 hle

theorem ifElse {span : Span} {condition condition' : Expression} {type : TypeDenoter}
    {thenBranch thenBranch' elseBranch elseBranch' : Command}
    (hcondition : Expression.Eases P Γ n condition condition' type)
    (hthen : Command.Eases P Γ n' thenBranch thenBranch')
    (helse : Command.Eases P Γ n'' elseBranch elseBranch') (hn : n ≤ n') (hn' : n' ≤ n'') :
    Command.Eases P Γ n (.ifElse span condition thenBranch elseBranch)
      (.ifElse span condition' thenBranch' elseBranch') := by
  intro start frame frame' hset
  simp only [Assembler.command]
  exact .branch (hcondition hset) (hthen (hset.later hn))
    (helse (hset.later (Nat.le_trans hn hn')))

theorem whileDo {span : Span} {condition condition' : Expression} {type : TypeDenoter}
    {body body' : Command} (hcondition : Expression.Eases P Γ n condition condition' type)
    (hbody : Command.Eases P Γ n' body body') (hn : n ≤ n') :
    Command.Eases P Γ n (.whileDo span condition body) (.whileDo span condition' body') := by
  intro start frame frame' hset
  simp only [Assembler.command]
  exact .whileDo (hcondition hset) (hbody (hset.later hn))

theorem repeatUntil {span : Span} {condition condition' : Expression} {type : TypeDenoter}
    {body body' : Command} (hbody : Command.Eases P Γ n body body')
    (hcondition : Expression.Eases P Γ n' condition condition' type) (hn : n ≤ n') :
    Command.Eases P Γ n (.repeatUntil span body condition)
      (.repeatUntil span body' condition') := by
  intro start frame frame' hset
  simp only [Assembler.command]
  exact .repeatUntil (hbody hset) (hcondition (hset.later hn))

theorem loopWhile {span : Span} {condition condition' : Expression} {type : TypeDenoter}
    {body body' tail tail' : Command} (hbody : Command.Eases P Γ n body body')
    (hcondition : Expression.Eases P Γ n' condition condition' type)
    (htail : Command.Eases P Γ n'' tail tail') (hn : n ≤ n') (hn' : n' ≤ n'') :
    Command.Eases P Γ n (.loopWhile span body condition tail)
      (.loopWhile span body' condition' tail') := by
  intro start frame frame' hset
  simp only [Assembler.command]
  exact .loopWhile (hbody hset) (hcondition (hset.later hn))
    (htail (hset.later (Nat.le_trans hn hn')))

end Command.Eases

/-! ## Expressions -/

namespace Expression.Eases

theorem integer {span : Span} {literal : IntegerLiteral} :
    Expression.Eases P Γ n (.integer span (some .integer) literal)
      (.integer span (some .integer) literal) .integer := by
  intro start frame frame' hset
  simp only [Assembler.expression]
  exact (Start.Matches.sizeOf? .integer span span).bind fun _ _ hsize =>
    (Start.Matches.emit .loadL .loadL 0 .cb .cb _ _).bind fun _ _ _ => .pure hsize

theorem character {span : Span} {literal : CharacterLiteral} :
    Expression.Eases P Γ n (.character span (some .character) literal)
      (.character span (some .character) literal) .character := by
  intro start frame frame' hset
  simp only [Assembler.expression]
  exact (Start.Matches.sizeOf? .character span span).bind fun _ _ hsize =>
    (Start.Matches.emit .loadL .loadL 0 .cb .cb _ _).bind fun _ _ _ => .pure hsize

theorem vname {span : Span} {type : TypeDenoter} {found found' : Vname}
    (hfound : Vname.Eases P Γ n found found' type)
    (hsteady : P ∨ ¬ found.Hardens ∨ ¬ found.Oversteps) (hwidth : 0 ≤ type.width) :
    Expression.Eases P Γ n (.vname span (some type) found) (.vname span (some type) found')
      type := by
  intro start frame frame' hset
  simp only [Assembler.expression]
  refine (Start.Matches.sizeOf? type span span).bind fun a b hsize => ?_
  obtain ⟨rfl, rfl, hexact⟩ := hsize
  constructor
  intro lead hlead
  refine (hfound hset hlead).bind fun place place' after hafter => ?_
  obtain ⟨width, slack, hlocated, rfl⟩ := hafter
  refine ((hlocated.eases hsteady hwidth).fetch (Int.le_refl _) hset.level hset.under.level hlead
    type.width).bind fun _ _ after hafter => ?_
  subst hafter
  exact .pure ⟨rfl, rfl, rfl, hexact⟩

theorem call {span : Span} {result : TypeDenoter} {callee : Name} {args args' : Actuals}
    {id : BindingId} {kind : BindingKind} (hargs : Actuals.Eases P Γ n args args')
    (hfind : Γ.find? callee.spelling = some (id, kind))
    (hlives : kind.Lives) :
    Expression.Eases P Γ n (.call span (some result) (callee.link id) args)
      (.call span (some result) (callee.link id) args') result := by
  intro start frame frame' hset
  simp only [Assembler.expression]
  exact (Start.Matches.sizeOf? result span span).bind fun _ _ hsize =>
    (hargs hset).bind fun a b _ => (hset.invoke rfl hfind hlives a b).bind fun _ _ _ => .pure hsize

theorem ifElse {span : Span} {condition condition' thenBranch thenBranch' elseBranch
      elseBranch' : Expression} {type thenType elseType : TypeDenoter}
    (hcondition : Expression.Eases P Γ n condition condition' type)
    (hthen : Expression.Eases P Γ n' thenBranch thenBranch' thenType)
    (helse : Expression.Eases P Γ n'' elseBranch elseBranch' elseType)
    (hn : n ≤ n') (hn' : n' ≤ n'') (hequivalent : thenType.equivalent elseType = true) :
    Expression.Eases P Γ n (.ifElse span (some thenType) condition thenBranch elseBranch)
      (.ifElse span (some thenType) condition' thenBranch' elseBranch') thenType := by
  intro start frame frame' hset
  simp only [Assembler.expression]
  refine (Start.Matches.sizeOf? thenType span span).bind fun _ _ ⟨_, _, hexact⟩ => ?_
  refine (Start.Matches.branch (hcondition hset) (hthen (hset.later hn))
    (helse (hset.later (Nat.le_trans hn hn')))).mono fun a b ⟨ha, hb, _⟩ => ?_
  rw [TypeDenoter.width_eq_of_equivalent hequivalent]
  exact ⟨ha, hb, hexact⟩

theorem letIn {span : Span} {declared declared' : Declaration} {body body' : Expression}
    {type : TypeDenoter} (hdeclared : Declaration.Eases P Γ.enclose n Γ' declared declared')
    (hbody : Expression.Eases P Γ' n' body body' type) (hn : n ≤ n') (hbelow : Γ'.Below n') :
    Expression.Eases P Γ n (.letIn span (some type) declared body)
      (.letIn span (some type) declared' body') type := by
  intro start frame frame' hset
  simp only [Assembler.expression]
  refine (Start.Matches.sizeOf? type span span).bind fun _ _ _ => ?_
  refine hset.scope hdeclared hn hbelow fun inner frame frame' a b hle hinner => ?_
  refine (hbody hinner).bind fun size size' hsize => ?_
  obtain ⟨rfl, rfl, hexact⟩ := hsize
  exact .popThen _ hle (.pure ⟨rfl, rfl, hexact⟩)

theorem unary {span : Span} {result operandType : TypeDenoter} {operator : Name} {id : BindingId}
    {kind : BindingKind} {operand operand' : Expression}
    (hoperand : Expression.Eases P Γ n operand operand' operandType)
    (hfind : Γ.find? operator.spelling = some (id, kind))
    (hlives : kind.Lives) :
    Expression.Eases P Γ n (.unary span (some result) (operator.link id) operand)
      (.unary span (some result) (operator.link id) operand') result := by
  intro start frame frame' hset
  simp only [Assembler.expression]
  exact (Start.Matches.sizeOf? result span span).bind fun a b hsize =>
    (hoperand hset).bind fun _ _ _ => (hset.invoke rfl hfind hlives a b).bind fun _ _ _ => .pure hsize

theorem binary {span : Span} {result leftType rightType : TypeDenoter} {operator : Name}
    {id : BindingId} {kind : BindingKind} {left left' right right' : Expression}
    (hleft : Expression.Eases P Γ n left left' leftType)
    (hright : Expression.Eases P Γ n' right right' rightType) (hn : n ≤ n')
    (hwidth : 0 ≤ leftType.width) (hfind : Γ.find? operator.spelling = some (id, kind))
    (hlives : kind.Lives) :
    Expression.Eases P Γ n (.binary span (some result) left (operator.link id) right)
      (.binary span (some result) left' (operator.link id) right') result := by
  intro start frame frame' hset
  simp only [Assembler.expression]
  refine (Start.Matches.sizeOf? result span span).bind fun _ _ hsize => ?_
  refine (hleft hset).bind fun a b ⟨ha, hb, _⟩ => ?_
  subst ha hb
  refine (Start.Matches.grow (hset.fits hwidth (Int.le_refl _))).bind
    fun _ _ ⟨hl, hr, hfits⟩ => ?_
  subst hl hr
  refine (hright ((hset.grow hwidth (Int.le_refl _) hfits).later hn)).bind fun a b ⟨ha, hb, _⟩ => ?_
  subst ha hb
  exact (Start.Matches.word fun hword => hword).bind fun a b _ =>
    (hset.invoke rfl hfind hlives a b).bind fun _ _ _ => .pure hsize

/-- The encoder writes one instruction for a literal, unless the store is full. -/
theorem literal_exec {span : Span} {literal : IntegerLiteral} {frame : Frame} (s : Encoder) :
    ∃ s', (Encode.assembler.expression (.integer span (some .integer) literal) frame).exec s =
        (.ok (TypeDenoter.size .integer), s') ∧
      (s'.emitter.full = false → s'.start = s.start + 1) := by
  obtain ⟨journal, -, hexec⟩ := Encode.sizeOf_exec .integer s
  -- the operand length of the instruction is no restriction, so only its place counts
  have hemit (e : Emitter) (hfull : (e.emitPlain .loadL 0 literal.value).full = false) :
      (e.emitPlain .loadL 0 literal.value).code.size = e.code.size + 1 := by
    have hclamp : e.clampOperand 0 .operandLength = (0, e) := if_neg (by decide)
    unfold Emitter.emitPlain Emitter.emit at hfull ⊢
    rw [hclamp] at hfull ⊢
    dsimp only at hfull ⊢
    by_cases hroom : e.code.size < Machine.codeStoreSize
    · rw [if_pos hroom]
      exact Array.size_push ..
    · rw [if_neg hroom] at hfull
      unfold Emitter.restrictCode at hfull
      split at hfull
      · next hbefore => exact absurd (hbefore.symm.trans hfull) nofun
      · cases hfull
  refine ⟨{ s with
    emitter := Emitter.emitPlain { s.emitter with journal } .loadL 0 literal.value
    layouts := (TypeDenoter.layOut .integer { layouts := s.layouts }).layouts
    outOfRange := s.outOfRange || (TypeDenoter.layOut .integer { layouts := s.layouts }).outOfRange },
    ?_, hemit _⟩
  simp only [Assembler.expression]
  exact (Encode.exec_bind hexec).trans rfl

/-- What folds to a literal took the ideal machine an instruction at least. -/
theorem alone {expression expression' : Expression} {type : TypeDenoter} {value : Int}
    (h : Expression.Eases P Γ n expression expression' type)
    (hvalue : expression'.integerValue? = some value) (htype : expression'.type = some .integer)
    {start : Start} {frame frame' : Frame} (hset : Setting Γ n start frame frame') {lead : Int}
    (hlead : 0 ≤ lead) :
    start.Leads P lead (Ideal.assembler.expression expression frame)
      fun a after => after = lead + 1 ∧ a = type.width ∧ type.Exact := by
  intro u s hpace hmeets
  cases expression' with
  | integer span found literal =>
    obtain rfl : found = some .integer := htype
    -- the encoder would write the literal, and it would still keep pace then
    obtain ⟨s', hexec, hwrote⟩ := literal_exec s
    obtain ⟨_, ⟨rfl, ha, -, hexact⟩, hpace'⟩ := (h hset).keeps _ hlead hpace hexec hmeets
    have hstart := hwrote hpace'.tame.emitter.notFull
    have hcode := hpace'.code
    refine ⟨_, ⟨rfl, ha, hexact⟩, hpace'.room, ?_, hpace.tame, hpace'.ideal, hpace.encoder⟩
    omega
  | _ => cases hvalue

/-- An operation on what folds to literals is folded. -/
theorem folded {span span' : Span} {leftType rightType : TypeDenoter} {operator : Name}
    {left left' right right' : Expression} {a b : Int} {literal : IntegerLiteral}
    (hleft : Expression.Eases P Γ n left left' leftType)
    (hright : Expression.Eases P Γ n' right right' rightType) (hn : n ≤ n')
    (hleftType : left'.type = some .integer) (hrightType : right'.type = some .integer)
    (hleftValue : left'.integerValue? = some a) (hrightValue : right'.integerValue? = some b)
    (hwidth : 0 ≤ leftType.width) :
    Expression.Eases P Γ n (.binary span (some .integer) left operator right)
      (.integer span' (some .integer) literal) .integer := by
  intro start frame frame' hset
  simp only [Assembler.expression]
  constructor
  intro lead hlead
  refine (Start.Matches.sizeOf? .integer span span').before hlead fun size size' hsize => ?_
  refine .of_lead (.left (hleft.alone hleftValue hleftType hset hlead) fun a after h => ?_)
  obtain ⟨rfl, rfl, -⟩ := h
  refine .left (.grow frame leftType.width) fun _ after h => ?_
  obtain ⟨rfl, rfl, hfits⟩ := h
  have hset' := (hset.grow hwidth (Int.le_refl _) hfits).later hn
  have hlead' : 0 ≤ lead + 1 := by omega
  refine .left (hright.alone hrightValue hrightType hset' hlead') fun b after h => ?_
  obtain ⟨rfl, rfl, -⟩ := h
  refine .left (.word _) fun argumentSize after h => ?_
  obtain ⟨rfl, -, -⟩ := h
  have hinvoke : start.Leads P (lead + 1 + 1)
      (Ideal.assembler.invoke operator (frame.replace argumentSize))
      fun _ after => after = lead + 1 + 1 ∧ True := .of_entities (fun _ => rfl) fun _ => trivial
  refine .left hinvoke fun _ after h => ?_
  obtain ⟨rfl, -⟩ := h
  -- two operands have been read, and one literal is written
  refine .right (.emit .loadL .cb literal.value (by decide) hlead') fun _ after h => ?_
  subst h
  exact .pure ⟨by omega, hsize⟩

theorem array {span : Span} {serial : Nat} {element : TypeDenoter}
    {elements elements' : ArrayAggregate}
    (helements : ArrayAggregate.Eases P Γ n elements elements' element)
    (hwidth : 0 ≤ element.width) {type : TypeDenoter}
    (htype : type = .array serial span ⟨Numeral.ofNat elements.count, span⟩ element) :
    Expression.Eases P Γ n (.array span (some type) elements)
      (.array span (some type) elements') type := by
  intro start frame frame' hset
  simp only [Assembler.expression]
  refine (Start.Matches.sizeOf? type span span).bind fun _ _ ⟨_, _, hexact⟩ => ?_
  refine (helements hset).mono fun a b ⟨ha, hb, hfits⟩ => ?_
  -- the words of the elements are those of the type, if its length is written as it is
  suffices hcount : elements.count * element.width = type.width from
    ⟨ha.trans hcount, (hb.trans ha).trans hcount, hexact⟩
  rw [htype, TypeDenoter.width]
  rcases hwidth.eq_or_lt with hzero | hpos
  · rw [← hzero, Int.mul_zero, Int.mul_zero]
  · -- so many elements that they are no word would not be a word together
    have hgreatest : (elements.count : Int) ≤ Word.greatest := by
      rcases hfits with hone | ⟨-, hupper⟩
      · rw [hone]
        decide
      · rw [ha] at hupper
        have hle : (elements.count : Int) * 1 ≤ elements.count * element.width :=
          Int.mul_le_mul_of_nonneg_left hpos (Int.natCast_nonneg _)
        omega
    rw [IntegerLiteral.value_ofNat hgreatest]

theorem record {span : Span} {serial : Nat} {types : Fields} {fields fields' : RecordAggregate}
    (hfields : RecordAggregate.Eases P Γ n fields fields' types) :
    Expression.Eases P Γ n (.record span (some (.record serial span types)) fields)
      (.record span (some (.record serial span types)) fields') (.record serial span types) := by
  intro start frame frame' hset
  simp only [Assembler.expression]
  refine (Start.Matches.sizeOf? _ span span).bind fun _ _ ⟨_, _, hexact⟩ => ?_
  exact (hfields hset).mono fun a b ⟨ha, hb⟩ => ⟨ha, hb, hexact⟩

end Expression.Eases

/-! ## Aggregates -/

namespace ArrayAggregate.Eases

theorem one {span : Span} {element element' : Expression} {type : TypeDenoter}
    (helement : Expression.Eases P Γ n element element' type) :
    ArrayAggregate.Eases P Γ n (.one span element) (.one span element') type := by
  intro start frame frame' hset
  simp only [Assembler.arrayAggregate]
  refine (helement hset).mono fun a b ⟨ha, hb, _⟩ => ⟨?_, hb.trans ha.symm, .inl rfl⟩
  rw [ha, show (ArrayAggregate.one span element).count = 1 from rfl, Int.natCast_one, Int.one_mul]

theorem more {span : Span} {element element' : Expression} {rest rest' : ArrayAggregate}
    {type restType : TypeDenoter} (helement : Expression.Eases P Γ n element element' type)
    (hrest : ArrayAggregate.Eases P Γ n' rest rest' restType) (hn : n ≤ n')
    (hwidth : 0 ≤ type.width) (hequivalent : type.equivalent restType = true) :
    ArrayAggregate.Eases P Γ n (.more span element rest) (.more span element' rest') type := by
  intro start frame frame' hset
  simp only [Assembler.arrayAggregate]
  refine (helement hset).bind fun a b ⟨ha, hb, _⟩ => ?_
  subst ha hb
  refine (Start.Matches.grow (hset.fits hwidth (Int.le_refl _))).bind
    fun _ _ ⟨hl, hr, hfits⟩ => ?_
  subst hl hr
  have hset' := (hset.grow hwidth (Int.le_refl _) hfits).later hn
  refine (hrest hset').bind fun a b ⟨ha, hb, _⟩ => ?_
  subst hb
  refine (Start.Matches.word fun hword => hword).mono fun c d ⟨hc, hd, hword⟩ => ?_
  refine ⟨?_, hd.trans hc.symm, .inr (hc ▸ hword)⟩
  rw [hc, ha, ← TypeDenoter.width_eq_of_equivalent hequivalent,
    show (ArrayAggregate.more span element rest).count = rest.count + 1 from rfl, Int.natCast_succ,
    Int.add_mul, Int.one_mul, Int.add_comm]

end ArrayAggregate.Eases

namespace RecordAggregate.Eases

theorem one {span fieldSpan : Span} {field : Name} {value value' : Expression} {type : TypeDenoter}
    (hvalue : Expression.Eases P Γ n value value' type) :
    RecordAggregate.Eases P Γ n (.one span field value) (.one span field value')
      (.one fieldSpan field type) := by
  intro start frame frame' hset
  simp only [Assembler.recordAggregate]
  exact (hvalue hset).mono fun a b ⟨ha, hb, _⟩ => ⟨ha, hb⟩

theorem more {span fieldSpan : Span} {field : Name} {value value' : Expression}
    {rest rest' : RecordAggregate} {type : TypeDenoter} {types : Fields}
    (hvalue : Expression.Eases P Γ n value value' type)
    (hrest : RecordAggregate.Eases P Γ n' rest rest' types) (hn : n ≤ n')
    (hwidth : 0 ≤ type.width) :
    RecordAggregate.Eases P Γ n (.more span field value rest) (.more span field value' rest')
      (.more fieldSpan field type types) := by
  intro start frame frame' hset
  simp only [Assembler.recordAggregate]
  refine (hvalue hset).bind fun a b ⟨ha, hb, _⟩ => ?_
  subst ha hb
  refine (Start.Matches.grow (hset.fits hwidth (Int.le_refl _))).bind
    fun _ _ ⟨hl, hr, hfits⟩ => ?_
  subst hl hr
  have hset' := (hset.grow hwidth (Int.le_refl _) hfits).later hn
  refine (hrest hset').bind fun a b ⟨ha, hb⟩ => ?_
  subst ha hb
  exact (Start.Matches.word fun hword => hword).mono fun c d ⟨hc, hd, _⟩ => ⟨hc, hd⟩

end RecordAggregate.Eases

/-! ## Actual parameters -/

namespace Actual.Eases

theorem const {span : Span} {value value' : Expression} {type : TypeDenoter}
    (hvalue : Expression.Eases P Γ n value value' type) (hwidth : 0 ≤ type.width) :
    Actual.Eases P Γ n (.const span value) (.const span value') := by
  intro start frame frame' hset
  simp only [Assembler.actual]
  exact (hvalue hset).mono fun a b ⟨ha, hb, _⟩ => ⟨hb.trans ha.symm, ha ▸ hwidth⟩

theorem var {span : Span} {found found' : Vname} {type : TypeDenoter}
    (hfound : Vname.Eases P Γ n found found' type)
    (hsteady : P ∨ ¬ found.Hardens ∨ ¬ found.Oversteps) (hwidth : 0 ≤ type.width) :
    Actual.Eases P Γ n (.var span found) (.var span found') := by
  intro start frame frame' hset
  simp only [Assembler.actual]
  constructor
  intro lead hlead
  refine (hfound hset hlead).bind fun place place' after hafter => ?_
  obtain ⟨width, slack, hlocated, rfl⟩ := hafter
  refine ((hlocated.eases hsteady hwidth).fetchAddress (Int.le_refl _) hset.level hset.under.level
    hlead).bind fun _ _ after hafter => ?_
  subst hafter
  exact .pure ⟨rfl, rfl, by decide⟩

theorem proc {span : Span} {name : Name} {id : BindingId} {kind : BindingKind}
    (hfind : Γ.find? name.spelling = some (id, kind))
    (hlives : kind.Lives) :
    Actual.Eases P Γ n (.proc span (name.link id)) (.proc span (name.link id)) := by
  intro start frame frame' hset
  simp only [Assembler.actual]
  exact (hset.pass rfl hfind hlives).bind fun _ _ _ => .pure ⟨rfl, by decide⟩

theorem func {span : Span} {name : Name} {id : BindingId} {kind : BindingKind}
    (hfind : Γ.find? name.spelling = some (id, kind))
    (hlives : kind.Lives) :
    Actual.Eases P Γ n (.func span (name.link id)) (.func span (name.link id)) := by
  intro start frame frame' hset
  simp only [Assembler.actual]
  exact (hset.pass rfl hfind hlives).bind fun _ _ _ => .pure ⟨rfl, by decide⟩

end Actual.Eases

namespace Actuals.Eases

theorem empty {span : Span} : Actuals.Eases P Γ n (.empty span) (.empty span) := by
  intro start frame frame' hset
  simp only [Assembler.actuals]
  exact .pure ⟨rfl, Int.le_refl 0⟩

theorem one {span : Span} {first first' : Actual} (hfirst : Actual.Eases P Γ n first first') :
    Actuals.Eases P Γ n (.one span first) (.one span first') := by
  intro start frame frame' hset
  simp only [Assembler.actuals]
  exact hfirst hset

theorem more {span : Span} {first first' : Actual} {rest rest' : Actuals}
    (hfirst : Actual.Eases P Γ n first first') (hrest : Actuals.Eases P Γ n' rest rest')
    (hn : n ≤ n') : Actuals.Eases P Γ n (.more span first rest) (.more span first' rest') := by
  intro start frame frame' hset
  simp only [Assembler.actuals]
  refine (hfirst hset).bind fun a b ⟨hb, ha⟩ => ?_
  subst hb
  refine (Start.Matches.grow (hset.fits ha (Int.le_refl _))).bind fun _ _ ⟨hl, hr, hfits⟩ => ?_
  subst hl hr
  have hset' := (hset.grow ha (Int.le_refl _) hfits).later hn
  refine (hrest hset').bind fun c d ⟨hd, hc⟩ => ?_
  subst hd
  refine (Start.Matches.word fun hword => hword).mono fun e f ⟨he, hf, _⟩ => ⟨hf.trans he.symm, ?_⟩
  rw [he]
  exact Int.add_nonneg ha hc

end Actuals.Eases

end

end TriangleTam
