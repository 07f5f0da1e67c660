import TriangleTam.Proofs.Coding.Runs

/-! # Outcomes of steps

  What is known of a step of encoding from its having returned, whatever was
  reported on the way: what it returned, and the encoder after it.
-/

namespace TriangleTam

/-- Between the two encoders sizes were asked for, and no code was written. -/
structure Encoder.Measured (s s' : Encoder) : Prop where
  code        : s'.emitter.code = s.emitter.code
  full        : s'.emitter.full = s.emitter.full
  diagnostics : s'.emitter.journal.diagnostics = s.emitter.journal.diagnostics
  entities    : s'.entities = s.entities
  addressable : s'.emitter.unaddressable = s.emitter.unaddressable

theorem Encoder.Measured.quiet_iff {s s' : Encoder} (h : s.Measured s') :
    s'.emitter.Quiet ↔ s.emitter.Quiet := by
  constructor
  · rintro ⟨hclean, hfull, haddressable⟩
    exact ⟨h.diagnostics ▸ hclean, h.full ▸ hfull, h.addressable ▸ haddressable⟩
  · rintro ⟨hclean, hfull, haddressable⟩
    exact ⟨h.diagnostics.trans hclean, h.full.trans hfull, h.addressable.trans haddressable⟩

namespace Encode

variable {s s' : Encoder}

theorem emitting_exec (act : Emitter → Emitter) (s : Encoder) :
    (emitting act).exec s = (.ok (), { s with emitter := act s.emitter }) := rfl

theorem next_exec (s : Encoder) : next.exec s = (.ok s.emitter.next, s) := rfl

theorem word_exec (n : Int) (s : Encoder) :
    (word n).exec s =
      (.ok (Word.clamp n), { s with outOfRange := s.outOfRange || !decide (Word.Fits n) }) := by
  unfold word
  by_cases hfits : Word.Fits n
  · simp [hfits, exec_pure]
  · simp only [hfits, decide_false, Bool.not_false, if_true, Bool.or_true]
    rfl

theorem requesting_ok {act : Emitter → Except NotApplicable Emitter} {u : Unit}
    (h : (requesting act).exec s = (.ok u, s')) :
    ∃ e, act s.emitter = .ok e ∧ s' = { s with emitter := e } := by
  unfold requesting at h
  rw [exec_get_bind] at h
  cases hact : act s.emitter with
  | error fault =>
    simp only [hact] at h
    cases h
  | ok e =>
    simp only [hact] at h
    obtain ⟨-, rfl⟩ := Prod.mk.inj h
    exact ⟨e, rfl, rfl⟩

theorem clampOperand_exec (n : Int) (limit : Limit) (s : Encoder) :
    (clampOperand n limit).exec s = (.ok (s.emitter.clampOperand n limit).1,
      { s with emitter := (s.emitter.clampOperand n limit).2 }) := rfl

/-- What is bound has a binding, and is logged at most. -/
theorem bind_ok {name : Name} {entity : Entity} {u : Unit}
    (h : (bind name entity).exec s = (.ok u, s')) :
    ∃ id journal, name.binding = some id ∧
      Journal.diagnostics journal = s.emitter.journal.diagnostics ∧
      s' = { s with
        emitter := { s.emitter with journal }
        entities := (id, entity) :: s.entities } := by
  unfold bind at h
  cases hname : name.binding with
  | none =>
    simp only [hname] at h
    cases h
  | some id =>
    simp only [hname] at h
    rw [exec_get_bind] at h
    by_cases hshow : s.showTable = true
    · rw [if_pos hshow] at h
      obtain ⟨-, rfl⟩ := Prod.mk.inj h
      exact ⟨id, s.emitter.journal.log .info entity.text [("name", name.spelling)], rfl, rfl, rfl⟩
    · rw [if_neg hshow] at h
      obtain ⟨-, rfl⟩ := Prod.mk.inj h
      exact ⟨id, s.emitter.journal, rfl, rfl, rfl⟩

theorem entityOf_ok {name : Name} {entity : Entity} (h : (entityOf name).exec s = (.ok entity, s')) :
    s' = s ∧ ∃ id, name.binding = some id ∧ s.entities.lookup id = some entity := by
  unfold entityOf at h
  rw [exec_get_bind] at h
  cases hfound : name.binding.bind fun id => s.entities.lookup id with
  | none =>
    simp only [hfound] at h
    cases h
  | some found =>
    simp only [hfound] at h
    obtain ⟨heq, rfl⟩ := Prod.mk.inj h
    obtain rfl := Except.ok.inj heq
    obtain ⟨id, hname, hat⟩ := Option.bind_eq_some_iff.1 hfound
    exact ⟨rfl, id, hname, hat⟩

theorem sizeOf?_ok {type : Option TypeDenoter} {span : Span} {n : Int}
    (h : (sizeOf? type span).exec s = (.ok n, s')) :
    ∃ type', type = some type' ∧ (sizeOf type').exec s = (.ok n, s') := by
  cases type with
  | none => cases h
  | some type' => exact ⟨type', rfl, h⟩

theorem fieldOffset_ok {record : Vname} {field : Name} {offset : Int}
    (h : (fieldOffset record field).exec s = (.ok offset, s')) :
    ∃ type, record.type = some type ∧ type.fieldOffset? field.spelling = some offset ∧
      (sizeOf type).exec s = (.ok type.size, s') := by
  unfold fieldOffset at h
  cases htype : record.type with
  | none =>
    simp only [htype] at h
    cases h
  | some type =>
    simp only [htype] at h
    obtain ⟨n, s₁, hsize, hrest⟩ := exec_bind_ok h
    obtain ⟨journal, hjournal, hexec⟩ := sizeOf_exec type s
    obtain ⟨-, rfl⟩ := Prod.mk.inj (hexec.symm.trans hsize)
    cases hoffset : type.fieldOffset? field.spelling with
    | none =>
      simp only [hoffset] at hrest
      cases hrest
    | some found =>
      simp only [hoffset] at hrest
      obtain ⟨heq, rfl⟩ := Prod.mk.inj hrest
      obtain rfl := Except.ok.inj heq
      exact ⟨type, rfl, hoffset, hexec⟩

/-! ## Measuring -/

theorem word_measured {n k : Int} (h : (word n).exec s = (.ok k, s')) :
    k = Word.clamp n ∧ s.Measured s' := by
  obtain ⟨hk, rfl⟩ := Prod.mk.inj ((word_exec n s).symm.trans h)
  exact ⟨(Except.ok.inj hk).symm, rfl, rfl, rfl, rfl, rfl⟩

theorem sizeOf_measured {type : TypeDenoter} {n : Int} (h : (sizeOf type).exec s = (.ok n, s')) :
    n = type.size ∧ s.Measured s' := by
  obtain ⟨journal, hjournal, hexec⟩ := sizeOf_exec type s
  obtain ⟨hn, rfl⟩ := Prod.mk.inj (hexec.symm.trans h)
  exact ⟨(Except.ok.inj hn).symm, rfl, rfl, hjournal, rfl, rfl⟩

theorem sizeOf?_measured {type : Option TypeDenoter} {span : Span} {n : Int}
    (h : (sizeOf? type span).exec s = (.ok n, s')) :
    s.Measured s' ∧ ∃ type', type = some type' ∧ n = type'.size := by
  obtain ⟨type', htype, hsize⟩ := sizeOf?_ok h
  obtain ⟨hn, hmeasured⟩ := sizeOf_measured hsize
  exact ⟨hmeasured, type', htype, hn⟩

theorem fieldOffset_measured {record : Vname} {field : Name} {offset : Int}
    (h : (fieldOffset record field).exec s = (.ok offset, s')) : s.Measured s' := by
  obtain ⟨type, -, -, hsize⟩ := fieldOffset_ok h
  exact (sizeOf_measured hsize).2

end Encode

end TriangleTam
