import Mathlib.Order.Interval.Set.Basic
import TriangleTam.Code.Encode
import TriangleTam.Proofs.Coding.Emission
import TriangleTam.Proofs.Coding.Width

/-! # Runs of the encoder

  What single steps of encoding do. A step **does** its part from an encoder
  on when it returns, reports restrictions alone, and what it returns and the
  encoder afterwards are as they should be. What is said about code is said
  for the case that the encoder ends **quiet**, with nothing reported and no
  size out of range. Nobody reads other code.
-/

namespace TriangleTam

/-! ## Encoders -/

namespace Encoder

/-- The address of the next instruction. -/
def start (s : Encoder) : Nat := s.emitter.code.size

/-- Nothing was reported, and there is nothing to report. -/
structure Quiet (s : Encoder) : Prop where
  emitter : s.emitter.Quiet
  inRange : s.outOfRange = false

/-- What is laid out is made and exact, as long as nothing was out of range. -/
def Laid (made : List TypeDenoter) (s : Encoder) : Prop :=
  s.outOfRange = false → s.layouts.Sound made

/-- The second encoder may come of the first, and no binding that is not in `new` is
    represented on the way. No representation changes. -/
structure Before (made : List TypeDenoter) (new : Set BindingId) (s s' : Encoder) : Prop where
  emitter : s.emitter.Before s'.emitter
  inRange : s'.outOfRange = false → s.outOfRange = false
  laid    : s.Laid made → s'.Laid made
  within  : ∀ id, id ∉ new → s'.entities.lookup id = s.entities.lookup id
  keeps   : ∀ {id entity}, s.entities.lookup id = some entity →
    s'.entities.lookup id = some entity

namespace Before

variable {made : List TypeDenoter} {new new' : Set BindingId} {s s₁ s₂ : Encoder}

theorem refl (s : Encoder) : s.Before made new s :=
  ⟨.refl _, id, id, fun _ _ => rfl, fun h => h⟩

theorem trans (h : s.Before made new s₁) (h' : s₁.Before made new s₂) : s.Before made new s₂ :=
  ⟨h.emitter.trans h'.emitter, h.inRange ∘ h'.inRange, h'.laid ∘ h.laid,
    fun id hid => (h'.within id hid).trans (h.within id hid), h'.keeps ∘ h.keeps⟩

theorem mono (h : s.Before made new s₁) (hnew : new ⊆ new') : s.Before made new' s₁ :=
  ⟨h.emitter, h.inRange, h.laid, fun id hid => h.within id fun hmem => hid (hnew hmem), h.keeps⟩

theorem quiet (h : s.Before made new s₁) (hquiet : s₁.Quiet) : s.Quiet :=
  ⟨h.emitter.quiet hquiet.emitter, h.inRange hquiet.inRange⟩

/-- Only the emitter acts. -/
theorem of_emitter (s : Encoder) {e : Emitter} (h : s.emitter.Before e) :
    s.Before made new { s with emitter := e } :=
  ⟨h, id, id, fun _ _ => rfl, fun h => h⟩

end Before

/-- If the second encoder is quiet, the instructions were appended between the two. -/
def Writes (s s' : Encoder) (code : List Instruction) : Prop :=
  s'.Quiet → s'.emitter.code.toList = s.emitter.code.toList ++ code

namespace Writes

theorem refl (s : Encoder) : s.Writes s [] := fun _ => (List.append_nil _).symm

theorem trans {made : List TypeDenoter} {new : Set BindingId} {s s₁ s₂ : Encoder}
    {code code' : List Instruction} (h : s.Writes s₁ code) (hbefore : s₁.Before made new s₂)
    (h' : s₁.Writes s₂ code') : s.Writes s₂ (code ++ code') := by
  intro hquiet
  rw [h' hquiet, h (hbefore.quiet hquiet), List.append_assoc]

theorem of_appends (s : Encoder) {e : Emitter} {code : List Instruction}
    (h : s.emitter.Appends e code) : s.Writes { s with emitter := e } code :=
  fun hquiet => h.code hquiet.emitter

end Writes

/-- From `s` to `s'` the jump at an address was pointed to the next instruction. -/
def Patched (s s' : Encoder) (address : Nat) : Prop :=
  ∀ {before : List Instruction} {i : Instruction} {after : List Instruction},
    s.emitter.code.toList = before ++ i :: after → address = before.length →
      s'.emitter.code.toList = before ++ { i with d := s.start } :: after

end Encoder

/-! ## Runs -/

namespace Encode

/-- The outcome of a step and the encoder after it. -/
def exec {α : Type} (m : Encode α) (s : Encoder) : Except Diagnostic α × Encoder := m.run.run s

theorem exec_pure {α : Type} (a : α) (s : Encoder) :
    (pure a : Encode α).exec s = (.ok a, s) := rfl

theorem exec_bind_eq {α β : Type} (m : Encode α) (f : α → Encode β) (s : Encoder) :
    (m >>= f).exec s = match m.exec s with
      | (.ok a, s') => (f a).exec s'
      | (.error d, s') => (.error d, s') := by
  unfold exec ExceptT.run StateT.run
  simp only [Bind.bind, ExceptT.bind, ExceptT.mk, StateT.bind, ExceptT.bindCont]
  cases m s with
  | mk outcome s₁ => cases outcome <;> rfl

theorem exec_bind {α β : Type} {m : Encode α} {f : α → Encode β} {s s' : Encoder} {a : α}
    (h : m.exec s = (.ok a, s')) : (m >>= f).exec s = (f a).exec s' := by
  rw [exec_bind_eq, h]

/-- Where both steps return, so does the first. -/
theorem exec_bind_ok {α β : Type} {m : Encode α} {f : α → Encode β} {s s'' : Encoder} {b : β}
    (h : (m >>= f).exec s = (.ok b, s'')) :
    ∃ a s', m.exec s = (.ok a, s') ∧ (f a).exec s' = (.ok b, s'') := by
  rw [exec_bind_eq] at h
  cases hm : m.exec s with
  | mk outcome s' =>
    rw [hm] at h
    cases outcome with
    | error d => cases h
    | ok a => exact ⟨a, s', rfl, h⟩

theorem exec_get_bind {β : Type} (f : Encoder → Encode β) (s : Encoder) :
    (get >>= f).exec s = (f s).exec s := rfl

theorem exec_set_bind {β : Type} (s s' : Encoder) (f : Unit → Encode β) :
    (set s' >>= f).exec s = (f ()).exec s' := rfl

/-- From `s` the step returns and reports restrictions alone, it represents no binding that is
    not in `new`, and its result and the encoder after it satisfy `Q`. -/
def Does {α : Type} (made : List TypeDenoter) (new : Set BindingId) (m : Encode α) (s : Encoder)
    (Q : α → Encoder → Prop) : Prop :=
  ∃ a s', m.exec s = (.ok a, s') ∧ s.Before made new s' ∧ Q a s'

namespace Does

variable {α β : Type} {made : List TypeDenoter} {new new' : Set BindingId} {s : Encoder}

theorem pure {a : α} {Q : α → Encoder → Prop} (h : Q a s) :
    (pure a : Encode α).Does made new s Q :=
  ⟨a, s, rfl, .refl s, h⟩

theorem bind {m : Encode α} {f : α → Encode β} {Q : α → Encoder → Prop} {R : β → Encoder → Prop}
    (hm : m.Does made new' s Q) (hnew : new' ⊆ new)
    (hf : ∀ a s', m.exec s = (.ok a, s') → s.Before made new' s' → Q a s' →
      (f a).Does made new s' R) :
    (m >>= f).Does made new s R := by
  obtain ⟨a, s₁, hexec, hbefore, hQ⟩ := hm
  obtain ⟨b, s₂, hexec', hbefore', hR⟩ := hf a s₁ hexec hbefore hQ
  exact ⟨b, s₂, (exec_bind hexec).trans hexec', (hbefore.mono hnew).trans hbefore', hR⟩

/-- A step that represents nothing comes first. -/
theorem step {m : Encode α} {f : α → Encode β} {Q : α → Encoder → Prop} {R : β → Encoder → Prop}
    (hm : m.Does made ∅ s Q)
    (hf : ∀ a s', m.exec s = (.ok a, s') → s.Before made ∅ s' → Q a s' →
      (f a).Does made new s' R) :
    (m >>= f).Does made new s R :=
  hm.bind (Set.empty_subset new) hf

theorem mono {m : Encode α} {Q R : α → Encoder → Prop} (hm : m.Does made new' s Q)
    (hnew : new' ⊆ new)
    (h : ∀ a s', m.exec s = (.ok a, s') → s.Before made new' s' → Q a s' → R a s') :
    m.Does made new s R := by
  obtain ⟨a, s₁, hexec, hbefore, hQ⟩ := hm
  exact ⟨a, s₁, hexec, hbefore.mono hnew, h a s₁ hexec hbefore hQ⟩

/-- A step that represents nothing comes last. -/
theorem last {m : Encode α} {Q R : α → Encoder → Prop} (hm : m.Does made ∅ s Q)
    (h : ∀ a s', m.exec s = (.ok a, s') → s.Before made ∅ s' → Q a s' → R a s') :
    m.Does made new s R :=
  hm.mono (Set.empty_subset new) h

end Does

/-! ## Emitting -/

variable {made : List TypeDenoter} {s : Encoder}

theorem emitting_does {act : Emitter → Emitter} {code : List Instruction}
    (h : s.emitter.Appends (act s.emitter) code) :
    (emitting act).Does made ∅ s fun _ s' => s.Writes s' code :=
  ⟨(), _, rfl, .of_emitter s h.before, .of_appends s h⟩

theorem requesting_does {act : Emitter → Except NotApplicable Emitter} {code : List Instruction}
    (h : ∃ e, act s.emitter = .ok e ∧ s.emitter.Appends e code) :
    (requesting act).Does made ∅ s fun _ s' => s.Writes s' code := by
  obtain ⟨e, hact, happends⟩ := h
  refine ⟨(), { s with emitter := e }, ?_, .of_emitter s happends.before, .of_appends s happends⟩
  unfold requesting
  rw [exec_get_bind]
  simp only [hact]
  rfl

theorem emit_does (op : OpCode) (n : Int) (r : Register) (d : Int) :
    (emit op n r d).Does made ∅ s fun _ s' => s.Writes s' [⟨op, r.number, n, d⟩] :=
  emitting_does (Emitter.emit_appends _ op n r d)

theorem emitPlain_does (op : OpCode) (n d : Int) :
    (emitPlain op n d).Does made ∅ s fun _ s' => s.Writes s' [.plain op n d] :=
  emitting_does (Emitter.emitPlain_appends _ op n d)

theorem emitPrimitive_does (p : Primitive) :
    (emitPrimitive p).Does made ∅ s fun _ s' => s.Writes s' [.primitive p] :=
  emitting_does (Emitter.emitPrimitive_appends _ p)

/-- After a restriction no encoder is quiet. -/
theorem restrict_does (message : String) :
    (emitting fun e => e.restrict message).Does made ∅ s fun _ s' => ¬ s'.Quiet :=
  ⟨(), _, rfl, .of_emitter s (Emitter.Appends.restrict s.emitter message []).before,
    fun hquiet => s.emitter.restrict_noisy message hquiet.emitter.clean⟩

theorem next_does : next.Does made ∅ s fun address s' => address = s.start ∧ s = s' :=
  ⟨_, s, rfl, .refl s, rfl, rfl⟩

/-- A jump that is patched later is written with displacement 0. -/
theorem emitForward_does (op : OpCode) (n : Int) :
    (emitForward op n).Does made ∅ s fun address s' =>
      address = s.start ∧ s.Writes s' [.plain op n 0] := by
  refine next_does.step ?_
  rintro _ _ - - ⟨rfl, rfl⟩
  refine (emit_does op n .cb 0).step ?_
  intro _ s' _ _ hwrites
  exact .pure ⟨rfl, hwrites⟩

theorem patch_does (address : Nat) :
    (patch address).Does made ∅ s fun _ s' => s.Patched s' address := by
  have hpatch : s.emitter.patch address = { s.emitter with
      code := s.emitter.code.modify address fun i => { i with d := s.emitter.next } } := by
    unfold Emitter.patch
    rw [if_neg (by omega), Int.toNat_natCast]
  have hbefore : s.emitter.Before (s.emitter.patch address) := by
    rw [hpatch]
    refine ⟨.refl _, fun hquiet => ⟨hquiet.1, hquiet.2, hquiet.3⟩, ?_, ?_, id⟩
    · intro honest hclean
      have hquiet := honest hclean
      exact ⟨hquiet.1, hquiet.2, hquiet.3⟩
    · simp
  refine ⟨(), _, rfl, .of_emitter s hbefore, ?_⟩
  intro before i after hcode hlength
  exact Emitter.patch_toList hcode hlength

theorem clampOperand_does (n : Int) (limit : Limit) :
    (clampOperand n limit).Does made ∅ s fun a s' => s.Writes s' [] ∧ (s'.Quiet → a = n) := by
  obtain ⟨happends, hn⟩ := s.emitter.clampOperand_appends n limit
  exact ⟨_, _, rfl, .of_emitter s happends.before, .of_appends s happends,
    fun hquiet => hn hquiet.emitter⟩

/-! ## Word arithmetic -/

theorem word_does (n : Int) :
    (word n).Does made ∅ s fun a s' => s.Writes s' [] ∧ (s'.Quiet → a = n) := by
  by_cases hfits : Word.Fits n
  · refine ⟨Word.clamp n, s, ?_, .refl s, .refl s, fun _ => Word.clamp_of_fits hfits⟩
    simp [word, hfits, exec_pure]
  · have hexec : (word n).exec s = (.ok (Word.clamp n), { s with outOfRange := true }) := by
      unfold word
      simp only [hfits, decide_false, Bool.not_false, if_true]
      rfl
    refine ⟨_, _, hexec, ⟨.refl _, nofun, nofun, fun _ _ => rfl, fun h => h⟩, ?_, ?_⟩
    · exact fun hquiet => absurd hquiet.inRange (by nofun)
    · exact fun hquiet => absurd hquiet.inRange (by nofun)

/-- A frame that grew without saturating has the words it should have. -/
theorem grow_does (frame : Frame) (n : Int) :
    (grow frame n).Does made ∅ s fun frame' s' => s.Writes s' [] ∧
      (s'.Quiet → frame' = ⟨frame.level, frame.size + n⟩) := by
  refine (word_does _).step ?_
  intro size s' _ _ ⟨hwrites, hsize⟩
  refine .pure ⟨hwrites, fun hquiet => ?_⟩
  rw [hsize hquiet]
  rfl

/-! ## Entities -/

/-- Recording a new binding represents it, and no other. -/
theorem bind_does {name : Name} {id : BindingId} (hname : name.binding = some id)
    (hnew : s.entities.lookup id = none) (entity : Entity) :
    (bind name entity).Does made {id} s fun _ s' =>
      s'.entities.lookup id = some entity ∧ s'.emitter.code = s.emitter.code := by
  have hself : List.lookup id ((id, entity) :: s.entities) = some entity := by
    rw [List.lookup_cons, beq_self_eq_true]
  have hother (id' : BindingId) (hne : id' ∉ ({id} : Set BindingId)) :
      List.lookup id' ((id, entity) :: s.entities) = s.entities.lookup id' := by
    rw [List.lookup_cons, beq_false_of_ne hne]
  have hkeeps {id' : BindingId} {entity' : Entity} (hat : s.entities.lookup id' = some entity') :
      List.lookup id' ((id, entity) :: s.entities) = some entity' := by
    rw [hother id' ?_, hat]
    rintro rfl
    rw [hnew] at hat
    cases hat
  cases hshow : s.showTable with
  | false =>
    have hexec : (bind name entity).exec s =
        (.ok (), { s with entities := (id, entity) :: s.entities }) := by
      unfold bind
      simp only [hname]
      rw [exec_get_bind, if_neg (by rw [hshow]; nofun)]
      rfl
    exact ⟨(), _, hexec, ⟨.refl _, fun h => h, fun h => h, hother, hkeeps⟩, hself, rfl⟩
  | true =>
    -- the line of the table is no report
    have hexec : (bind name entity).exec s = (.ok (), { s with
        emitter := { s.emitter with
          journal := s.emitter.journal.log .info entity.text [("name", name.spelling)] }
        entities := (id, entity) :: s.entities }) := by
      unfold bind
      simp only [hname]
      rw [exec_get_bind, if_pos hshow]
      rfl
    have hlog : s.emitter.Before { s.emitter with
        journal := s.emitter.journal.log .info entity.text [("name", name.spelling)] } :=
      Emitter.Before.log _ rfl
    exact ⟨(), _, hexec, ⟨hlog, fun h => h, fun h => h, hother, hkeeps⟩, hself, rfl⟩

theorem entityOf_does {name : Name} {id : BindingId} {entity : Entity}
    (hname : name.binding = some id) (hat : s.entities.lookup id = some entity) :
    (entityOf name).Does made ∅ s fun found s' => entity = found ∧ s = s' := by
  refine ⟨entity, s, ?_, .refl s, rfl, rfl⟩
  unfold entityOf
  rw [exec_get_bind, hname, Option.bind_some, hat]
  rfl

/-! ## Layout -/

/-- Asking for a size lays the type out, and logs that at most. -/
theorem sizeOf_exec (type : TypeDenoter) (s : Encoder) :
    ∃ journal : Journal, journal.diagnostics = s.emitter.journal.diagnostics ∧
      (sizeOf type).exec s = (.ok type.size,
      { s with
        emitter := { s.emitter with journal }
        layouts := (type.layOut { layouts := s.layouts }).layouts
        outOfRange := s.outOfRange || (type.layOut { layouts := s.layouts }).outOfRange }) := by
  cases hshow : s.showTable with
  | false =>
    refine ⟨s.emitter.journal, rfl, ?_⟩
    unfold sizeOf
    simp only [exec_get_bind, exec_set_bind, hshow, Bool.false_eq_true, if_false]
    rfl
  | true =>
    have hlog (journal : Journal) (types : Array TypeDenoter) :
        (types.foldl (fun journal (type : TypeDenoter) =>
          journal.log .info type.entity.text [("ty", type.text)]) journal).diagnostics =
        journal.diagnostics := by
      rw [← Array.foldl_toList]
      induction types.toList generalizing journal with
      | nil => rfl
      | cons type others ih => exact ih _
    refine ⟨_, hlog s.emitter.journal (type.layOut { layouts := s.layouts }).added, ?_⟩
    unfold sizeOf
    simp only [exec_get_bind, exec_set_bind, hshow, if_true]
    rfl

/-- The size of a known type is its own, and the type is exact once its size was asked for. -/
theorem sizeOf_does {type : TypeDenoter} (hknown : type.Known made) (hlaid : s.Laid made) :
    (sizeOf type).Does made ∅ s fun size s' => size = type.size ∧ s.Writes s' [] ∧
      (s'.Quiet → type.Exact) := by
  obtain ⟨journal, hjournal, hexec⟩ := sizeOf_exec type s
  have happends : s.emitter.Appends { s.emitter with journal } [] :=
    ⟨Emitter.Before.log s.emitter hjournal, by simp⟩
  have hout (hrange : s.outOfRange = false) :
      type.LaidOut made { layouts := s.layouts } (type.layOut { layouts := s.layouts }) :=
    hknown.layOut fun _ => hlaid hrange
  have hrange {b : Bool} (h : (s.outOfRange || b) = false) : s.outOfRange = false ∧ b = false :=
    Bool.or_eq_false_iff.1 h
  refine ⟨_, _, hexec, ⟨happends.before, fun h => (hrange h).1, ?_, fun _ _ => rfl, id⟩, rfl,
    ?_, ?_⟩
  · intro _ h
    exact (hout (hrange h).1).sound (hrange h).2
  · intro hquiet
    exact happends.code hquiet.emitter
  · intro hquiet
    have h := hrange hquiet.inRange
    exact (hout h.1).exact h.2

theorem sizeOf?_does {type : TypeDenoter} (hknown : type.Known made) (hlaid : s.Laid made)
    (span : Span) :
    (sizeOf? (some type) span).Does made ∅ s fun size s' => size = type.size ∧ s.Writes s' [] ∧
      (s'.Quiet → type.Exact) :=
  sizeOf_does hknown hlaid

/-- The offset of a field that a record has, which is its position if the record is exact. -/
theorem fieldOffset_does {record : Vname} {field : Name} {serial : Nat} {span : Span}
    {fields : Fields} {fieldType : TypeDenoter}
    (htype : record.type = some (.record serial span fields))
    (hfind : fields.find? field.spelling = some fieldType)
    (hknown : (TypeDenoter.record serial span fields).Known made) (hlaid : s.Laid made) :
    (fieldOffset record field).Does made ∅ s fun offset s' => s.Writes s' [] ∧
      (s'.Quiet → fields.position? field.spelling = some offset) := by
  obtain ⟨offset, hoffset⟩ := Fields.isSome_offset? hfind 0
  unfold fieldOffset
  rw [htype]
  refine (sizeOf_does hknown hlaid).step ?_
  intro _ s' _ _ ⟨_, hwrites, hexact⟩
  have hfield : (TypeDenoter.record serial span fields).fieldOffset? field.spelling =
      some offset := hoffset
  rw [hfield]
  refine .pure ⟨hwrites, fun hquiet => ?_⟩
  have hrecord : fields.Exact 0 := hexact hquiet
  rw [hrecord.offset?_eq] at hoffset
  simpa using hoffset

/-! ## Storage -/

theorem fetch_does {entity : Entity} (h : entity.IsValue) (access : Access) (frame : Frame)
    (size : Int) :
    (fetch (entity, access) frame size).Does made ∅ s fun _ s' =>
      s.Writes s' (entity.fetchCode frame size access) := by
  refine (clampOperand_does size .loadLength).step ?_
  intro size' s₁ _ _ ⟨hwrites, hsize⟩
  refine (requesting_does (entity.fetch_appends h frame size' access s₁.emitter)).last ?_
  intro _ s₂ _ hbefore hwrites' hquiet
  rw [hwrites.trans hbefore hwrites' hquiet, hsize (hbefore.quiet hquiet), List.nil_append]

theorem store_does {entity : Entity} (h : entity.IsVariable) (access : Access) (frame : Frame)
    (size : Int) :
    (store (entity, access) frame size).Does made ∅ s fun _ s' =>
      s.Writes s' (entity.storeCode frame size access) := by
  refine (clampOperand_does size .storeLength).step ?_
  intro size' s₁ _ _ ⟨hwrites, hsize⟩
  refine (requesting_does (entity.store_appends h frame size' access s₁.emitter)).last ?_
  intro _ s₂ _ hbefore hwrites' hquiet
  rw [hwrites.trans hbefore hwrites' hquiet, hsize (hbefore.quiet hquiet), List.nil_append]

theorem fetchAddress_does {entity : Entity} (h : entity.IsVariable) (access : Access)
    (frame : Frame) :
    (fetchAddress (entity, access) frame).Does made ∅ s fun _ s' =>
      s.Writes s' (entity.addressCode frame access) :=
  requesting_does (entity.fetchAddress_appends h frame access s.emitter)

end Encode

end TriangleTam
