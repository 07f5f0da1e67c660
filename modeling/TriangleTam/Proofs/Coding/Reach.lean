import TriangleTam.Proofs.Coding.Relation
import TriangleTam.Proofs.Coding.Requests
import TriangleTam.Proofs.Coding.Runs
import TriangleTam.Proofs.Scoping.Levels

/-! # Static links within reach

  Code reaches data of another level through as many static links as the
  levels are apart. Entities have the level of the routine that introduces
  them, and names are used at their own level or deeper ones alone, so the
  links lead outwards, and never further than there are levels.

  The levels that a display register is asked for are **noted**: an assembler
  does what the encoder does, and takes these notes.
-/

namespace TriangleTam

/-! ## Reports -/

theorem Limit.eq_of_message : ∀ {limit limit' : Limit}, limit.message = limit'.message →
    limit = limit' := by
  intro limit limit' h
  cases limit <;> cases limit' <;> first | rfl | exact absurd h (by decide)

/-- Since the journal nothing was reported to be out of reach. -/
def Emitter.Silent (journal : Journal) (e : Emitter) : Prop :=
  ∃ added, e.journal.diagnostics = journal.diagnostics ++ added ∧
    .ofRestriction Limit.displayReach.message ∉ added

/-- Code in a frame of one level reaches data of another. -/
structure Reach where
  frame : Nat
  data  : Nat
  deriving DecidableEq

/-- The data is further out, and there are not too many levels. -/
def Reach.Near (reach : Reach) : Prop :=
  reach.data ≤ reach.frame ∧ reach.frame ≤ Machine.maxRoutineLevel

instance (reach : Reach) : Decidable reach.Near := inferInstanceAs (Decidable (_ ∧ _))

/-- Near data is in reach. -/
theorem Reach.Near.displayRegister_eq {frame : Frame} {level : Nat}
    (h : Reach.Near ⟨frame.level, level⟩) (e : Emitter) :
    (e.displayRegister frame level).2 = e := by
  obtain ⟨hle, hmax⟩ : level ≤ frame.level ∧ frame.level ≤ 7 := h
  unfold Emitter.displayRegister
  by_cases hlevel : level = 0
  · rw [if_pos hlevel]
  · have hlevels : ¬ frame.level - level > Machine.maxLevelsOut := by
      show ¬ frame.level - level > 6
      omega
    rw [if_neg hlevel]
    exact if_neg hlevels

namespace Emitter.Silent

variable {journal : Journal} {e : Emitter}

theorem refl (journal : Journal) : Silent journal (.ofJournal journal) :=
  ⟨#[], Array.append_empty.symm, Array.not_mem_empty _⟩

theorem of_diagnostics {e' : Emitter} (h : e.Silent journal)
    (heq : e'.journal.diagnostics = e.journal.diagnostics) : e'.Silent journal := by
  unfold Silent
  rw [heq]
  exact h

theorem restrict (h : e.Silent journal) {limit : Limit} (hlimit : limit ≠ .displayReach) :
    (e.restrict limit.message).Silent journal := by
  obtain ⟨added, hadded, hnot⟩ := h
  refine ⟨added.push (.ofRestriction limit.message), ?_, fun hmem => ?_⟩
  · show e.journal.diagnostics.push _ = _
    rw [hadded, Array.append_push]
  · rcases Array.mem_push.1 hmem with hmem | heq
    · exact hnot hmem
    · exact hlimit (Limit.eq_of_message (congrArg Diagnostic.template heq.symm))

theorem restrictAddress (h : e.Silent journal) : e.restrictAddress.Silent journal := by
  unfold Emitter.restrictAddress
  split
  · exact h
  · have hlimit : Limit.word ≠ .displayReach := by decide
    exact h.restrict hlimit

theorem restrictCode (h : e.Silent journal) : e.restrictCode.Silent journal := by
  unfold Emitter.restrictCode
  split
  · exact h
  · have hlimit : Limit.codeStore ≠ .displayReach := by decide
    exact h.restrict hlimit

theorem clampOperand (h : e.Silent journal) (n : Int) {limit : Limit}
    (hlimit : limit ≠ .displayReach) : (e.clampOperand n limit).2.Silent journal := by
  unfold Emitter.clampOperand
  split
  · exact h.restrict hlimit
  · exact h

theorem emit (h : e.Silent journal) {op : OpCode} {n : Int} {r : Register} {d : Int} :
    (e.emit op n r d).Silent journal := by
  unfold Emitter.emit
  have hlimit : Limit.operandLength ≠ .displayReach := by decide
  have hclamped := h.clampOperand n hlimit
  dsimp only
  split
  · exact hclamped
  · exact hclamped.restrictCode

theorem emitPlain (h : e.Silent journal) {op : OpCode} {n d : Int} :
    (e.emitPlain op n d).Silent journal := h.emit

theorem patch (h : e.Silent journal) (address : Int) : (e.patch address).Silent journal := by
  unfold Emitter.patch
  split
  · exact h
  · exact h

theorem displayRegister (h : e.Silent journal) {frame : Frame} {level : Nat}
    (hnear : Reach.Near ⟨frame.level, level⟩) :
    (e.displayRegister frame level).2.Silent journal := by
  rw [hnear.displayRegister_eq]
  exact h

theorem displace (h : e.Silent journal) {address : Address} {access : Access} :
    (e.displace address access).2.Silent journal := by
  unfold Emitter.displace
  dsimp only
  split
  · exact h
  · exact h.restrictAddress

end Emitter.Silent

/-! ## Requests -/

/-- If the request is for a display register, the data is near. -/
def Request.Near : Request → Prop
  | .register frame level => Reach.Near ⟨frame.level, level⟩
  | _ => True

namespace Emitter.Silent

variable {journal : Journal} {e : Emitter}

theorem serve (h : e.Silent journal) {request : Request} (hnear : request.Near) :
    (e.serve request).Silent journal := by
  cases request with
  | register frame level => exact h.displayRegister hnear
  | emit op n r d => exact h.emit
  | place op n r address access => exact h.displace.emit

theorem serveAll {requests : List Request} (hnear : ∀ request ∈ requests, request.Near)
    (h : e.Silent journal) : (e.serveAll requests).Silent journal := by
  induction requests generalizing e with
  | nil => exact h
  | cons request requests ih =>
    obtain ⟨hfirst, hrest⟩ := List.forall_mem_cons.1 hnear
    exact ih hrest (h.serve hfirst)

end Emitter.Silent

/-! ## Entities -/

namespace Entity

/-- The display register that code in a frame asks for, to use the entity. -/
def reaches (entity : Entity) (frame : Frame) : List Reach :=
  match entity.level? with
  | some level => [⟨frame.level, level⟩]
  | none => []

theorem LocalTo.level?_eq {entity : Entity} {level : Nat} (h : entity.LocalTo level) :
    ∀ level', entity.level? = some level' → level' = level := by
  cases entity <;> first | exact h.elim | (rintro _ ⟨⟩ <;> exact h)

variable {entity : Entity} {frame : Frame} {e e' : Emitter} {journal : Journal}

/-- What an entity asks for is near. -/
def Near (entity : Entity) (frame : Frame) : Prop := ∀ reach ∈ entity.reaches frame, reach.Near

/-- An entity of an outer level is near. -/
theorem Near.of_level (hlevel : frame.level ≤ Machine.maxRoutineLevel)
    (h : ∀ level, entity.level? = some level → level ≤ frame.level) : entity.Near frame := by
  intro reach hmem
  unfold reaches at hmem
  cases hat : entity.level? with
  | none =>
    rw [hat] at hmem
    exact absurd hmem List.not_mem_nil
  | some level =>
    rw [hat] at hmem
    obtain rfl := List.mem_singleton.1 hmem
    exact ⟨h level hat, hlevel⟩

/-- All that a near entity asks for is near. -/
theorem Near.admits (h : entity.Near frame) : entity.AdmitsEntry frame Request.Near where
  register level hlevel := by
    refine h _ ?_
    unfold reaches
    rw [hlevel]
    exact List.mem_singleton_self _
  line _ _ _ _ _ _ := trivial
  place _ _ _ _ _ _ _ := trivial
  entry _ _ _ _ _ _ := trivial

theorem Asks.silent {act : Emitter → Except NotApplicable Emitter}
    {requests : Option (List Request)} (hasks : Asks act requests)
    (hnear : ∀ {made}, requests = some made → ∀ request ∈ made, request.Near)
    (h : e.Silent journal) (hact : act e = .ok e') : e'.Silent journal := by
  obtain ⟨made, hmade, rfl⟩ := hasks e e' hact
  exact h.serveAll (hnear hmade)

end Entity

end TriangleTam
