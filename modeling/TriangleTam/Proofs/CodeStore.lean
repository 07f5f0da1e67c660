import Mathlib.Data.List.Induction
import TriangleTam.Code.Encode
import TriangleTam.Proofs.Coding.Emission

/-! # The code store

  What a sequence of calls makes of a new emitter, whatever the calls are and
  in whatever order they come. Code is appended to until the store is full,
  and a patch changes the displacement of one stored instruction. Every
  restriction that is reported belongs to one of the calls.

  The proof reads the state of the emitter off the calls made so far. One
  more call keeps that so (`Reflects.after`), hence all calls do.
-/

namespace TriangleTam

/-! ## Calls -/

/-- A call of the emitter. -/
inductive EmitterCall
  | emit (op : OpCode) (n : Int) (r : Register) (d : Int)
  /-- Append an instruction that ignores its register. -/
  | emitPlain (op : OpCode) (n d : Int)
  | emitPrimitive (primitive : Primitive)
  | patch (address : Int)
  /-- Report a message of the caller's. -/
  | restrict (message : String)
  /-- Report that a size or a displacement is no word. -/
  | restrictAddress
  deriving DecidableEq, Repr

/-- Why a call reports a restriction. -/
inductive Complaint
  | limit (which : Limit)
  /-- The caller says why. -/
  | passed (message : String)
  deriving DecidableEq, Repr

namespace Complaint

def message : Complaint → String
  | limit which => which.message
  | passed message => message

/-- The message of the caller's. -/
def passed? : Complaint → Option String
  | limit _ => none
  | passed message => some message

end Complaint

namespace EmitterCall

/-- The instruction that the call asks for, if it asks for one. -/
def instruction? : EmitterCall → Option Instruction
  | emit op n r d => some ⟨op, r.number, n, d⟩
  | emitPlain op n d => some (.plain op n d)
  | emitPrimitive primitive => some (.primitive primitive)
  | patch _ | restrict _ | restrictAddress => none

/-- The message that the caller passes, if there is one. -/
def message? : EmitterCall → Option String
  | restrict message => some message
  | emit .. | emitPlain .. | emitPrimitive _ | patch _ | restrictAddress => none

/-- The instructions that the calls ask for. -/
def asked (calls : List EmitterCall) : List Instruction := calls.filterMap instruction?

/-- The address that the next instruction gets after the calls. -/
def nextAddress (calls : List EmitterCall) : Int :=
  (min (asked calls).length Machine.codeStoreSize : Nat)

/-- Of the patches of address `k` with the instruction in the store, the last one comes right
    behind the `earlier` calls. -/
def LastPatch (calls : List EmitterCall) (k : Nat) (earlier : List EmitterCall) : Prop :=
  k < (asked earlier).length ∧
    ∃ later, calls = earlier ++ patch k :: later ∧ patch k ∉ later

/-- What appending an instruction with the size operand `n` gives reason for, when `earlier` calls
    have been made. -/
def appendComplaints (earlier : List EmitterCall) (n : Int) : List Complaint :=
  (if n > Machine.maxOperandSize then [.limit .operandLength] else []) ++
    if (asked earlier).length = Machine.codeStoreSize then [.limit .codeStore] else []

/-- What a call gives reason for, when `earlier` calls have been made. -/
def complaints (earlier : List EmitterCall) : EmitterCall → List Complaint
  | emit _ n _ _ | emitPlain _ n _ => appendComplaints earlier n
  | emitPrimitive _ => appendComplaints earlier Register.sb.number
  | patch _ => []
  | restrict message => [.passed message]
  | restrictAddress => if restrictAddress ∈ earlier then [] else [.limit .word]

/-- What calls give reason for, one after the other, when `earlier` calls have been made. -/
def complaintsFrom (earlier : List EmitterCall) : List EmitterCall → List Complaint
  | [] => []
  | call :: calls => call.complaints earlier ++ complaintsFrom (earlier ++ [call]) calls

end EmitterCall

namespace Emitter

/-- The emitter after a call. -/
def after (e : Emitter) : EmitterCall → Emitter
  | .emit op n r d => e.emit op n r d
  | .emitPlain op n d => e.emitPlain op n d
  | .emitPrimitive primitive => e.emitPrimitive primitive
  | .patch address => e.patch address
  | .restrict message => e.restrict message
  | .restrictAddress => e.restrictAddress

/-- The emitter after calls, one after the other. -/
def afterAll (e : Emitter) (calls : List EmitterCall) : Emitter := calls.foldl after e

/-- A call that appends answers with the address that the next instruction had before. -/
def answer? (e : Emitter) (call : EmitterCall) : Option Int :=
  call.instruction?.map fun _ => e.next

/-- What calls answer, one after the other. -/
def answers (e : Emitter) : List EmitterCall → List Int
  | [] => []
  | call :: calls => (e.answer? call).toList ++ (e.after call).answers calls

end Emitter

/-- A forward jump of the encoder is a call that appends, and what it returns is the answer. -/
theorem Encode.exec_emitForward (op : OpCode) (n : Int) (s : Encoder) :
    (Encode.emitForward op n).run.run s =
      (.ok s.emitter.next, { s with emitter := s.emitter.after (.emit op n .cb 0) }) ∧
    s.emitter.answer? (.emit op n .cb 0) = some s.emitter.next := ⟨rfl, rfl⟩

/-! ## Histories -/

namespace EmitterCall

variable {calls earlier : List EmitterCall} {call : EmitterCall} {i : Instruction} {k : Nat}

theorem asked_append (calls calls' : List EmitterCall) :
    asked (calls ++ calls') = asked calls ++ asked calls' := List.filterMap_append

theorem asked_concat (h : call.instruction? = some i) :
    asked (calls ++ [call]) = asked calls ++ [i] := by
  rw [asked_append, asked, asked, List.filterMap_cons_some h]
  rfl

theorem asked_concat_none (h : call.instruction? = none) :
    asked (calls ++ [call]) = asked calls := by
  rw [asked_append, asked, asked, List.filterMap_cons_none h]
  exact List.append_nil _

theorem complaints_of_instruction? (h : call.instruction? = some i) :
    call.complaints earlier = appendComplaints earlier i.n := by
  cases call <;> cases h <;> rfl

theorem complaintsFrom_append (earlier calls calls' : List EmitterCall) :
    complaintsFrom earlier (calls ++ calls') =
      complaintsFrom earlier calls ++ complaintsFrom (earlier ++ calls) calls' := by
  induction calls generalizing earlier with
  | nil => rw [List.append_nil]; rfl
  | cons call calls ih =>
    simp only [List.cons_append, complaintsFrom, ih, List.append_assoc, List.nil_append]

theorem complaintsFrom_concat (calls : List EmitterCall) (call : EmitterCall) :
    complaintsFrom [] (calls ++ [call]) = complaintsFrom [] calls ++ call.complaints calls := by
  rw [complaintsFrom_append, List.nil_append, complaintsFrom, complaintsFrom, List.append_nil]

/-- A call that is no patch of the address is none of its last patch. -/
theorem lastPatch_concat_of_ne (h : call ≠ patch k) :
    LastPatch (calls ++ [call]) k earlier ↔ LastPatch calls k earlier := by
  refine and_congr_right fun _ => ⟨?_, ?_⟩
  · rintro ⟨later, heq, hlater⟩
    rcases later.eq_nil_or_concat with rfl | ⟨front, last, rfl⟩
    · exact absurd (List.append_inj_right' heq rfl) (by simpa using h)
    · rw [List.concat_eq_append, ← List.cons_append, ← List.append_assoc] at heq
      rw [List.concat_eq_append] at hlater
      exact ⟨front, List.append_inj_left' heq rfl, fun hmem => hlater (List.mem_append_left _ hmem)⟩
  · rintro ⟨later, rfl, hlater⟩
    refine ⟨later ++ [call], by simp, fun hmem => ?_⟩
    rcases List.mem_append.1 hmem with hmem | hmem
    · exact hlater hmem
    · exact h (List.mem_singleton.1 hmem).symm

/-- A patch of an address that is in the store is the last one. -/
theorem lastPatch_concat_self (hk : k < (asked calls).length) :
    LastPatch (calls ++ [patch k]) k earlier ↔ earlier = calls := by
  constructor
  · rintro ⟨-, later, heq, hlater⟩
    rcases later.eq_nil_or_concat with rfl | ⟨front, last, rfl⟩
    · exact (List.append_inj_left' heq rfl).symm
    · rw [List.concat_eq_append, ← List.cons_append, ← List.append_assoc] at heq
      obtain rfl : patch k = last := List.cons.inj (List.append_inj_right' heq rfl) |>.1
      exact absurd (by simp) hlater
  · rintro rfl
    exact ⟨hk, [], rfl, List.not_mem_nil⟩

/-- Before an address is in the store, no patch of it counts. -/
theorem not_lastPatch (h : (asked calls).length ≤ k) : ¬ LastPatch calls k earlier := by
  rintro ⟨hk, later, rfl, -⟩
  rw [asked_append, List.length_append] at h
  omega

end EmitterCall

/-! ## One call -/

/-- The diagnostic that a complaint becomes. -/
def Complaint.diagnostic (complaint : Complaint) : Diagnostic := .ofRestriction complaint.message

namespace Emitter

variable {e : Emitter} {call : EmitterCall} {i : Instruction}

/-- What was reported so far, oldest first. -/
def reports (e : Emitter) : List Diagnostic := e.journal.diagnostics.toList

@[simp] theorem reports_restrict (e : Emitter) (message : String) :
    (e.restrict message).reports = e.reports ++ [.ofRestriction message] := by
  simp [reports, restrict, report, Journal.report]

/-- Append an instruction where there is room for it. -/
def put (e : Emitter) (i : Instruction) : Emitter :=
  if e.code.size < Machine.codeStoreSize then { e with code := e.code.push i } else e.restrictCode

/-- The emitter with a restriction, if the size operand is too great. -/
def restrictOperand (e : Emitter) (n : Int) : Emitter :=
  if n > Machine.maxOperandSize then e.restrict Limit.operandLength.message else e

/-- The size operand is seen to before the room in the store. -/
theorem after_of_instruction? (h : call.instruction? = some i) :
    e.after call = (e.restrictOperand i.n).put { i with n := min i.n Machine.maxOperandSize } := by
  have hemit (op : OpCode) (n : Int) (r : Register) (d : Int) : e.emit op n r d =
      (e.restrictOperand n).put ⟨op, r.number, min n Machine.maxOperandSize, d⟩ := by
    unfold emit clampOperand restrictOperand
    by_cases hn : n > Machine.maxOperandSize
    · rw [if_pos hn, if_pos hn, Int.min_eq_right (Int.le_of_lt hn)]
      rfl
    · rw [if_neg hn, if_neg hn, Int.min_eq_left (Int.not_lt.1 hn)]
      rfl
  cases call with
  | emit op n r d => cases h; exact hemit op n r d
  | emitPlain op n d => cases h; exact hemit op n .cb d
  | emitPrimitive p => cases h; exact hemit .call Register.sb.number .pb p.displacement
  | patch | restrict | restrictAddress => cases h

@[simp] theorem restrictOperand_code (e : Emitter) (n : Int) :
    (e.restrictOperand n).code = e.code := by
  unfold restrictOperand; split <;> rfl

@[simp] theorem restrictOperand_full (e : Emitter) (n : Int) :
    (e.restrictOperand n).full = e.full := by
  unfold restrictOperand; split <;> rfl

@[simp] theorem restrictOperand_unaddressable (e : Emitter) (n : Int) :
    (e.restrictOperand n).unaddressable = e.unaddressable := by
  unfold restrictOperand; split <;> rfl

theorem restrictOperand_reports (e : Emitter) (n : Int) : (e.restrictOperand n).reports =
    e.reports ++ (if n > Machine.maxOperandSize then [Complaint.limit .operandLength] else []).map
      Complaint.diagnostic := by
  unfold restrictOperand
  split
  · exact reports_restrict _ _
  · exact (List.append_nil _).symm

theorem put_code (e : Emitter) (i : Instruction) : (e.put i).code =
    if e.code.size < Machine.codeStoreSize then e.code.push i else e.code := by
  unfold put restrictCode
  split
  · rfl
  · split <;> rfl

theorem put_full (e : Emitter) (i : Instruction) :
    (e.put i).full = (e.full || decide (Machine.codeStoreSize ≤ e.code.size)) := by
  unfold put restrictCode
  split
  · next hroom => rw [decide_eq_false (by omega), Bool.or_false]
  · next hroom =>
    rw [decide_eq_true (by omega), Bool.or_true]
    split
    · assumption
    · rfl

@[simp] theorem put_unaddressable (e : Emitter) (i : Instruction) :
    (e.put i).unaddressable = e.unaddressable := by
  unfold put restrictCode
  split
  · rfl
  · split <;> rfl

theorem put_reports (e : Emitter) (i : Instruction) : (e.put i).reports =
    e.reports ++ (if Machine.codeStoreSize ≤ e.code.size ∧ e.full = false
      then [Complaint.limit .codeStore] else []).map Complaint.diagnostic := by
  unfold put restrictCode
  split
  · next hroom =>
    rw [if_neg (by omega)]
    exact (List.append_nil _).symm
  · next hroom =>
    split
    · next hfull =>
      rw [if_neg (by simp [hfull])]
      exact (List.append_nil _).symm
    · next hfull =>
      rw [if_pos ⟨by omega, Bool.eq_false_iff.2 hfull⟩]
      exact reports_restrict _ _

@[simp] theorem patch_size (e : Emitter) (address : Int) :
    (e.patch address).code.size = e.code.size := by
  unfold patch
  split
  · rfl
  · exact Array.size_modify

/-- A patch changes the displacement at its address alone. -/
theorem patch_getElem? (e : Emitter) (address : Int) (k : Nat) : (e.patch address).code[k]? =
    (e.code[k]?).map fun i => if address = k then { i with d := e.next } else i := by
  unfold patch
  split
  · next hneg =>
    have hne : address ≠ k := by omega
    simp [hne]
  · next hneg =>
    have hsame : address.toNat = k ↔ address = k := by omega
    dsimp only
    rw [Array.getElem?_modify]
    simp only [hsame]
    split
    · rfl
    · simp

/-- A patch of no stored instruction changes nothing. -/
theorem patch_eq_self {address : Int} (h : ∀ k : Nat, k < e.code.size → address ≠ k) :
    e.patch address = e := by
  have hcode : (e.patch address).code = e.code := by
    refine Array.ext_getElem? fun k => ?_
    rw [patch_getElem?]
    by_cases hk : k < e.code.size
    · simp [h k hk]
    · rw [Array.getElem?_eq_none (Nat.not_lt.1 hk)]
      rfl
  unfold patch at hcode ⊢
  split
  · rfl
  · next hneg =>
    rw [if_neg hneg] at hcode
    dsimp only at hcode
    rw [hcode]

end Emitter

/-! ## Runs -/

/-- The emitter is what the calls make of a new one with the journal, as far as the calls tell. -/
structure Emitter.Reflects (journal : Journal) (calls : List EmitterCall) (e : Emitter) : Prop where
  next          : e.next = EmitterCall.nextAddress calls
  stored        : ∀ k i, e.code[k]? = some i → ∃ i', (EmitterCall.asked calls)[k]? = some i' ∧
    i.op = i'.op ∧ i.r = i'.r ∧ i.n = min i'.n Machine.maxOperandSize ∧
    (∀ earlier, EmitterCall.LastPatch calls k earlier →
      i.d = EmitterCall.nextAddress earlier) ∧
    ((∀ earlier, ¬ EmitterCall.LastPatch calls k earlier) → i.d = i'.d)
  full          : e.full = decide (Machine.codeStoreSize < (EmitterCall.asked calls).length)
  unaddressable : e.unaddressable = decide (.restrictAddress ∈ calls)
  reports       : e.reports = journal.diagnostics.toList ++
    (EmitterCall.complaintsFrom [] calls).map Complaint.diagnostic

namespace Emitter.Reflects

variable {journal : Journal} {calls : List EmitterCall} {e e' : Emitter} {call : EmitterCall}
  {i : Instruction}

theorem nil (journal : Journal) : Reflects journal [] (.ofJournal journal) where
  next := rfl
  stored k i h := by cases h
  full := rfl
  unaddressable := rfl
  reports := (List.append_nil _).symm

theorem size_eq (h : Reflects journal calls e) :
    e.code.size = min (EmitterCall.asked calls).length Machine.codeStoreSize :=
  Int.ofNat.inj h.next

/-- An instruction that is in the store stays there when more is asked for. -/
theorem stored_append (h : Reflects journal calls e) {k : Nat} {i' : Instruction}
    (hat : e.code[k]? = some i') (new : List Instruction) :
    ∃ asked, (EmitterCall.asked calls ++ new)[k]? = some asked ∧ i'.op = asked.op ∧
      i'.r = asked.r ∧ i'.n = min asked.n Machine.maxOperandSize ∧
      (∀ earlier, EmitterCall.LastPatch calls k earlier →
        i'.d = EmitterCall.nextAddress earlier) ∧
      ((∀ earlier, ¬ EmitterCall.LastPatch calls k earlier) → i'.d = asked.d) := by
  obtain ⟨asked, hasked, hrest⟩ := h.stored k i' hat
  obtain ⟨hk, -⟩ := List.getElem?_eq_some_iff.1 hasked
  exact ⟨asked, (List.getElem?_append_left hk).trans hasked, hrest⟩

/-- A call that appends. -/
theorem append (h : Reflects journal calls e) (hcall : call.instruction? = some i) :
    Reflects journal (calls ++ [call]) (e.after call) := by
  have hsize := h.size_eq
  have hasked : EmitterCall.asked (calls ++ [call]) = EmitterCall.asked calls ++ [i] :=
    EmitterCall.asked_concat hcall
  have hlength : (EmitterCall.asked (calls ++ [call])).length =
      (EmitterCall.asked calls).length + 1 := by rw [hasked]; simp
  have hpatch (k : Nat) : call ≠ .patch k := by rintro rfl; cases hcall
  rw [Emitter.after_of_instruction? hcall]
  refine ⟨?_, fun k i' hat => ?_, ?_, ?_, ?_⟩
  · unfold Emitter.next EmitterCall.nextAddress
    rw [put_code, restrictOperand_code, hlength]
    split
    · rw [Array.size_push]; omega
    · omega
  · simp only [EmitterCall.lastPatch_concat_of_ne (hpatch k), hasked]
    rw [put_code, restrictOperand_code] at hat
    split at hat
    · next hroom =>
      rw [Array.getElem?_push] at hat
      split at hat
      · next hk =>
        -- the new instruction comes behind the others, and was not patched yet
        obtain rfl := Option.some.inj hat
        have hend : k = (EmitterCall.asked calls).length := by omega
        refine ⟨i, ?_, rfl, rfl, rfl, fun earlier hlast => ?_, fun _ => rfl⟩
        · rw [hend, List.getElem?_concat_length]
        · exact absurd hlast (EmitterCall.not_lastPatch (Nat.le_of_eq hend.symm))
      · exact h.stored_append hat [i]
    · exact h.stored_append hat [i]
  · rw [put_full, restrictOperand_full, restrictOperand_code, h.full, hlength, ← Bool.decide_or]
    exact decide_eq_decide.2 (by omega)
  · have hne : EmitterCall.restrictAddress ≠ call := by rintro rfl; cases hcall
    rw [put_unaddressable, restrictOperand_unaddressable, h.unaddressable]
    simp [hne]
  · have hfirst : (Machine.codeStoreSize ≤ e.code.size ∧ e.full = false) ↔
        (EmitterCall.asked calls).length = Machine.codeStoreSize := by
      rw [h.full, decide_eq_false_iff_not]
      omega
    rw [put_reports, restrictOperand_reports, restrictOperand_code, restrictOperand_full,
      h.reports, EmitterCall.complaintsFrom_concat, EmitterCall.complaints_of_instruction? hcall,
      EmitterCall.appendComplaints]
    simp only [hfirst, List.map_append, List.append_assoc]

/-- A call that leaves the code as it is. -/
theorem report (h : Reflects journal calls e) (hcall : call.instruction? = none)
    (hpatch : ∀ k : Nat, call ≠ .patch k) (hcode : e'.code = e.code) (hfull : e'.full = e.full)
    (hrange : e'.unaddressable = (e.unaddressable || decide (.restrictAddress = call)))
    (hreports : e'.reports = e.reports ++ (call.complaints calls).map Complaint.diagnostic) :
    Reflects journal (calls ++ [call]) e' := by
  have hasked : EmitterCall.asked (calls ++ [call]) = EmitterCall.asked calls :=
    EmitterCall.asked_concat_none hcall
  refine ⟨?_, fun k i hat => ?_, ?_, ?_, ?_⟩
  · unfold Emitter.next EmitterCall.nextAddress
    rw [hcode, hasked]
    exact h.next
  · simp only [EmitterCall.lastPatch_concat_of_ne (hpatch k), hasked]
    exact h.stored k i (hcode ▸ hat)
  · rw [hfull, hasked, h.full]
  · rw [hrange, h.unaddressable, ← Bool.decide_or]
    exact decide_eq_decide.2 (by simp)
  · rw [hreports, h.reports, EmitterCall.complaintsFrom_concat, List.map_append, List.append_assoc]

/-- A patch. -/
theorem patch (h : Reflects journal calls e) (address : Int) :
    Reflects journal (calls ++ [.patch address]) (e.patch address) := by
  have hasked : EmitterCall.asked (calls ++ [.patch address]) = EmitterCall.asked calls :=
    EmitterCall.asked_concat_none rfl
  -- nothing is reported, and no instruction is asked for
  have hrest : (e.patch address).full = e.full ∧
      (e.patch address).unaddressable = e.unaddressable ∧
      (e.patch address).reports = e.reports := by
    unfold Emitter.patch
    split <;> exact ⟨rfl, rfl, rfl⟩
  -- the goals are the fields of `Reflects`, in their order
  refine ⟨?_, fun k i hat => ?_, ?_, ?_, ?_⟩
  · unfold Emitter.next EmitterCall.nextAddress
    rw [patch_size, hasked]
    exact h.next
  · rw [patch_getElem?] at hat
    obtain ⟨i', hat', rfl⟩ := Option.map_eq_some_iff.1 hat
    obtain ⟨asked, hasked', hop, hr, hn, hlast, hd⟩ := h.stored k i' hat'
    rw [hasked]
    by_cases haddress : address = k
    · -- this patch is the last one, and it comes behind all calls before
      subst haddress
      obtain ⟨hk, -⟩ := List.getElem?_eq_some_iff.1 hasked'
      simp only [EmitterCall.lastPatch_concat_self hk, if_true]
      refine ⟨asked, hasked', hop, hr, hn, fun earlier heq => ?_, fun hno => ?_⟩
      · rw [heq]
        exact h.next
      · exact absurd rfl (hno calls)
    · have hne : EmitterCall.patch address ≠ .patch k := fun heq =>
        haddress (EmitterCall.patch.inj heq)
      simp only [EmitterCall.lastPatch_concat_of_ne hne, if_neg haddress]
      exact ⟨asked, hasked', hop, hr, hn, hlast, hd⟩
  · rw [hrest.1, hasked, h.full]
  · rw [hrest.2.1, h.unaddressable]
    simp
  · rw [hrest.2.2, h.reports, EmitterCall.complaintsFrom_concat, EmitterCall.complaints,
      List.append_nil]

theorem restrictAddress (h : Reflects journal calls e) :
    Reflects journal (calls ++ [.restrictAddress]) e.restrictAddress := by
  have hflag : e.unaddressable = true ↔ EmitterCall.restrictAddress ∈ calls := by
    rw [h.unaddressable, decide_eq_true_iff]
  refine h.report rfl nofun (code_restrictAddress e) ?_ ?_ ?_
  · unfold Emitter.restrictAddress
    split <;> rfl
  · unfold Emitter.restrictAddress
    split
    · next hrange => simpa using hrange
    · simp
  · unfold Emitter.restrictAddress EmitterCall.complaints
    simp only [← hflag]
    split
    · exact (List.append_nil _).symm
    · exact reports_restrict _ _

/-- One more call. -/
theorem after (h : Reflects journal calls e) (call : EmitterCall) :
    Reflects journal (calls ++ [call]) (e.after call) := by
  cases call with
  | emit | emitPlain | emitPrimitive => exact h.append rfl
  | patch address => exact h.patch address
  | restrict message =>
    exact h.report rfl nofun rfl rfl (Bool.or_false _).symm (reports_restrict e message)
  | restrictAddress => exact h.restrictAddress

/-- All calls. -/
theorem afterAll (journal : Journal) (calls : List EmitterCall) :
    Reflects journal calls ((Emitter.ofJournal journal).afterAll calls) := by
  induction calls using List.reverseRecOn with
  | nil => exact nil journal
  | append_singleton calls call ih =>
    unfold Emitter.afterAll
    rw [List.foldl_append]
    exact ih.after call

end Emitter.Reflects

theorem Emitter.answers_append (e : Emitter) (calls calls' : List EmitterCall) :
    e.answers (calls ++ calls') = e.answers calls ++ (e.afterAll calls).answers calls' := by
  induction calls generalizing e with
  | nil => rfl
  | cons call calls ih =>
    simp only [List.cons_append, answers, ih, List.append_assoc]
    rfl

/-- The `k`-th instruction that is asked for is put where `k` instructions are before it, and behind
    the last one where the store is full. -/
theorem Emitter.answers_eq (journal : Journal) (calls : List EmitterCall) :
    (Emitter.ofJournal journal).answers calls =
      (List.range (EmitterCall.asked calls).length).map fun k =>
        ((min k Machine.codeStoreSize : Nat) : Int) := by
  induction calls using List.reverseRecOn with
  | nil => rfl
  | append_singleton calls call ih =>
    have hnext := (Reflects.afterAll journal calls).next
    rw [answers_append, ih, answers, answers, List.append_nil, answer?]
    cases hcall : call.instruction? with
    | none =>
      rw [EmitterCall.asked_concat_none hcall]
      exact List.append_nil _
    | some i =>
      rw [EmitterCall.asked_concat hcall, List.length_append, List.length_singleton,
        List.range_succ, List.map_append, hnext]
      rfl

/-! ## Complaints of runs -/

namespace EmitterCall

/-- What the complaints of calls come to. A size operand that is too great is complained about
    wherever there is one, the full store by the first instruction that does not fit any more, and
    a word out of range by the first call that says so. -/
structure Accounts (calls : List EmitterCall) (all : List Complaint) : Prop where
  operands : all.count (.limit .operandLength) =
    (asked calls).countP fun i => i.n > Machine.maxOperandSize
  store    : all.count (.limit .codeStore) =
    if Machine.codeStoreSize < (asked calls).length then 1 else 0
  word     : all.count (.limit .word) = if restrictAddress ∈ calls then 1 else 0
  passed   : all.filterMap Complaint.passed? = calls.filterMap message?
  /-- There are no others. -/
  limits   : ∀ limit, .limit limit ∈ all →
    limit = .operandLength ∨ limit = .codeStore ∨ limit = .word

namespace Accounts

variable {calls : List EmitterCall} {all : List Complaint} {call : EmitterCall} {i : Instruction}

theorem nil : Accounts [] [] := ⟨rfl, rfl, rfl, rfl, nofun⟩

theorem append (h : Accounts calls all) (hcall : call.instruction? = some i) :
    Accounts (calls ++ [call]) (all ++ call.complaints calls) := by
  have hmessage : call.message? = none := by cases call <;> first | rfl | cases hcall
  have hne : restrictAddress ≠ call := by rintro rfl; cases hcall
  rw [complaints_of_instruction? hcall, appendComplaints]
  -- the goals are the fields of `Accounts`: each counts the complaints of one limit
  refine ⟨?_, ?_, ?_, ?_, fun limit hmem => ?_⟩
  · rw [asked_concat hcall, List.countP_append, List.count_append, h.operands]
    split_ifs <;> simp_all
  · -- the store is complained about once, by the call that finds it full
    have hstore : List.count (Complaint.limit .codeStore)
        (if (asked calls).length = Machine.codeStoreSize then [Complaint.limit .codeStore]
          else []) =
          if (asked calls).length = Machine.codeStoreSize then 1 else 0 := by
      split <;> rfl
    have hoperand : List.count (Complaint.limit .codeStore)
        (if i.n > Machine.maxOperandSize then [Complaint.limit .operandLength] else []) = 0 := by
      split <;> rfl
    rw [asked_concat hcall, List.length_append, List.length_singleton, List.count_append,
      List.count_append, h.store, hstore, hoperand]
    split_ifs <;> omega
  · rw [List.count_append, h.word]
    split_ifs <;> simp_all
  · rw [List.filterMap_append, List.filterMap_append, h.passed]
    split_ifs <;> simp [hmessage, Complaint.passed?]
  · rcases List.mem_append.1 hmem with hmem | hmem
    · exact h.limits limit hmem
    · split_ifs at hmem <;> simp at hmem <;> tauto

/-- A call that appends nothing. -/
theorem report (h : Accounts calls all) (hcall : call.instruction? = none) :
    Accounts (calls ++ [call]) (all ++ call.complaints calls) := by
  cases call with
  | emit | emitPlain | emitPrimitive => cases hcall
  -- a patch complains of nothing
  | patch address =>
    rw [complaints, List.append_nil]
    refine ⟨?_, ?_, ?_, ?_, h.limits⟩
    · rw [asked_concat_none hcall, h.operands]
    · rw [asked_concat_none hcall, h.store]
    · rw [h.word]
      simp
    · rw [List.filterMap_append, h.passed]
      exact (List.append_nil _).symm
  -- a message that is passed on is of no limit
  | restrict message =>
    rw [complaints]
    refine ⟨?_, ?_, ?_, ?_, fun limit hmem => h.limits limit (by simpa using hmem)⟩
    · rw [asked_concat_none hcall, List.count_append, h.operands]
      rfl
    · rw [asked_concat_none hcall, List.count_append, h.store]
      rfl
    · rw [List.count_append, h.word]
      simp
    · rw [List.filterMap_append, List.filterMap_append, h.passed]
      rfl
  -- an address is complained about by the first call alone
  | restrictAddress =>
    rw [complaints]
    refine ⟨?_, ?_, ?_, ?_, fun limit hmem => ?_⟩
    · rw [asked_concat_none hcall, List.count_append, h.operands]
      split <;> rfl
    · rw [asked_concat_none hcall, List.count_append, h.store]
      split_ifs <;> rfl
    · rw [List.count_append, h.word]
      split_ifs <;> simp_all
    · rw [List.filterMap_append, List.filterMap_append, h.passed]
      split <;> rfl
    · rcases List.mem_append.1 hmem with hmem | hmem
      · exact h.limits limit hmem
      · split at hmem <;> simp_all

theorem complaintsFrom (calls : List EmitterCall) : Accounts calls (complaintsFrom [] calls) := by
  induction calls using List.reverseRecOn with
  | nil => exact nil
  | append_singleton calls call ih =>
    rw [complaintsFrom_concat]
    cases hcall : call.instruction? with
    | none => exact ih.report hcall
    | some i => exact ih.append hcall

end Accounts

end EmitterCall

/-! ## The code store -/

/-- Whatever calls are made of a new emitter, one after the other, the store holds the first
    instructions that were asked for, as many as there is room for, with their size operands cut.
    What is asked for gets the next address, or the end of the store. A displacement is as it was
    asked for or, once the instruction was patched in the store, the next address at its last
    patch; a patch of another address changes nothing. What is reported is what the calls gave
    reason for, in their order. -/
theorem Emitter.store_appends_and_patches (journal : Journal) (calls : List EmitterCall) :
    let start := Emitter.ofJournal journal
    let e := start.afterAll calls
    let asked := EmitterCall.asked calls
    let complaints := EmitterCall.complaintsFrom [] calls
    e.code.size = min asked.length Machine.codeStoreSize ∧
      start.answers calls =
        (List.range asked.length).map (fun k => ((min k Machine.codeStoreSize : Nat) : Int)) ∧
      (∀ k i, e.code[k]? = some i → ∃ i', asked[k]? = some i' ∧
        i.op = i'.op ∧ i.r = i'.r ∧ i.n = min i'.n Machine.maxOperandSize ∧
        (∀ earlier, EmitterCall.LastPatch calls k earlier → i.d = (start.afterAll earlier).next) ∧
        ((∀ earlier, ¬ EmitterCall.LastPatch calls k earlier) → i.d = i'.d)) ∧
      (∀ address : Int, (∀ k : Nat, k < e.code.size → address ≠ k) → e.patch address = e) ∧
      e.journal.diagnostics.toList =
        journal.diagnostics.toList ++ complaints.map Complaint.diagnostic ∧
      EmitterCall.Accounts calls complaints := by
  intro start e asked complaints
  have hreflects := Reflects.afterAll journal calls
  refine ⟨hreflects.size_eq, answers_eq journal calls, fun k i hat => ?_, fun _ => patch_eq_self,
    hreflects.reports, .complaintsFrom calls⟩
  obtain ⟨i', hasked, hop, hr, hn, hlast, hd⟩ := hreflects.stored k i hat
  refine ⟨i', hasked, hop, hr, hn, fun earlier hpatch => ?_, hd⟩
  rw [hlast earlier hpatch]
  exact (Reflects.afterAll journal earlier).next.symm

/-- A jump that is patched before and after it is in the store, a size operand that is too great,
    and words out of range. -/
private def patchedCalls : List EmitterCall :=
  [.patch 0, .emitPlain .jump 0 7, .emit .load 300 .sb 4, .restrictAddress, .patch 0,
    .restrict Limit.routineNesting.message, .restrictAddress, .patch 2, .emitPlain .halt 0 0]

/-- The jump leads behind the second instruction, and each reason is reported once. -/
theorem Emitter.store_appends_and_patches_sample :
    let e := (Emitter.ofJournal .empty).afterAll patchedCalls
    EmitterCall.LastPatch patchedCalls 0 (patchedCalls.take 4) ∧ e.code.size = 3 ∧
      (∃ i, e.code[0]? = some i ∧ i.op = .jump ∧ i.d = 2) ∧
      e.journal.diagnostics.toList =
        [Limit.operandLength, Limit.word, Limit.routineNesting].map fun limit =>
          .ofRestriction limit.message := by
  intro e
  obtain ⟨hsize, -, hstored, -, hreports, -⟩ := store_appends_and_patches .empty patchedCalls
  have hlast : EmitterCall.LastPatch patchedCalls 0 (patchedCalls.take 4) :=
    ⟨by decide, patchedCalls.drop 5, by decide, by decide⟩
  have hroom : 0 < e.code.size := hsize ▸ by decide
  refine ⟨hlast, hsize, ⟨e.code[0], Array.getElem?_eq_getElem hroom, ?_, ?_⟩, hreports⟩
  · obtain ⟨i', hasked, hop, -⟩ := hstored 0 _ (Array.getElem?_eq_getElem hroom)
    obtain rfl := Option.some.inj hasked
    exact hop
  · obtain ⟨i', -, -, -, -, hd, -⟩ := hstored 0 _ (Array.getElem?_eq_getElem hroom)
    exact hd _ hlast

end TriangleTam
