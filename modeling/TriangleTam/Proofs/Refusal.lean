import TriangleTam.Compiler
import TriangleTam.Proofs.Coding.Object
import TriangleTam.Proofs.Coding.Outcomes
import TriangleTam.Proofs.Coding.Relation
import TriangleTam.Proofs.Coding.Requests
import TriangleTam.Proofs.Reports

/-! # Passes after errors

  The passes of a compilation may be called one by one, in any order and on
  any tree. Whatever is called, no report is taken back. Once something was
  reported, checking and folding **refuse**: they return the tree that they
  were given, and leave the compilation as it was.

  Code generation does not refuse. It leaves trees alone, but what it misses
  in a tree that failed its checks is one more report, as is every limit that
  it exceeds.
-/

namespace TriangleTam

/-! ## Reports of code generation -/

namespace Emitter.Before

theorem serve (e : Emitter) : ∀ request, e.Before (e.serve request)
  | .register frame level => (e.displayRegister_appends frame level).2.before
  | .emit op n r d => (e.emit_appends op n r d).before
  | .place op n r address access =>
    (e.displace_appends address access).1.before.trans (Emitter.emit_appends _ op n r _).before

theorem serveAll (e : Emitter) (requests : List Request) : e.Before (e.serveAll requests) := by
  induction requests generalizing e with
  | nil => exact .refl e
  | cons request others ih => exact (serve e request).trans (ih _)

end Emitter.Before

namespace Encode

variable {α β : Type}

/-- A step from `s` has reported restrictions alone. What it returned satisfies `Q`, or it
    stopped at a fault of the compiler. -/
structure Restricted (Q : α → Prop) (s : Encoder) (outcome : Except Diagnostic α × Encoder) :
    Prop where
  gains   : s.emitter.journal.Gains .restriction outcome.2.emitter.journal
  returns : ∀ a, outcome.1 = .ok a → Q a
  faults  : ∀ d, outcome.1 = .error d → d.kind = .internal

/-- Wherever the step starts, it reports restrictions alone. -/
def Restricts : Assembler.Relation Encode Encode := fun _ x _ Q => ∀ s, Restricted Q s (x.exec s)

namespace Restricts

variable {Q : α → Prop} {P : β → Prop}

theorem pure {a : α} (h : Q a) : Restricts (pure a) (pure a) Q := fun s =>
  ⟨.refl s.emitter.journal, fun _ heq => Except.ok.inj heq ▸ h, nofun⟩

theorem throw {d : Diagnostic} (hkind : d.kind = .internal) :
    Restricts (throw d : Encode α) (throw d) Q := fun s =>
  ⟨.refl s.emitter.journal, nofun, fun _ heq => Except.error.inj heq ▸ hkind⟩

theorem bind {x : Encode α} {f : α → Encode β} (hx : Restricts x x Q)
    (hf : ∀ a, Q a → Restricts (f a) (f a) P) : Restricts (x >>= f) (x >>= f) P := by
  intro s
  obtain ⟨hgains, hreturns, hfaults⟩ := hx s
  rw [exec_bind_eq]
  cases hexec : x.exec s with
  | mk outcome s' =>
    rw [hexec] at hgains hreturns hfaults
    cases outcome with
    | error d =>
      -- the second step is not taken
      exact ⟨hgains, nofun, fun _ heq => hfaults _ (congrArg _ (Except.error.inj heq))⟩
    | ok a =>
      obtain ⟨hgains', hreturns', hfaults'⟩ := hf a (hreturns a rfl) s'
      exact ⟨hgains.trans hgains', hreturns', hfaults'⟩

theorem emitting {act : Emitter → Emitter} (hact : ∀ e : Emitter, e.Before (act e)) :
    Restricts (Encode.emitting act) (Encode.emitting act) fun _ => True := fun s =>
  ⟨(hact s.emitter).gains, fun _ _ => trivial, nofun⟩

theorem requesting {act : Emitter → Except NotApplicable Emitter}
    {requests : Option (List Request)} (hasks : Entity.Asks act requests) :
    Restricts (Encode.requesting act) (Encode.requesting act) fun _ => True := by
  intro s
  unfold Encode.requesting
  rw [exec_get_bind]
  cases hact : act s.emitter with
  | error fault => exact throw rfl s
  | ok e =>
    obtain ⟨made, -, rfl⟩ := hasks _ _ hact
    exact ⟨(Emitter.Before.serveAll s.emitter made).gains, fun _ _ => trivial, nofun⟩

/-- A request whose size operand is cut first. -/
theorem moving {act : Int → Emitter → Except NotApplicable Emitter}
    {requests : Int → Option (List Request)} (hasks : ∀ n, Entity.Asks (act n) (requests n))
    (n : Int) (limit : Limit) :
    let request : Encode Unit := do
      let size ← clampOperand n limit
      Encode.requesting (act size)
    Restricts request request fun _ => True := by
  have hclamp : Restricts (clampOperand n limit) (clampOperand n limit) fun _ => True := by
    intro s
    rw [clampOperand_exec]
    exact ⟨(s.emitter.clampOperand_appends n limit).1.before.gains, fun _ _ => trivial, nofun⟩
  exact bind hclamp fun size _ => requesting (hasks size)

theorem entityOf (name : Name) :
    Restricts (Encode.entityOf name) (Encode.entityOf name) fun _ => True := by
  intro s
  unfold Encode.entityOf
  rw [exec_get_bind]
  cases name.binding.bind fun id => s.entities.lookup id with
  | none => exact throw rfl s
  | some entity => exact pure trivial s

/-- Binding a name logs its entity at most. -/
theorem bindName (name : Name) (entity : Entity) :
    Restricts (Encode.bind name entity) (Encode.bind name entity) fun _ => True := by
  intro s
  unfold Encode.bind
  cases name.binding with
  | none => exact throw rfl s
  | some id =>
    dsimp only
    rw [exec_get_bind]
    cases s.showTable with
    | false => exact ⟨.refl s.emitter.journal, fun _ _ => trivial, nofun⟩
    | true => exact ⟨.of_diagnostics rfl, fun _ _ => trivial, nofun⟩

theorem word (n : Int) : Restricts (Encode.word n) (Encode.word n) fun _ => True := by
  intro s
  rw [word_exec]
  exact ⟨.refl s.emitter.journal, fun _ _ => trivial, nofun⟩

/-- Asking for a size logs what is laid out at most. -/
theorem sizeOf (type : TypeDenoter) :
    Restricts (Encode.sizeOf type) (Encode.sizeOf type) fun _ => True := by
  intro s
  obtain ⟨journal, hjournal, hexec⟩ := sizeOf_exec type s
  rw [hexec]
  exact ⟨.of_diagnostics hjournal, fun _ _ => trivial, nofun⟩

theorem sizeOf? (type : Option TypeDenoter) (span : Span) :
    Restricts (Encode.sizeOf? type span) (Encode.sizeOf? type span) fun _ => True := by
  cases type with
  | none => exact throw rfl
  | some type => exact sizeOf type

theorem fieldOffset (record : Vname) (field : Name) :
    Restricts (Encode.fieldOffset record field) (Encode.fieldOffset record field)
      fun _ => True := by
  unfold Encode.fieldOffset
  cases record.type with
  | none => exact throw rfl
  | some type =>
    refine bind (sizeOf type) fun _ _ => ?_
    cases type.fieldOffset? field.spelling with
    | none => exact throw rfl
    | some offset => exact pure trivial

/-- A routine has a body only where there may be one more level. -/
theorem nests (level : Nat) :
    Restricts (assembler.nests level) (assembler.nests level)
      fun nested => nested = true → level < Machine.maxRoutineLevel := by
  unfold assembler
  dsimp only
  by_cases hlevel : level ≥ Machine.maxRoutineLevel
  · rw [if_pos hlevel]
    exact bind (emitting fun e => (Emitter.Appends.restrict e _ []).before) fun _ _ => pure nofun
  · rw [if_neg hlevel]
    exact pure fun _ => Nat.lt_of_not_le hlevel

/-- Patching reports nothing. -/
theorem patch (address : Int) :
    Restricts (Encode.patch address) (Encode.patch address) fun _ => True := by
  have hsame (e : Emitter) : (e.patch address).journal = e.journal := by
    unfold Emitter.patch
    split <;> rfl
  exact fun s => ⟨.of_diagnostics (congrArg _ (hsame s.emitter)), fun _ _ => trivial, nofun⟩

/-- All that code generation is put together of reports restrictions alone, on any tree. -/
theorem covers : Assembler.Covers assembler assembler (fun _ => Restricts) {} := by
  have hemit (op : OpCode) (n : Int) (r : Register) (d : Int) :
      Restricts (Encode.emit op n r d) (Encode.emit op n r d) fun _ => True :=
    emitting fun e => (e.emit_appends op n r d).before
  -- each step is compared with itself, as the relation is about one run alone
  have hagrees : Assembler.Agrees assembler assembler (fun _ => Restricts) {} :=
    { pure := pure
      bind := bind
      loadL := fun n => hemit .loadL 0 .cb n
      push := fun n => hemit .push 0 .cb n
      pop := fun n d => hemit .pop n .cb d
      primitive := fun p => hemit .call _ .pb p.displacement
      word := word
      sizeOf := fun _ => sizeOf _
      sizeOf? := fun span _ => sizeOf? _ span
      fieldOffset := fun field _ => fieldOffset _ field
      entityOf := fun _ => entityOf _
      bindName := fun _ _ => bindName _ _
      fetch := fun size _ _ => moving (fun _ => Entity.fetch_asks _ _ _ _) size _
      store := fun size _ _ => moving (fun _ => Entity.store_asks _ _ _ _) size _
      fetchAddress := fun _ _ => requesting (Entity.fetchAddress_asks _ _ _)
      invoke := fun _ _ => bind (entityOf _) fun _ _ => requesting (Entity.call_asks _ _)
      pass := fun _ _ => bind (entityOf _) fun _ _ =>
        requesting (Entity.fetchClosure_asks _ _) }
  exact hagrees.covers
    { next := fun s => ⟨.refl s.emitter.journal, fun _ _ => trivial, nofun⟩
      jump := fun op n d => hemit op n .cb d
      patch := patch
      nests := nests
      bindRoutine := fun _ _ => bindName _ _ }

end Restricts

end Encode

/-- Whatever the tree, encoding takes no report back. It adds restrictions, and behind them at
    most one fault of the compiler. -/
theorem Program.encode_adds (program : Program) (layouts : Layouts) (showTable : Bool)
    (journal : Journal) : ∃ restrictions faults : List Diagnostic,
    (program.encode layouts showTable journal).journal.diagnostics.toList =
        journal.diagnostics.toList ++ restrictions ++ faults ∧
      (∀ d ∈ restrictions, d.kind = .restriction) ∧
      (∀ d ∈ faults, d.kind = .internal) ∧ faults.length ≤ 1 := by
  have hall : program.command.All (fun _ => True) fun _ => True :=
    .intro (fun _ => trivial) (fun _ => trivial) program.command
  have hrestricts : Encode.Restricts (Encode.command program.command .initial)
      (Encode.command program.command .initial) fun _ => True := by
    have hlevel : Frame.initial.level ≤ Machine.maxRoutineLevel := Nat.zero_le _
    have hcovers := Encode.Restricts.covers.command hlevel hall fun _ _ => trivial
    rwa [Encode.assembler_command] at hcovers
  obtain ⟨hgains, -, hfaults⟩ := hrestricts (.initial layouts showTable journal)
  cases hexec : (Encode.command program.command .initial).exec
      (.initial layouts showTable journal) with
  | mk outcome s =>
    rw [hexec] at hgains hfaults
    -- the last instruction can be restricted too, and comes before any fault
    have hfinish : journal.Gains .restriction s.finish.journal :=
      Journal.Gains.trans hgains s.finish_appends.before.gains
    obtain ⟨restrictions, heq, hrestrictions⟩ := hfinish
    have hrun : (Encode.command program.command Frame.initial).run.run
        (.initial layouts showTable journal) = (outcome, s) := hexec
    unfold Encoder.initial at hrun
    unfold encode
    simp only [hrun]
    cases outcome with
    | ok u =>
      exact ⟨restrictions, [], heq.trans (List.append_nil _).symm, hrestrictions, nofun,
        Nat.zero_le _⟩
    | error d =>
      refine ⟨restrictions, [d], ?_, hrestrictions, ?_, Nat.le_refl _⟩
      · show (s.finish.journal.diagnostics.push d).toList = _
        rw [Array.toList_push, heq]
      · intro d' hmem
        rw [List.mem_singleton.1 hmem]
        exact hfaults d rfl

/-! ## Calls of passes -/

/-- A call of a pass, with the text or the tree that it is given. -/
inductive PassCall
  | parse (text : String)
  | check (program : Program)
  | fold (program : Program)
  | encode (program : Program)

namespace Compiler

/-- The compilation after a call. -/
def after (c : Compiler) : PassCall → Compiler
  | .parse text => (c.parse text).2
  | .check program => (c.check program).2
  | .fold program => (c.fold program).2.2
  | .encode program => (c.encode program).2

/-- The compilation after calls, one after the other. -/
def afterAll (c : Compiler) (calls : List PassCall) : Compiler := calls.foldl after c

/-- No call takes a report back. -/
theorem diagnostics_after (c : Compiler) : ∀ call : PassCall,
    c.diagnostics.toList <+: (c.after call).diagnostics.toList
  | .parse text => by
    unfold after parse
    dsimp only
    cases Program.parse text with
    | ok program => exact List.prefix_rfl
    | error d =>
      refine ⟨[d], ?_⟩
      exact Array.toList_push.symm
  | .check program => by
    show c.diagnostics.toList <+: (c.check program).2.diagnostics.toList
    unfold check
    split
    · next hclean =>
      -- nothing was reported so far
      have hempty : c.diagnostics.toList = [] :=
        Array.toList_eq_nil_iff.2 (Array.isEmpty_iff.1 hclean)
      rw [hempty]
      exact List.nil_prefix
    · exact List.prefix_rfl
  | .fold program => by
    show c.diagnostics.toList <+: (c.fold program).2.2.diagnostics.toList
    unfold fold
    split
    · exact List.prefix_rfl
    · exact List.prefix_rfl
  | .encode program => by
    -- encoding has no guard, but what it reports comes behind what was reported before
    obtain ⟨restrictions, faults, heq, -⟩ := program.encode_adds c.layouts c.options.showTable
      (c.announce "code generation").journal
    refine ⟨restrictions ++ faults, ?_⟩
    rw [← List.append_assoc]
    exact heq.symm

theorem diagnostics_afterAll (c : Compiler) (calls : List PassCall) :
    c.diagnostics.toList <+: (c.afterAll calls).diagnostics.toList := by
  induction calls generalizing c with
  | nil => exact List.prefix_rfl
  | cons call others ih => exact (c.diagnostics_after call).trans (ih (c.after call))

/-- What was reported keeps the compilation from being clean again. -/
theorem clean_afterAll {c : Compiler} (h : c.clean = false) (calls : List PassCall) :
    (c.afterAll calls).clean = false := by
  have hstarts := c.diagnostics_afterAll calls
  rw [Bool.eq_false_iff] at h ⊢
  intro hclean
  have hempty : (c.afterAll calls).diagnostics.toList = [] :=
    Array.toList_eq_nil_iff.2 (Array.isEmpty_iff.1 hclean)
  rw [hempty, List.prefix_nil] at hstarts
  exact h (Array.isEmpty_iff.2 (Array.toList_eq_nil_iff.1 hstarts))

/-- Whatever passes are called, in any order and on any trees, the reports made so far stay and
    stay in order. Once there is a report, checking and folding any tree leave the tree and the
    compilation as they are, after any further calls. Encoding a tree then leaves the reports
    before it alone too; it may add restrictions and a fault of the compiler. -/
theorem refuses_after_reports (c : Compiler) (calls : List PassCall) :
    let now := c.afterAll calls
    c.diagnostics.toList <+: now.diagnostics.toList ∧
      (c.clean = false → ∀ program : Program,
        now.check program = (program, now) ∧
        now.fold program = (program, 0, now) ∧
        ∃ restrictions faults : List Diagnostic,
          (now.encode program).2.diagnostics.toList =
            now.diagnostics.toList ++ restrictions ++ faults ∧
          (∀ d ∈ restrictions, d.kind = .restriction) ∧
          (∀ d ∈ faults, d.kind = .internal) ∧ faults.length ≤ 1) := by
  refine ⟨c.diagnostics_afterAll calls, fun hreported program => ?_⟩
  have hnow : (c.afterAll calls).clean ≠ true :=
    Bool.eq_false_iff.1 (clean_afterAll hreported calls)
  refine ⟨?_, ?_, ?_⟩
  · unfold check
    rw [if_neg hnow]
  · unfold fold
    rw [if_neg hnow]
  · exact program.encode_adds _ _ _

end Compiler

/-- A text with a name that is not declared. -/
private def uncheckedText : String := "putint(undeclared)"

/-- After the report about the text, checking and folding refuse, also after an encoding. -/
theorem Compiler.refuses_after_reports_sample :
    ∃ program, Program.parse uncheckedText = .ok program ∧
      let c := (Compiler.new {}).after (.check program)
      let now := c.afterAll [.fold program, .encode program, .parse uncheckedText]
      c.clean = false ∧ now.check program = (program, now) ∧
        now.fold program = (program, 0, now) := by
  have hchecked : (Program.parse uncheckedText).toOption.any (fun program =>
      !((Compiler.new {}).after (.check program)).clean) = true := by
    decide +kernel
  cases hok : Program.parse uncheckedText with
  | error d =>
    rw [hok] at hchecked
    cases hchecked
  | ok program =>
    rw [hok] at hchecked
    have hreported : ((Compiler.new {}).after (.check program)).clean = false :=
      Bool.not_eq_true' _ |>.mp hchecked
    obtain ⟨-, hrefuses⟩ := ((Compiler.new {}).after (.check program)).refuses_after_reports
      [.fold program, .encode program, .parse uncheckedText]
    obtain ⟨hcheck, hfold, -⟩ := hrefuses hreported program
    exact ⟨program, rfl, hreported, hcheck, hfold⟩

/-- Encoding does not refuse: it finds no entity for the name, and reports that too. -/
theorem Compiler.encode_reports_after_errors :
    ∃ program, Program.parse uncheckedText = .ok program ∧
      let c := (Compiler.new {}).after (.check program)
      let checked := ((Compiler.new {}).check program).1
      c.diagnostics = #[.ofSemantic .undeclared "undeclared" ⟨1, 1⟩] ∧
        (c.encode checked).2.diagnostics =
          c.diagnostics.push (.ofInternal .noEntity "undeclared" ⟨1, 1⟩) := by
  have hruns : (Program.parse uncheckedText).toOption.any (fun program =>
      let c := (Compiler.new {}).after (.check program)
      let checked := ((Compiler.new {}).check program).1
      decide (c.diagnostics = #[.ofSemantic .undeclared "undeclared" ⟨1, 1⟩]) &&
        decide ((c.encode checked).2.diagnostics =
          c.diagnostics.push (.ofInternal .noEntity "undeclared" ⟨1, 1⟩))) = true := by
    decide +kernel
  cases hok : Program.parse uncheckedText with
  | error d =>
    rw [hok] at hruns
    cases hruns
  | ok program =>
    rw [hok] at hruns
    obtain ⟨hfirst, hsecond⟩ := Bool.and_eq_true_iff.1 hruns
    exact ⟨program, rfl, of_decide_eq_true hfirst, of_decide_eq_true hsecond⟩

end TriangleTam
