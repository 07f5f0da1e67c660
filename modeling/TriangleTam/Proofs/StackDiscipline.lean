import TriangleTam.Proofs.Coding.Effects
import TriangleTam.Proofs.Compilation

/-! # Stack discipline

  Object code keeps the depth of its stack. The abstract machine here knows of
  the stack only how deep it is above the base of the running frame: an
  instruction takes and leaves so many words, a call is one step that takes the
  arguments and leaves the result, and control goes on wherever a jump may
  lead. Whichever way control takes, the depth at an address of the code is
  always the same, and it is the size of the frame that the encoder counted.
-/

namespace TriangleTam

/-! ## Paths -/

/-- A place in the code, and the depth of the stack there. -/
structure Point where
  address : Nat
  depth   : Int

/-- An instruction was executed, and the routine that it calls if it calls one. -/
inductive Point.Step (lines : List Line) : Point → Point → Prop
  | execute {p a' line} :
      lines[p.address]? = some line →
      line.instruction.Goes p.address a' →
      Point.Step lines p ⟨a', p.depth - line.transfer.takes + line.transfer.leaves⟩

/-- Instructions were executed, all of them at addresses from `lo` on and below `hi`. -/
inductive Path (lines : List Line) (lo hi : Nat) (p : Point) : Point → Prop
  | start : Path lines lo hi p p
  | step {q r} :
      Path lines lo hi p q → lo ≤ q.address → q.address < hi → Point.Step lines q r →
      Path lines lo hi p r

/-- The stack is as deep at the point as the lines say. -/
def Point.Fits (lines : List Line) (p : Point) : Prop :=
  p.depth = Line.depthAt lines 0 p.address

/-- Control among closed lines finds the depth that they say. -/
theorem Line.Closed.step {lines : List Line} {entry : Int} (h : Closed 0 lines entry 0)
    {p q : Point} (hstep : Point.Step lines p q) (hp : p.Fits lines) :
    q.address ≤ lines.length ∧ q.Fits lines := by
  cases hstep with
  | @execute a' line hline hgoes =>
    rw [← Nat.zero_add p.address] at hgoes
    obtain ⟨i, hi, ha, hd⟩ := h.goes _ _ _ hline hgoes
    rw [Nat.zero_add] at ha
    subst ha
    refine ⟨hi, ?_⟩
    show p.depth - line.transfer.takes + line.transfer.leaves = depthAt lines 0 a'
    have hdepth : depthAt lines 0 p.address = line.depth := by rw [depthAt, hline]; rfl
    rw [hd, hp, hdepth]
    rfl

theorem Path.fits {lines : List Line} {entry : Int} (h : Line.Closed 0 lines entry 0)
    {lo hi : Nat} {p q : Point} (hpath : Path lines lo hi p q) (hp : p.Fits lines) :
    q.Fits lines := by
  induction hpath with
  | start => exact hp
  | step _ _ _ hstep ih => exact (h.step hstep ih).2

/-- Control that is among some lines and only goes on among them stays there. -/
theorem Path.stays {lines : List Line} {lo hi : Nat}
    (h : ∀ k line a', lo ≤ k → k < hi → lines[k]? = some line → line.instruction.Goes k a' →
      lo ≤ a' ∧ a' ≤ hi)
    {p q : Point} (hpath : Path lines lo hi p q) (hlo : lo ≤ p.address) (hhi : p.address ≤ hi) :
    lo ≤ q.address ∧ q.address ≤ hi := by
  induction hpath with
  | start => exact ⟨hlo, hhi⟩
  | step _ hlo' hhi' hstep _ =>
    cases hstep with
    | execute hline hgoes => exact h _ _ _ hlo' hhi' hline hgoes

/-! ## Discipline -/

/-- The call has returned the words that its code leaves, which are those of its type if it has
    one. Where its code starts the stack is as deep as its frame says, control comes out of the
    code where it ends alone, and there the words are on top, whichever way control took. -/
structure Call.Disciplined (lines : List Line) (call : Call) (words : Int) (s' : Encoder) :
    Prop where
  returns : (call.phrase.encode call.frame).exec call.encoder = (.ok words, s')
  size    : call.phrase.HasSize words
  order   : call.encoder.start ≤ s'.start ∧ s'.start < lines.length
  entry   : Line.depthAt lines 0 call.encoder.start = call.frame.size
  exit    : ∀ p, Path lines call.encoder.start s'.start
    ⟨call.encoder.start, call.frame.size⟩ p →
      (call.encoder.start ≤ p.address ∧ p.address ≤ s'.start) ∧
        (p.address = s'.start → p.depth = call.frame.size + words)

/-- The routine starts with its link data on the stack, and control that starts there comes to
    its return alone, with the result on the stack. -/
def Routine.Disciplined (π : Plan) (lines : List Line) (routine : Routine) : Prop :=
  ∃ level entry finish : Nat,
    π.entity routine.binding = some (.knownRoutine Machine.closureSize ⟨level, entry⟩) ∧
    Line.depthAt lines 0 entry = Machine.linkDataSize ∧
    lines[finish]? = some (.ret routine.transfer.leaves routine.transfer.takes
      (Machine.linkDataSize + routine.transfer.leaves)) ∧
    ∀ p, Path lines entry finish ⟨entry, Machine.linkDataSize⟩ p →
      (entry ≤ p.address ∧ p.address ≤ finish) ∧
        (p.address = finish → p.depth = Machine.linkDataSize + routine.transfer.leaves)

/-- The lines of a whole program keep the depth of the stack. -/
structure Line.Disciplined (π : Plan) (calls : List Call) (lines : List Line) : Prop where
  effects  : ∀ (a : Nat) (line : Line), lines[a]? = some line →
    Effect π (codeOf lines) a line.transfer
  start    : depthAt lines 0 0 = 0
  /-- All ways to an address agree, and none leaves the code. -/
  paths    : ∀ a p, a < lines.length →
    Path lines 0 lines.length ⟨a, depthAt lines 0 a⟩ p →
      p.address < lines.length ∧ p.depth = depthAt lines 0 p.address
  calls    : ∀ call ∈ calls, ∃ words s', call.Disciplined lines words s'
  routines : ∀ routine ∈ π.routines, routine.declared = true → routine.Disciplined π lines
  halts    : ∀ (a : Nat) (line : Line), lines[a]? = some line → line.instruction.op = .halt →
    a + 1 = lines.length ∧ depthAt lines 0 a = 0
  returns  : ∀ (a : Nat) (line : Line), lines[a]? = some line → line.instruction.op = .ret →
    depthAt lines 0 a = Machine.linkDataSize + line.instruction.n

/-- The last line of a program. -/
def Line.halt : Line := ⟨.plain .halt 0 0, 0, ⟨0, 0⟩⟩

namespace Line

variable {lines : List Line} {π : Plan}

/-- Behind a halt control goes nowhere. -/
theorem not_goes_halt {a a' : Nat} : ¬ halt.instruction.Goes a a' := by
  intro hgoes
  cases hgoes with
  | next _ _ _ hop => exact absurd rfl hop
  | jump hop => rcases hop with hop | hop <;> cases hop
  | jumpI hop => cases hop

theorem Closed.halt (h : Closed 0 lines 0 0) : Closed 0 (lines ++ [Line.halt]) 0 0 :=
  h.append ⟨rfl, .single fun hgoes => absurd hgoes not_goes_halt⟩

theorem depthAt_of_getElem? {a : Nat} {line : Line} {exit : Int} (h : lines[a]? = some line) :
    depthAt lines exit a = line.depth := by
  rw [depthAt, h]
  rfl

/-- Control in the code of a program stays there. -/
theorem Closed.step_lt (h : Closed 0 lines 0 0) {p q : Point}
    (hstep : Point.Step (lines ++ [Line.halt]) p q) : q.address < (lines ++ [Line.halt]).length := by
  cases hstep with
  | @execute a' line hline hgoes =>
    show a' < _
    by_cases hlt : p.address < lines.length
    · rw [List.getElem?_append_left hlt] at hline
      rw [← Nat.zero_add p.address] at hgoes
      obtain ⟨i, hi, rfl, -⟩ := h.goes _ _ _ hline hgoes
      rw [List.length_append, List.length_singleton]
      omega
    · -- the last line halts
      rw [List.getElem?_append_right (Nat.le_of_not_lt hlt)] at hline
      obtain rfl := List.mem_singleton.1 (List.mem_of_getElem? hline)
      exact absurd hgoes not_goes_halt

theorem Closed.path_lt (h : Closed 0 lines 0 0) {lo hi : Nat} {p q : Point}
    (hpath : Path (lines ++ [Line.halt]) lo hi p q)
    (hp : p.address < (lines ++ [Line.halt]).length) :
    q.address < (lines ++ [Line.halt]).length := by
  cases hpath with
  | start => exact hp
  | step _ _ _ hstep => exact h.step_lt hstep

end Line

/-- A placed call keeps the depth of the stack. -/
theorem Call.Placed.disciplined {lines : List Line} {call : Call}
    (h : call.Placed 0 lines 0) (hclosed : Line.Closed 0 lines 0 0) :
    ∃ words s', call.Disciplined (lines ++ [.halt]) words s' := by
  obtain ⟨words, s', i, j, hplaced⟩ := h
  have hstart : call.encoder.start = i := hplaced.start.trans (Nat.zero_add i)
  have hfinish : s'.start = j := hplaced.finish.trans (Nat.zero_add j)
  have hi := Nat.le_trans hplaced.order hplaced.bound
  -- the halt behind the lines changes no depth in them
  have hdepth (k : Nat) (hk : k ≤ lines.length) :
      Line.depthAt (lines ++ [.halt]) 0 k = Line.depthAt lines 0 k :=
    Line.depthAt_append_left rfl hk
  refine ⟨words, s', hplaced.returns, hplaced.size, ⟨?_, ?_⟩, ?_, ?_⟩
  · rw [hstart, hfinish]
    exact hplaced.order
  · rw [hfinish, List.length_append]
    exact Nat.lt_succ_of_le hplaced.bound
  · rw [hstart, hdepth i hi, hplaced.entry]
  · intro p hpath
    rw [hstart, hfinish] at hpath ⊢
    -- no line of the call goes anywhere but into it or right behind it
    refine ⟨hpath.stays ?_ (Nat.le_refl _) hplaced.order, fun hp => ?_⟩
    · intro k line a' hik hkj hline hgoes
      rw [List.getElem?_append_left (Nat.lt_of_lt_of_le hkj hplaced.bound)] at hline
      rw [← Nat.zero_add k] at hgoes
      obtain ⟨k', hik', hk'j, rfl⟩ := hplaced.inside k line a' hik hkj hline hgoes
      rw [Nat.zero_add]
      exact ⟨hik', hk'j⟩
    · -- a path that fits where it starts fits wherever it leads
      have hfits : Point.Fits (lines ++ [.halt]) ⟨i, call.frame.size⟩ := by
        show call.frame.size = Line.depthAt (lines ++ [.halt]) 0 i
        rw [hdepth i hi, hplaced.entry]
      have hdepth' : p.depth = Line.depthAt (lines ++ [.halt]) 0 p.address :=
        hpath.fits hclosed.halt hfits
      rw [hdepth', hp, hdepth j hplaced.bound, hplaced.exit]

/-- A routine that stands in the lines keeps the depth of the stack. -/
theorem Routine.Stands.disciplined {π : Plan} {lines : List Line} {routine : Routine}
    (h : routine.Stands π 0 lines) (hclosed : Line.Closed 0 lines 0 0) :
    routine.Disciplined π (lines ++ [.halt]) := by
  obtain ⟨level, before, body, after, hentity, hbody, rfl⟩ := h
  rw [Nat.zero_add] at hentity hbody
  -- the body is followed by the return
  have hsplit : before ++ (body ++ Line.ret routine.transfer.leaves routine.transfer.takes
      (Machine.linkDataSize + routine.transfer.leaves) :: after) ++ [.halt] =
      before ++ (body ++ Line.ret routine.transfer.leaves routine.transfer.takes
        (Machine.linkDataSize + routine.transfer.leaves) :: (after ++ [.halt])) := by simp
  have hwhole := hclosed.halt
  rw [hsplit] at hwhole ⊢
  generalize hrest : Line.ret routine.transfer.leaves routine.transfer.takes
    (Machine.linkDataSize + routine.transfer.leaves) :: (after ++ [.halt]) = rest at hwhole ⊢
  have hret : Line.depthAt rest 0 0 = Machine.linkDataSize + routine.transfer.leaves := by
    rw [← hrest]
    rfl
  have hdepth (k : Nat) (hk : k ≤ body.length) :
      Line.depthAt (before ++ (body ++ rest)) 0 (before.length + k) =
        Line.depthAt body (Machine.linkDataSize + routine.transfer.leaves) k := by
    rw [Line.depthAt_append_right, Line.depthAt_append_left hret hk]
  refine ⟨level, before.length, before.length + body.length, hentity, ?_, ?_, ?_⟩
  · rw [← hbody.entry, ← hdepth 0 (Nat.zero_le _), Nat.add_zero]
  · rw [List.getElem?_append_right (Nat.le_add_right _ _), Nat.add_sub_cancel_left,
      List.getElem?_append_right (Nat.le_refl _), Nat.sub_self, ← hrest]
    rfl
  · intro p hpath
    refine ⟨hpath.stays ?_ (Nat.le_refl _) (Nat.le_add_right _ _), fun hp => ?_⟩
    · intro k line a' hlo hhi hline hgoes
      obtain ⟨m, rfl⟩ : ∃ m, k = before.length + m := ⟨k - before.length, by omega⟩
      rw [List.getElem?_append_right hlo, Nat.add_sub_cancel_left,
        List.getElem?_append_left (by omega)] at hline
      obtain ⟨i, hi, rfl, -⟩ := hbody.goes m line a' hline hgoes
      exact ⟨Nat.le_add_right _ _, Nat.add_le_add_left hi _⟩
    · have hfits : Point.Fits (before ++ (body ++ rest)) ⟨before.length, Machine.linkDataSize⟩ := by
        show Machine.linkDataSize = Line.depthAt (before ++ (body ++ rest)) 0 before.length
        rw [← hbody.entry, ← hdepth 0 (Nat.zero_le _), Nat.add_zero]
      have hdepth' : p.depth = Line.depthAt (before ++ (body ++ rest)) 0 p.address :=
        hpath.fits hwhole hfits
      rw [hdepth', hp, hdepth body.length (Nat.le_refl _), Line.depthAt_length]

/-- The lines of a command at the start of the code, with a halt behind them, keep the depth of
    the stack. -/
theorem Command.Code.disciplined {π : Plan} {command : Command} {lines : List Line}
    (h : Command.Code π Frame.initial 0 command lines) (hplan : π.routines = command.routines)
    {calls : List Call} (hcalls : ∀ call ∈ calls, call.Placed 0 lines 0) :
    Line.Disciplined π calls (lines ++ [.halt]) := by
  have hclosed : Line.Closed 0 lines 0 0 := h.closed
  have heffective := h.effective
  -- past the lines there is the halt alone
  have hlast {a : Nat} {line : Line} (hline : (lines ++ [.halt])[a]? = some line)
      (ha : lines.length ≤ a) : line = .halt ∧ a = lines.length := by
    have hlt := (List.getElem?_eq_some_iff.1 hline).1
    rw [List.length_append, List.length_singleton] at hlt
    rw [List.getElem?_append_right ha] at hline
    exact ⟨List.mem_singleton.1 (List.mem_of_getElem? hline), by omega⟩
  -- the goals are the fields of `Line.Disciplined`, in their order
  refine ⟨?_, ?_, ?_, ?_, ?_, ?_, ?_⟩
  · have hhalt : Effect π [Line.halt.instruction] 0 Line.halt.instruction.transfer :=
      .plain rfl nofun nofun
    exact heffective.effects.append (.single hhalt)
  · exact hclosed.halt.entry
  · intro a p ha hpath
    exact ⟨hclosed.path_lt hpath ha, hpath.fits hclosed.halt rfl⟩
  · intro call hmem
    exact (hcalls call hmem).disciplined hclosed
  · intro routine hmem hdeclared
    rw [hplan] at hmem
    exact (h.hold routine hmem hdeclared).disciplined hclosed
  · intro a line hline hop
    by_cases ha : a < lines.length
    · rw [List.getElem?_append_left ha] at hline
      exact absurd hop (heffective.runs line (List.mem_of_getElem? hline))
    · obtain ⟨rfl, rfl⟩ := hlast hline (Nat.le_of_not_lt ha)
      refine ⟨by simp, ?_⟩
      rw [Line.depthAt_of_getElem? hline]
      rfl
  · intro a line hline hop
    rw [Line.depthAt_of_getElem? hline]
    by_cases ha : a < lines.length
    · rw [List.getElem?_append_left ha] at hline
      exact heffective.returns line (List.mem_of_getElem? hline) hop
    · obtain ⟨rfl, rfl⟩ := hlast hline (Nat.le_of_not_lt ha)
      cases hop

/-! ## Object code -/

/-- Whatever is compiled, the object code keeps the depth of the stack. It is the code of the
    lines that the scheme gives to the tree, with a halt behind them. On every way that control
    may take through the lines, the code of a call of the encoder starts where the stack is as
    deep as its frame says and ends where it is deeper by what the call returned. So the program
    halts with an empty stack, and a routine returns with its result alone on top of its link
    data. -/
theorem compile_stack_discipline {text : String} {options : Options} {object : ObjectProgram}
    (h : compile text options = .ok object) :
    ∃ program journal s' lines, Program.parse text = .ok program ∧
      let tree := (program.check .beforeCheck).program.prepared options
      let π := s'.plan tree.command.routines
      (Encode.command tree.command Frame.initial).exec
        (.initial Layouts.empty.standard options.showTable journal) = (.ok (), s') ∧
      object.instructions.toList = codeOf (lines ++ [.halt]) ∧
      Command.Code π Frame.initial 0 tree.command lines ∧
      Line.Disciplined π (tree.calls Layouts.empty.standard options.showTable journal)
        (lines ++ [.halt]) := by
  rcases compile_cases text options with ⟨d, -, hcompile⟩ | ⟨journal, -, hcompile⟩ |
    ⟨program, decorated, journal, hparse, rfl, htyped, hjournal, hcompile⟩
  · rw [hcompile] at h
    cases h
  · rw [hcompile] at h
    cases h
  · obtain ⟨source, hsource⟩ := htyped.prepared options
    obtain ⟨s', hencoded⟩ := hsource.encoded (Layouts.fresh_standard .empty) options.showTable
      journal
    dsimp only at hcompile
    rw [h] at hcompile
    split at hcompile
    · next hclean =>
      obtain rfl := Except.ok.inj hcompile
      obtain ⟨hquiet, hcode⟩ := hencoded.quiet_of_clean (Array.isEmpty_iff.1 hclean)
      obtain ⟨lines, hlines, hwrote⟩ := hencoded.quiet hquiet
      refine ⟨program, journal, s', lines, hparse, hencoded.exec, ?_, hlines, ?_⟩
      · have hstart : s'.emitter.code.toList = codeOf lines := hwrote.code
        rw [hcode, hstart, codeOf_append]
        rfl
      · exact hlines.disciplined rfl hwrote.calls
    · cases hcompile

/-- A text with a routine parameter, a loop, branches, blocks and a comparison of arrays. -/
private def manyText : String :=
  "let var a: array 2 of record x: Integer, y: Char end;
       proc p(func f(n: Integer): Integer, var v: Integer) ~ while v < 10 do v := f(v);
       func double(n: Integer): Integer ~ let const m ~ n + 1 in if m > 5 then m + m else 1
   in begin a[0].x := 1; p(func double, var a[0].x); if a = a then putint(a[1].x) else end"

set_option maxRecDepth 2000 in
/-- The text compiles to 46 instructions, which keep the depth of the stack. -/
theorem compile_stack_discipline_sample :
    ∃ object, compile manyText {} = .ok object ∧ object.instructions.size = 46 ∧
      ∃ π calls lines, object.instructions.toList = codeOf lines ∧
        Line.Disciplined π calls lines := by
  have hsize : (match compile manyText {} with
    | .ok object => object.instructions.size
    | .error _ => 0) = 46 := by
    have hchars : manyText = String.ofList _ := rfl
    rw [compile, Compiler.parse, Program.parse, Stream.ofText, tokenize_of_chars hchars]
    decide +kernel
  cases hcompile : compile manyText {} with
  | error diagnostics =>
    rw [hcompile] at hsize
    cases hsize
  | ok object =>
    rw [hcompile] at hsize
    obtain ⟨program, journal, s', lines, -, -, hcode, -, hdisciplined⟩ :=
      compile_stack_discipline hcompile
    exact ⟨object, rfl, hsize, _, _, _, hcode, hdisciplined⟩

end TriangleTam
