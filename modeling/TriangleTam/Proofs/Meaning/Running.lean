import TriangleTam.Proofs.Coding.Scheme
import TriangleTam.Proofs.Meaning.Machine

/-! # Running code

  What the machine does where certain instructions stand in its code. Code
  without jumps does the same wherever it stands: it **turns** one stack into
  another, and the machine comes out behind it.
-/

namespace TriangleTam

/-! ## Installed code -/

/-- The instructions stand at an address of the code. -/
def Installed (code : List Instruction) (a : Nat) (is : List Instruction) : Prop :=
  is <+: code.drop a

namespace Installed

variable {code is js : List Instruction} {a : Nat} {i : Instruction}

theorem left (h : Installed code a (is ++ js)) : Installed code a is :=
  (List.prefix_append is js).trans h

theorem right (h : Installed code a (is ++ js)) : Installed code (a + is.length) js := by
  obtain ⟨rest, hrest⟩ := h
  refine ⟨rest, ?_⟩
  rw [← List.drop_drop, ← hrest, List.append_assoc, List.drop_left]

theorem head (h : Installed code a (i :: is)) : code[a]? = some i := by
  obtain ⟨rest, hrest⟩ := h
  rw [← Nat.add_zero a, ← List.getElem?_drop, ← hrest]
  rfl

theorem tail (h : Installed code a (i :: is)) : Installed code (a + 1) is := by
  have hsplit : Installed code a ([i] ++ is) := h
  exact hsplit.right

variable {l₁ l₂ : List Line} {line : Line}

theorem front (h : Installed code a (codeOf (l₁ ++ l₂))) : Installed code a (codeOf l₁) := by
  rw [codeOf_append] at h
  exact h.left

theorem back (h : Installed code a (codeOf (l₁ ++ l₂))) :
    Installed code (a + l₁.length) (codeOf l₂) := by
  rw [codeOf_append] at h
  rw [← length_codeOf l₁]
  exact h.right

theorem first (h : Installed code a (codeOf (line :: l₁))) : code[a]? = some line.instruction :=
  h.head

theorem rest (h : Installed code a (codeOf (line :: l₁))) : Installed code (a + 1) (codeOf l₁) :=
  h.tail

end Installed

/-! ## Registers and primitives -/

@[simp] theorem Register.ofNumber?_number (r : Register) : ofNumber? r.number = some r := by
  cases r <;> rfl

@[simp] theorem Primitive.ofDisplacement?_displacement (p : Primitive) :
    ofDisplacement? p.displacement = some p := by
  cases p <;> rfl

/-! ## Code without jumps -/

/-- The machine in the main program, where the registers that instructions count from hold 0. -/
def Snapshot.main (next : Nat) (stack : Value) (trace : List Exchange) : Snapshot :=
  ⟨next, fun _ => 0, stack, trace⟩

/-- Wherever the instructions stand, the machine goes from a stack and a trace through them to
    others. -/
structure Turns (I : Interpretation) (is : List Instruction) (stack : Value)
    (trace : List Exchange) (stack' : Value) (trace' : List Exchange) : Prop where
  runs : ∀ {code : List Instruction} {a : Nat}, Installed code a is →
    (Snapshot.main a stack trace).Runs I code (.main (a + is.length) stack' trace')

namespace Turns

variable {I : Interpretation} {is is' : List Instruction} {i : Instruction}
  {stack stack₁ stack₂ value : Value} {trace trace₁ trace₂ : List Exchange} {n d word : Int}

theorem nil : Turns I [] stack trace stack trace := ⟨fun _ => .refl _⟩

theorem append (h : Turns I is stack trace stack₁ trace₁)
    (h' : Turns I is' stack₁ trace₁ stack₂ trace₂) :
    Turns I (is ++ is') stack trace stack₂ trace₂ := by
  refine ⟨fun hcode => ?_⟩
  rw [List.length_append, ← Nat.add_assoc]
  exact (h.runs hcode.left).trans (h'.runs hcode.right)

theorem cons (h : Turns I [i] stack trace stack₁ trace₁)
    (h' : Turns I is stack₁ trace₁ stack₂ trace₂) :
    Turns I (i :: is) stack trace stack₂ trace₂ := append h h'

/-- An instruction that goes on with the one behind it. -/
theorem single (h : ∀ a, i.execute I (.main a stack trace) = some (.main (a + 1) stack₁ trace₁)) :
    Turns I [i] stack trace stack₁ trace₁ :=
  ⟨fun {_ a} hcode => .step hcode.head (h a)⟩

theorem loadL : Turns I [.plain .loadL n d] stack trace (stack ++ [some d]) trace :=
  single fun _ => rfl

theorem loadA : Turns I [⟨.loadA, Register.sb.number, n, d⟩] stack trace (stack ++ [some d])
    trace := by
  refine single fun a => ?_
  simp [Instruction.execute, Snapshot.main, Snapshot.resume]

theorem load (h : stack.slice? d n = some value) :
    Turns I [⟨.load, Register.sb.number, n, d⟩] stack trace (stack ++ value) trace := by
  refine single fun a => ?_
  simp [Instruction.execute, Snapshot.main, Snapshot.resume, h]

theorem loadI (h : stack.slice? d n = some value) :
    Turns I [.plain .loadI n 0] (stack ++ [some d]) trace (stack ++ value) trace := by
  refine single fun a => ?_
  simp [Instruction.execute, Instruction.plain, Snapshot.main, Snapshot.resume, h]

theorem store (h : stack.splice? d value = some stack₁) (hn : (value.length : Int) = n) :
    Turns I [⟨.store, Register.sb.number, n, d⟩] (stack ++ value) trace stack₁ trace := by
  refine single fun a => ?_
  simp [Instruction.execute, Snapshot.main, Snapshot.resume, Value.pop?_append stack value hn, h]

theorem storeI (h : stack.splice? d value = some stack₁) (hn : (value.length : Int) = n) :
    Turns I [.plain .storeI n 0] (stack ++ value ++ [some d]) trace stack₁ trace := by
  refine single fun a => ?_
  simp only [Instruction.execute, Instruction.plain, Register.ofNumber?_number, Snapshot.main,
    Value.popWord?_append, Option.bind_eq_bind, Option.bind_some, Value.pop?_append stack value hn,
    h]
  rfl

theorem primitive {p : Primitive} (h : p.execute I stack trace = some (stack₁, trace₁)) :
    Turns I [.primitive p] stack trace stack₁ trace₁ := by
  refine single fun a => ?_
  simp [Instruction.execute, Instruction.primitive, Snapshot.main, h]

theorem push (hn : 0 ≤ d) :
    Turns I [.plain .push 0 d] stack trace (stack ++ List.replicate d.toNat none) trace := by
  obtain ⟨k, rfl⟩ := Int.eq_ofNat_of_zero_le hn
  exact single fun a => rfl

/-- A pop gives up what lies under a result. -/
theorem pop {middle : Value} (hd : (middle.length : Int) = d) (hn : (value.length : Int) = n) :
    Turns I [.plain .pop n d] (stack ++ middle ++ value) trace (stack ++ value) trace := by
  refine single fun a => ?_
  simp only [Instruction.execute, Instruction.plain, Register.ofNumber?_number, Snapshot.main,
    Option.bind_eq_bind, Option.bind_some, Value.pop?_append _ value hn,
    Value.pop?_append stack middle hd]
  rfl

end Turns

/-! ## Lines without jumps -/

theorem Turns.lines {I : Interpretation} {code : List Instruction} {a : Nat} {lines : List Line}
    {stack stack' : Value} {trace trace' : List Exchange}
    (h : Turns I (codeOf lines) stack trace stack' trace')
    (hcode : Installed code a (codeOf lines)) :
    (Snapshot.main a stack trace).Runs I code (.main (a + lines.length) stack' trace') := by
  rw [← length_codeOf]
  exact h.runs hcode

theorem Turns.straight {I : Interpretation} {code is : List Instruction} {a : Nat} {depth : Int}
    {stack stack' : Value} {trace trace' : List Exchange} (h : Turns I is stack trace stack' trace')
    (hcode : Installed code a (codeOf (Line.straight depth is))) :
    (Snapshot.main a stack trace).Runs I code
      (.main (a + (Line.straight depth is).length) stack' trace') :=
  Turns.lines (by rwa [codeOf_straight]) hcode

/-- What a call does, it does at its lines. -/
theorem Turns.callLines {I : Interpretation} {code : List Instruction} {a : Nat} {entity : Entity}
    {frame : Frame} {t : Transfer} {stack stack' : Value} {trace trace' : List Exchange}
    (h : Turns I (entity.callCode frame t.takes) stack trace stack' trace')
    (hcode : Installed code a (codeOf (entity.callLines frame t))) :
    (Snapshot.main a stack trace).Runs I code
      (.main (a + (entity.callLines frame t).length) stack' trace') :=
  Turns.lines (by rwa [Entity.codeOf_callLines]) hcode

/-- What lies under a result is given up, if anything does. -/
theorem Turns.release {I : Interpretation} {depth n extra : Int} {stack middle value : Value}
    {trace : List Exchange} (hextra : (middle.length : Int) = extra)
    (hn : (value.length : Int) = n) :
    Turns I (codeOf (Line.release depth n extra)) (stack ++ middle ++ value) trace (stack ++ value)
      trace := by
  unfold Line.release
  split
  · rw [codeOf_straight]
    exact .pop hextra hn
  · have hempty : middle = [] := List.length_eq_zero_iff.1 (by omega)
    rw [hempty, List.append_nil]
    exact .nil

/-! ## Jumps -/

namespace Snapshot.Runs

variable {I : Interpretation} {code : List Instruction} {a target : Nat} {stack : Value}
  {trace : List Exchange} {n word depth depth' : Int}

theorem jump (hat : code[a]? = some (Line.jump target depth).instruction) :
    (main a stack trace).Runs I code (main target stack trace) := by
  have htarget : (target : Int).toNat? = some target := rfl
  refine step hat ?_
  simp [Line.jump, Instruction.execute, Instruction.plain, main, htarget]

theorem jumpIf_taken (hat : code[a]? = some (Line.jumpIf n target depth).instruction) :
    (main a (stack ++ [some n]) trace).Runs I code (main target stack trace) := by
  have htarget : (target : Int).toNat? = some target := rfl
  refine step hat ?_
  simp [Line.jumpIf, Instruction.execute, Instruction.plain, main, htarget]

theorem jumpIf_not_taken (hat : code[a]? = some (Line.jumpIf n target depth).instruction)
    (hword : word ≠ n) :
    (main a (stack ++ [some word]) trace).Runs I code (main (a + 1) stack trace) := by
  refine step hat ?_
  simp [Line.jumpIf, Instruction.execute, Instruction.plain, main, resume, hword]

variable {c : Snapshot} {stack₁ stack₂ : Value} {trace₁ trace₂ : List Exchange}
  {l₁ l₂ l₃ : List Line}

/-- Through lines, and then through those behind them. -/
theorem append (h : c.Runs I code (main (a + l₁.length) stack₁ trace₁))
    (h' : (main (a + l₁.length) stack₁ trace₁).Runs I code
      (main (a + l₁.length + l₂.length) stack₂ trace₂)) :
    c.Runs I code (main (a + (l₁ ++ l₂).length) stack₂ trace₂) := by
  rw [List.length_append, ← Nat.add_assoc]
  exact h.trans h'

/-- A jump on a truth value is taken if it is the one that the jump is for. -/
theorem jumpIf (b holds : Bool)
    (hat : code[a]? = some (Line.jumpIf (Machine.truth b) target depth).instruction) :
    (main a (stack ++ [some (Machine.truth holds)]) trace).Runs I code
      (main (if holds = b then target else a + 1) stack trace) := by
  by_cases hsame : holds = b
  · subst hsame
    rw [if_pos rfl]
    exact jumpIf_taken hat
  · rw [if_neg hsame]
    refine jumpIf_not_taken hat fun htruth => hsame ?_
    cases holds <;> cases b <;> first | rfl | exact absurd htruth (by decide)

/-- Of two branches the one that the condition selects is run. -/
theorem branch (holds : Bool)
    (hcode : Installed code a (codeOf (l₁ ++
      Line.jumpIf Machine.falseRep (a + l₁.length + 1 + l₂.length + 1) depth ::
        (l₂ ++ Line.jump (a + l₁.length + 1 + l₂.length + 1 + l₃.length) depth' :: l₃))))
    (hcondition : Installed code a (codeOf l₁) → (main a stack trace).Runs I code
      (main (a + l₁.length) (stack ++ [some (Machine.truth holds)]) trace))
    (hthen : holds = true → Installed code (a + l₁.length + 1) (codeOf l₂) →
      (main (a + l₁.length + 1) stack trace).Runs I code
        (main (a + l₁.length + 1 + l₂.length) stack₁ trace₁))
    (helse : holds = false → Installed code (a + l₁.length + 1 + l₂.length + 1) (codeOf l₃) →
      (main (a + l₁.length + 1 + l₂.length + 1) stack trace).Runs I code
        (main (a + l₁.length + 1 + l₂.length + 1 + l₃.length) stack₁ trace₁)) :
    (main a stack trace).Runs I code (main (a + (l₁ ++
      Line.jumpIf Machine.falseRep (a + l₁.length + 1 + l₂.length + 1) depth ::
        (l₂ ++ Line.jump (a + l₁.length + 1 + l₂.length + 1 + l₃.length) depth' :: l₃)).length)
      stack₁ trace₁) := by
  have hbranches := hcode.back.rest
  have hend : a + (l₁ ++ Line.jumpIf Machine.falseRep (a + l₁.length + 1 + l₂.length + 1) depth ::
      (l₂ ++ Line.jump (a + l₁.length + 1 + l₂.length + 1 + l₃.length) depth' :: l₃)).length =
        a + l₁.length + 1 + l₂.length + 1 + l₃.length := by
    simp only [List.length_append, List.length_cons]
    omega
  rw [hend]
  refine (hcondition hcode.front).trans ((jumpIf false holds hcode.back.first).trans ?_)
  -- the first branch ends with a jump over the second one
  cases holds with
  | true => exact (hthen rfl hbranches.front).trans (jump hbranches.back.first)
  | false => exact helse rfl hbranches.back.rest

end Snapshot.Runs

end TriangleTam
