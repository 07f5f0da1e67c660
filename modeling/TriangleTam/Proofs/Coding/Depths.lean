import TriangleTam.Proofs.Coding.Scheme

/-! # Depths of the stack

  The lines of the code scheme say how deep the stack is before each of them.
  Lines are **closed** when control that is among them stays among them or
  comes out at their end, and the stack is as deep as the next line says
  wherever control goes. Every piece of code of the scheme is closed, whatever
  its loops and branches, and the depths at its start and its end are the size
  of the frame, without and with the words that the piece leaves.

  A call is one step here: the routine takes its arguments and leaves its
  result.
-/

namespace TriangleTam

/-! ## Depths of lines -/

namespace Line

/-- The depth of the stack at place `i` of lines after which the depth is `exit`. -/
def depthAt (lines : List Line) (exit : Int) (i : Nat) : Int :=
  (lines[i]?.map (·.depth)).getD exit

@[simp] theorem depthAt_length (lines : List Line) (exit : Int) :
    depthAt lines exit lines.length = exit := by
  simp [depthAt]

@[simp] theorem depthAt_cons_zero (line : Line) (lines : List Line) (exit : Int) :
    depthAt (line :: lines) exit 0 = line.depth := rfl

/-- Up to its end, the depths of the first part are its own. -/
theorem depthAt_append_left {first second : List Line} {middle exit : Int}
    (h : depthAt second exit 0 = middle) {i : Nat} (hi : i ≤ first.length) :
    depthAt (first ++ second) exit i = depthAt first middle i := by
  unfold depthAt at h ⊢
  rcases Nat.lt_or_eq_of_le hi with hlt | rfl
  · rw [List.getElem?_append_left hlt, List.getElem?_eq_getElem hlt]
    rfl
  · rw [List.getElem?_append_right (Nat.le_refl _), Nat.sub_self, h]
    simp

theorem depthAt_append_right (first second : List Line) (exit : Int) (j : Nat) :
    depthAt (first ++ second) exit (first.length + j) = depthAt second exit j := by
  unfold depthAt
  rw [List.getElem?_append_right (Nat.le_add_right _ _), Nat.add_sub_cancel_left]

/-- Straight lines start at their depth, and if there are none end there too. -/
theorem depthAt_straight {depth exit : Int} {is : List Instruction}
    (h : is = [] → exit = depth) : depthAt (straight depth is) exit 0 = depth := by
  cases is with
  | nil => exact h rfl
  | cons i is => rfl

/-- Giving up storage starts and ends at the right depths, also where there is none. -/
theorem depthAt_release {depth n extra exit : Int} (hextra : 0 ≤ extra)
    (hexit : exit = depth - extra) : depthAt (release depth n extra) exit 0 = depth := by
  unfold release
  by_cases hpos : extra > 0
  · rw [if_pos hpos]
    rfl
  · rw [if_neg hpos]
    show exit = depth
    omega

end Line

/-! ## Control -/

/-- After the instruction at `a`, and after the routine if it calls one, control may be
    at `a'`. -/
inductive Instruction.Goes (i : Instruction) (a a' : Nat) : Prop
  | next :
      i.op ≠ .jump → i.op ≠ .jumpI → i.op ≠ .ret → i.op ≠ .halt → a' = a + 1 → Goes i a a'
  | jump :
      i.op = .jump ∨ i.op = .jumpIf → (i.r = Register.cb.number → i.d = a') → Goes i a a'
  | jumpI : i.op = .jumpI → Goes i a a'

namespace Line

/-- In lines that start at `base`, or at their end, there is the address `a` with the
    depth `d`. -/
def At (base : Nat) (lines : List Line) (exit : Int) (a : Nat) (d : Int) : Prop :=
  ∃ i, i ≤ lines.length ∧ a = base + i ∧ depthAt lines exit i = d

/-- Wherever control goes from one of the lines, it finds the depth that `D` says. -/
def Follows (D : Nat → Int → Prop) (base : Nat) (lines : List Line) : Prop :=
  ∀ (i : Nat) (line : Line) (a' : Nat), lines[i]? = some line →
    line.instruction.Goes (base + i) a' → D a' line.after

/-- Lines that start at `base` and from which control comes out at their end alone, with the
    depth `entry` before them and `exit` behind. -/
structure Closed (base : Nat) (lines : List Line) (entry exit : Int) : Prop where
  entry : depthAt lines exit 0 = entry
  goes  : Follows (At base lines exit) base lines

variable {base : Nat} {line : Line} {lines first second : List Line} {entry middle exit d : Int}
  {a : Nat} {D D' : Nat → Int → Prop}

namespace At

theorem start (h : depthAt lines exit 0 = entry) : At base lines exit base entry :=
  ⟨0, Nat.zero_le _, rfl, h⟩

theorem finish : At base lines exit (base + lines.length) exit :=
  ⟨lines.length, Nat.le_refl _, rfl, depthAt_length lines exit⟩

theorem append_left (hentry : depthAt second exit 0 = middle) (h : At base first middle a d) :
    At base (first ++ second) exit a d := by
  obtain ⟨i, hi, ha, hd⟩ := h
  refine ⟨i, ?_, ha, ?_⟩
  · rw [List.length_append]
    exact Nat.le_add_right_of_le hi
  · rw [depthAt_append_left hentry hi, hd]

theorem append_right (h : At (base + first.length) second exit a d) :
    At base (first ++ second) exit a d := by
  obtain ⟨i, hi, ha, hd⟩ := h
  refine ⟨first.length + i, ?_, ?_, ?_⟩
  · rw [List.length_append]
    exact Nat.add_le_add_left hi _
  · rw [ha, Nat.add_assoc]
  · rw [depthAt_append_right, hd]

theorem cons (h : At (base + 1) lines exit a d) : At base (line :: lines) exit a d := by
  rw [← List.singleton_append]
  exact append_right h

/-- Behind a line. -/
theorem next : At base [line] exit (base + 1) exit := .cons .finish

end At

namespace Follows

theorem nil : Follows D base [] := by
  intro i line a' hline
  cases hline

theorem mono (h : Follows D base lines) (hD : ∀ {a d}, D a d → D' a d) :
    Follows D' base lines :=
  fun _ _ _ hline hgoes => hD (h _ _ _ hline hgoes)

theorem append (h : Follows D base first) (h' : Follows D (base + first.length) second) :
    Follows D base (first ++ second) := by
  intro i line a' hline hgoes
  by_cases hi : i < first.length
  · rw [List.getElem?_append_left hi] at hline
    exact h _ _ _ hline hgoes
  · obtain ⟨k, rfl⟩ : ∃ k, i = first.length + k := ⟨i - first.length, by omega⟩
    rw [List.getElem?_append_right (Nat.le_add_right _ _), Nat.add_sub_cancel_left] at hline
    rw [← Nat.add_assoc] at hgoes
    exact h' _ _ _ hline hgoes

theorem single (h : ∀ {a'}, line.instruction.Goes base a' → D a' line.after) :
    Follows D base [line] := by
  intro i found a' hfound hgoes
  cases i with
  | zero =>
    obtain rfl : line = found := Option.some.inj hfound
    exact h hgoes
  | succ i => cases hfound

theorem cons (h : ∀ {a'}, line.instruction.Goes base a' → D a' line.after)
    (h' : Follows D (base + 1) lines) : Follows D base (line :: lines) := by
  rw [← List.singleton_append]
  exact append (single h) h'

end Follows

/-! ## Closed lines -/

@[simp] theorem after_jump (target : Nat) (depth : Int) : (jump target depth).after = depth := by
  show depth - 0 + 0 = depth
  omega

@[simp] theorem after_jumpIf (n : Int) (target : Nat) (depth : Int) :
    (jumpIf n target (depth + 1)).after = depth := by
  show depth + 1 - 1 + 0 = depth
  omega

/-- A jump goes to its target alone. -/
theorem goes_jump {target a' : Nat} {depth : Int}
    (h : (jump target depth).instruction.Goes base a') : a' = target := by
  cases h with
  | next hop => exact absurd rfl hop
  | jump _ hd => exact Int.ofNat.inj (hd rfl).symm
  | jumpI hop => cases hop

/-- A conditional jump goes to its target, or control goes on behind it. -/
theorem goes_jumpIf {n : Int} {target a' : Nat} {depth : Int}
    (h : (jumpIf n target depth).instruction.Goes base a') : a' = target ∨ a' = base + 1 := by
  cases h with
  | next _ _ _ _ ha => exact .inr ha
  | jump _ hd => exact .inl (Int.ofNat.inj (hd rfl).symm)
  | jumpI hop => cases hop

namespace Closed

theorem nil : Closed base [] exit exit := ⟨rfl, .nil⟩

theorem append (h : Closed base first entry middle)
    (h' : Closed (base + first.length) second middle exit) :
    Closed base (first ++ second) entry exit := by
  refine ⟨?_, .append (h.goes.mono (.append_left h'.entry)) (h'.goes.mono .append_right)⟩
  rw [depthAt_append_left h'.entry (Nat.zero_le _), h.entry]

/-- A line behind which control goes on. -/
theorem single (h : ∀ {a'}, line.instruction.Goes base a' → a' = base + 1)
    (hentry : line.depth = entry) (hafter : line.after = exit) :
    Closed base [line] entry exit := by
  refine ⟨hentry, .single fun hgoes => ?_⟩
  rw [h hgoes, hafter]
  exact .next

/-- A line behind which control goes on, and more lines. -/
theorem cons (h : ∀ {a'}, line.instruction.Goes base a' → a' = base + 1)
    (hentry : line.depth = entry) (h' : Closed (base + 1) lines line.after exit) :
    Closed base (line :: lines) entry exit := by
  rw [← List.singleton_append]
  exact append (single h hentry rfl) h'

/-- A condition, a jump to the second branch, the first branch and a jump over the second. -/
theorem ifElse {l₁ l₂ l₃ : List Line} (h₁ : Closed base l₁ entry (middle + 1))
    (h₂ : Closed (base + l₁.length + 1) l₂ middle exit)
    (h₃ : Closed (base + l₁.length + 1 + l₂.length + 1) l₃ middle exit) :
    Closed base (l₁ ++ jumpIf Machine.falseRep (base + l₁.length + 1 + l₂.length + 1)
      (middle + 1) :: (l₂ ++ jump (base + l₁.length + 1 + l₂.length + 1 + l₃.length) exit :: l₃))
      entry exit := by
  have hentry₂ : depthAt (l₂ ++ jump (base + l₁.length + 1 + l₂.length + 1 + l₃.length) exit ::
      l₃) exit 0 = middle := by
    rw [depthAt_append_left rfl (Nat.zero_le _)]
    exact h₂.entry
  refine ⟨?_, .append (h₁.goes.mono (.append_left rfl)) (.cons ?_ (.append ?_ (.cons ?_ ?_)))⟩
  · rw [depthAt_append_left rfl (Nat.zero_le _)]
    exact h₁.entry
  · intro a' hgoes
    rw [after_jumpIf]
    apply At.append_right
    rcases goes_jumpIf hgoes with rfl | rfl
    · exact .cons (.append_right (.cons (.start h₃.entry)))
    · exact .cons (.start hentry₂)
  · exact h₂.goes.mono fun h => .append_right (.cons (.append_left rfl h))
  · intro a' hgoes
    rw [after_jump, goes_jump hgoes]
    exact .append_right (.cons (.append_right (.cons .finish)))
  · exact h₃.goes.mono fun h => .append_right (.cons (.append_right (.cons h)))

/-- A jump to the condition, which stands behind the body and jumps back to it. -/
theorem whileDo {l₁ l₂ : List Line} {n : Int} (h₁ : Closed (base + 1) l₁ d d)
    (h₂ : Closed (base + 1 + l₁.length) l₂ d (d + 1)) :
    Closed base (jump (base + 1 + l₁.length) d :: (l₁ ++ (l₂ ++ [jumpIf n (base + 1) (d + 1)])))
      d d := by
  have hentry₂ : depthAt (l₂ ++ [jumpIf n (base + 1) (d + 1)]) d 0 = d := by
    rw [depthAt_append_left rfl (Nat.zero_le _)]
    exact h₂.entry
  have hentry₁ : depthAt (l₁ ++ (l₂ ++ [jumpIf n (base + 1) (d + 1)])) d 0 = d := by
    rw [depthAt_append_left hentry₂ (Nat.zero_le _)]
    exact h₁.entry
  refine ⟨rfl, .cons ?_ (.append ?_ (.append ?_ (.single ?_)))⟩
  · intro a' hgoes
    rw [after_jump, goes_jump hgoes]
    exact .cons (.append_right (.start hentry₂))
  · exact h₁.goes.mono fun h => .cons (.append_left hentry₂ h)
  · exact h₂.goes.mono fun h => .cons (.append_right (.append_left rfl h))
  · intro a' hgoes
    rw [after_jumpIf]
    rcases goes_jumpIf hgoes with rfl | rfl
    · exact .cons (.start hentry₁)
    · exact .cons (.append_right (.append_right .next))

/-- A body and a condition that jumps back to it. -/
theorem repeatUntil {l₁ l₂ : List Line} {n : Int} (h₁ : Closed base l₁ d d)
    (h₂ : Closed (base + l₁.length) l₂ d (d + 1)) :
    Closed base (l₁ ++ (l₂ ++ [jumpIf n base (d + 1)])) d d := by
  have hentry₂ : depthAt (l₂ ++ [jumpIf n base (d + 1)]) d 0 = d := by
    rw [depthAt_append_left rfl (Nat.zero_le _)]
    exact h₂.entry
  have hentry₁ : depthAt (l₁ ++ (l₂ ++ [jumpIf n base (d + 1)])) d 0 = d := by
    rw [depthAt_append_left hentry₂ (Nat.zero_le _)]
    exact h₁.entry
  refine ⟨hentry₁, .append ?_ (.append ?_ (.single ?_))⟩
  · exact h₁.goes.mono (.append_left hentry₂)
  · exact h₂.goes.mono fun h => .append_right (.append_left rfl h)
  · intro a' hgoes
    rw [after_jumpIf]
    rcases goes_jumpIf hgoes with rfl | rfl
    · exact .start hentry₁
    · exact .append_right (.append_right .next)

/-- A body, a condition that jumps out of the loop, and a tail that jumps back. -/
theorem loopWhile {l₁ l₂ l₃ : List Line} {n : Int} (h₁ : Closed base l₁ d d)
    (h₂ : Closed (base + l₁.length) l₂ d (d + 1))
    (h₃ : Closed (base + l₁.length + l₂.length + 1) l₃ d d) :
    Closed base (l₁ ++ (l₂ ++
      jumpIf n (base + l₁.length + l₂.length + 1 + l₃.length + 1) (d + 1) ::
        (l₃ ++ [jump base d]))) d d := by
  have hentry₃ : depthAt (l₃ ++ [jump base d]) d 0 = d := by
    rw [depthAt_append_left rfl (Nat.zero_le _)]
    exact h₃.entry
  have hentry₂ : depthAt (l₂ ++ jumpIf n (base + l₁.length + l₂.length + 1 + l₃.length + 1)
      (d + 1) :: (l₃ ++ [jump base d])) d 0 = d := by
    rw [depthAt_append_left rfl (Nat.zero_le _)]
    exact h₂.entry
  have hentry₁ : depthAt (l₁ ++ (l₂ ++ jumpIf n
      (base + l₁.length + l₂.length + 1 + l₃.length + 1) (d + 1) :: (l₃ ++ [jump base d])))
      d 0 = d := by
    rw [depthAt_append_left hentry₂ (Nat.zero_le _)]
    exact h₁.entry
  -- each line goes to the next, the first of the next piece, or where it jumps
  refine ⟨hentry₁, .append ?_ (.append ?_ (.cons ?_ (.append ?_ (.single ?_))))⟩
  · exact h₁.goes.mono (.append_left hentry₂)
  · exact h₂.goes.mono fun h => .append_right (.append_left rfl h)
  · intro a' hgoes
    rw [after_jumpIf]
    -- out of the loop, behind the jump back, or on to the tail
    rcases goes_jumpIf hgoes with rfl | rfl
    · exact .append_right (.append_right (.cons (.append_right .next)))
    · exact .append_right (.append_right (.cons (.start hentry₃)))
  · exact h₃.goes.mono fun h => .append_right (.append_right (.cons (.append_left rfl h)))
  · intro a' hgoes
    rw [after_jump, goes_jump hgoes]
    exact .start hentry₁

/-- The body of a routine, which its return ends, with a jump over both. -/
theorem routine {l : List Line} {n words : Int} (h : Closed (base + 1) l middle exit) :
    Closed base (jump (base + 1 + l.length + 1) d :: (l ++ [ret n words exit])) d d := by
  refine ⟨rfl, .cons ?_ (.append ?_ (.single ?_))⟩
  · intro a' hgoes
    rw [after_jump, goes_jump hgoes]
    exact .cons (.append_right .next)
  · exact h.goes.mono fun h => .cons (.append_left rfl h)
  · intro a' hgoes
    cases hgoes with
    | next _ _ hop => exact absurd rfl hop
    | jump hop => cases hop <;> contradiction
    | jumpI hop => cases hop

end Closed

end Line

/-! ## Straight code -/

namespace Instruction

@[simp] theorem transfer_primitive (p : Primitive) : (primitive p).transfer = p.transfer := by
  cases p <;> rfl

/-- Control goes on behind anything but a jump. -/
theorem Goes.eq_next {i : Instruction} {a a' : Nat} (h : i.Goes a a') (hjump : i.op ≠ .jump)
    (hjumpIf : i.op ≠ .jumpIf) (hjumpI : i.op ≠ .jumpI) : a' = a + 1 := by
  cases h with
  | next _ _ _ _ ha => exact ha
  | jump hop =>
    rcases hop with hop | hop
    · exact absurd hop hjump
    · exact absurd hop hjumpIf
  | jumpI hop => exact absurd hop hjumpI

/-- The instruction moves data, or calls a primitive that is no equality. -/
def IsStraight (i : Instruction) : Prop :=
  match i.op with
  | .load | .loadA | .loadI | .loadL | .store | .storeI | .push | .pop => True
  | .call => ∃ p : Primitive, ¬ p.IsEquality ∧ i = .primitive p
  | .callI | .ret | .jump | .jumpI | .jumpIf | .halt => False

theorem IsStraight.goes {i : Instruction} (h : i.IsStraight) {a a' : Nat} (hgoes : i.Goes a a') :
    a' = a + 1 := by
  unfold IsStraight at h
  apply hgoes.eq_next <;> intro hop <;> rw [hop] at h <;> exact h

/-- The instructions are straight and deepen the stack by `n` words. -/
inductive Deepen : List Instruction → Int → Prop
  | nil : Deepen [] 0
  | cons {i is n} : i.IsStraight → Deepen is n →
      Deepen (i :: is) (i.transfer.leaves - i.transfer.takes + n)

namespace Deepen

variable {is js : List Instruction} {i : Instruction} {m n : Int}

theorem append (h : Deepen is m) (h' : Deepen js n) : Deepen (is ++ js) (m + n) := by
  induction h with
  | nil =>
    rw [Int.zero_add]
    exact h'
  | cons hi _ ih =>
    rw [Int.add_assoc]
    exact .cons hi ih

theorem single (h : i.IsStraight) (hn : i.transfer.leaves - i.transfer.takes = n) :
    Deepen [i] n := by
  rw [← hn, ← Int.add_zero (i.transfer.leaves - i.transfer.takes)]
  exact .cons h .nil

theorem of_eq (h : Deepen is m) (hmn : m = n) : Deepen is n := hmn ▸ h

theorem literal (value : Int) : Deepen [.plain .loadL 0 value] 1 := single trivial rfl

theorem push (size : Int) : Deepen [.plain .push 0 size] size :=
  single trivial (Int.sub_zero size)

theorem add : Deepen [.primitive .add] (-1) := single ⟨.add, by decide, rfl⟩ rfl

theorem mult : Deepen [.primitive .mult] (-1) := single ⟨.mult, by decide, rfl⟩ rfl

end Deepen

end Instruction

open Instruction (Deepen)

/-- Adding an index takes the index that waits. -/
theorem Access.deepen_indexCode (access : Access) : Deepen access.indexCode (-access.pending) := by
  unfold indexCode pending
  by_cases hindexed : access.indexed
  · rw [if_pos hindexed, if_pos hindexed]
    exact .add
  · rw [if_neg hindexed, if_neg hindexed]
    exact .nil

theorem deepen_scaleCode (width : Int) : Deepen (scaleCode width) 0 := by
  unfold scaleCode
  by_cases hwidth : width ≠ 1
  · rw [if_pos hwidth]
    exact (Deepen.literal width).append .mult
  · rw [if_neg hwidth]
    exact .nil

namespace Address

/-- An address on the stack is where the index was that waited. -/
theorem deepen_pushCode (address : Address) (frame : Frame) (access : Access) :
    Deepen (address.pushCode frame access) (1 - access.pending) := by
  have hpush : Deepen [⟨.loadA, (frame.register address.level).number, 0,
      address.displacement + access.offset⟩] 1 := .single trivial rfl
  exact hpush.append access.deepen_indexCode

theorem deepen_pushStoredCode (address : Address) (frame : Frame) (access : Access) :
    Deepen (address.pushStoredCode frame access) (1 - access.pending) := by
  have hload : Deepen [⟨.load, (frame.register address.level).number, Machine.addressSize,
      address.displacement⟩] 1 := .single trivial rfl
  have hoffset : Deepen (if access.offset = 0 then []
      else [.plain .loadL 0 access.offset, .primitive .add]) 0 := by
    by_cases hzero : access.offset = 0
    · rw [if_pos hzero]
      exact .nil
    · rw [if_neg hzero]
      exact (Deepen.literal access.offset).append .add
  refine (hload.append (access.deepen_indexCode.append hoffset)).of_eq ?_
  omega

end Address

namespace Entity

theorem Suits.deepen_fetchCode {entity : Entity} {access : Access} {n : Int}
    (h : entity.Suits access n) (frame : Frame) :
    Deepen (entity.fetchCode frame n access) (n - access.pending) := by
  -- a direct load pushes its words, and there is no index below them
  have hload (i : Instruction) (hi : i.op = .load) (hn : i.n = n)
      (hindexed : ¬ access.indexed = true) : Deepen [i] (n - access.pending) := by
    have hpending : access.pending = 0 := if_neg hindexed
    refine .single (by rw [Instruction.IsStraight, hi]; trivial) ?_
    rw [Instruction.transfer, hi, hpending, hn]
  -- a load through an address takes it from where the index was
  have hloadI {code : List Instruction} (hcode : Deepen code (1 - access.pending)) :
      Deepen (code ++ [.plain .loadI n 0]) (n - access.pending) := by
    have hlast : Deepen [.plain .loadI n 0] (n - 1) := .single trivial rfl
    refine (hcode.append hlast).of_eq ?_
    omega
  cases entity with
  | knownValue _ value =>
    obtain ⟨rfl, rfl⟩ := h
    exact .literal value
  | unknownValue _ address | knownAddress _ address =>
    unfold fetchCode
    dsimp only
    by_cases hindexed : access.indexed
    · rw [if_pos hindexed]
      exact hloadI (address.deepen_pushCode frame access)
    · rw [if_neg hindexed]
      exact hload _ rfl rfl hindexed
  | unknownAddress _ address => exact hloadI (address.deepen_pushStoredCode frame access)
  | _ => exact False.elim h

theorem IsVariable.deepen_storeCode {entity : Entity} (h : entity.IsVariable) (frame : Frame)
    (n : Int) (access : Access) :
    Deepen (entity.storeCode frame n access) (-(n + access.pending)) := by
  have hstoreI {code : List Instruction} (hcode : Deepen code (1 - access.pending)) :
      Deepen (code ++ [.plain .storeI n 0]) (-(n + access.pending)) := by
    have hlast : Deepen [.plain .storeI n 0] (0 - (n + 1)) := .single trivial rfl
    refine (hcode.append hlast).of_eq ?_
    omega
  cases entity with
  | knownAddress _ address =>
    unfold storeCode
    dsimp only
    by_cases hindexed : access.indexed
    · rw [if_pos hindexed]
      exact hstoreI (address.deepen_pushCode frame access)
    · rw [if_neg hindexed]
      have hpending : access.pending = 0 := if_neg hindexed
      rw [hpending]
      have hstore : Deepen [⟨.store, (frame.register address.level).number, n,
          address.displacement + access.offset⟩] (0 - n) := .single trivial rfl
      exact hstore.of_eq (by omega)
  | unknownAddress _ address => exact hstoreI (address.deepen_pushStoredCode frame access)
  | _ => exact h.elim

theorem IsVariable.deepen_addressCode {entity : Entity} (h : entity.IsVariable) (frame : Frame)
    (access : Access) :
    Deepen (entity.addressCode frame access) (Machine.addressSize - access.pending) := by
  cases entity with
  | knownAddress _ address => exact address.deepen_pushCode frame access
  | unknownAddress _ address => exact address.deepen_pushStoredCode frame access
  | _ => exact h.elim

theorem IsRoutine.deepen_closureCode {entity : Entity} (h : entity.IsRoutine) (frame : Frame) :
    Deepen (entity.closureCode frame) Machine.closureSize := by
  have hpair (r r' : Register) (d d' : Int) :
      Deepen [⟨.loadA, r.number, 0, d⟩, ⟨.loadA, r'.number, 0, d'⟩] Machine.closureSize := by
    have hfirst : Deepen [⟨.loadA, r.number, 0, d⟩] 1 := .single trivial rfl
    have hsecond : Deepen [⟨.loadA, r'.number, 0, d'⟩] 1 := .single trivial rfl
    exact hfirst.append hsecond
  cases entity with
  | knownRoutine _ address => exact hpair _ .cb _ _
  | unknownRoutine _ address => exact .single trivial rfl
  | primitiveRoutine p | equalityRoutine p => exact hpair .sb .pb _ _
  | barRoutine => exact hpair .sb .pb _ _
  | _ => exact h.elim

end Entity

/-! ## The code of the scheme is closed -/

namespace Line

variable {base : Nat} {depth exit : Int}

theorem closed_straight {is : List Instruction} {n : Int} (h : Deepen is n)
    (hexit : exit = depth + n) : Closed base (straight depth is) depth exit := by
  induction h generalizing base depth with
  | nil =>
    rw [hexit, Int.add_zero]
    exact .nil
  | @cons i is n hi _ ih =>
    refine .cons (fun hgoes => hi.goes hgoes) rfl (ih ?_)
    show exit = depth - i.transfer.takes + i.transfer.leaves + n
    omega

theorem closed_release {n extra : Int} (hextra : 0 ≤ extra) (hexit : exit = depth - extra) :
    Closed base (release depth n extra) depth exit := by
  unfold release
  by_cases hpos : extra > 0
  · rw [if_pos hpos]
    have hpop : Deepen [.plain .pop n extra] (n - (n + extra)) := .single trivial rfl
    exact closed_straight hpop (by omega)
  · rw [if_neg hpos]
    obtain rfl : exit = depth := by omega
    exact .nil

end Line

/-- A call takes its arguments and leaves its result. -/
theorem Entity.Performs.closed_callLines {π : Plan} {id : BindingId} {t : Transfer}
    {entity : Entity} (h : entity.Performs π id t) (frame : Frame) (base : Nat) :
    Line.Closed base (entity.callLines frame t) (frame.size + t.takes)
      (frame.size + t.leaves) := by
  -- a call goes on behind itself, whatever it calls
  have hcall {i : Instruction} {t' : Transfer} {base : Nat} {depth entry exit : Int}
      (hop : i.op = .call ∨ i.op = .callI) (hentry : depth = entry)
      (hexit : depth - t'.takes + t'.leaves = exit) :
      Line.Closed base [⟨i, depth, t'⟩] entry exit := by
    refine .single (fun hgoes => ?_) hentry hexit
    apply hgoes.eq_next <;> intro hop' <;> rw [hop'] at hop <;> rcases hop with hop | hop <;>
      cases hop
  cases h with
  | routine => exact hcall (.inl rfl) rfl (by omega)
  | closure =>
    refine .cons (fun hgoes => ?_) rfl (hcall (.inr rfl) ?_ ?_)
    · exact hgoes.eq_next nofun nofun nofun
    · show frame.size + t.takes + 2 = frame.size + t.takes - 0 + 2
      omega
    · show frame.size + t.takes + 2 - (t.takes + 2) + t.leaves = frame.size + t.leaves
      omega
  | @primitive p _ =>
    unfold callLines
    dsimp only
    -- the identity is no instruction at all
    by_cases hid : p = .id
    · subst hid
      exact .nil
    · rw [if_neg hid]
      exact hcall (.inl rfl) rfl (by omega)
  | @equality p n _ =>
    refine .cons (fun hgoes => ?_) rfl (hcall (.inl rfl) ?_ ?_)
    · exact hgoes.eq_next nofun nofun nofun
    · show frame.size + 2 * n + 1 = frame.size + 2 * n - 0 + 1
      omega
    · show frame.size + 2 * n + 1 - (2 * n + 1) + 1 = frame.size + 1
      omega
  | bar =>
    refine Line.closed_straight ((Deepen.literal 100).append .mult) ?_
    show frame.size + 1 = frame.size + 1 + 0
    omega

/-- No declaration leaves less than no storage. -/
theorem Declaration.Code.extra_nonneg {π : Plan} {F : Frame} {a : Nat}
    {declaration : Declaration} {lines : List Line} {extra : Int}
    (h : Declaration.Code π F a declaration lines extra) : 0 ≤ extra :=
  match h with
  | .literal .. | .proc .. | .func .. | .type => Int.le_refl 0
  | .const _ _ hn _ _ => hn
  | .var hwidth _ _ => hwidth
  | .sequence hfirst hsecond => Int.add_nonneg hfirst.extra_nonneg hsecond.extra_nonneg

mutual

theorem Command.Code.closed {π : Plan} {F : Frame} {a : Nat} {command : Command}
    {lines : List Line} : Command.Code π F a command lines → Line.Closed a lines F.size F.size
  | .empty => .nil
  | .assign hvalue htarget hvariable => by
    refine hvalue.closed.append (htarget.closed.append (Line.closed_straight
      (hvariable.deepen_storeCode _ _ _) ?_))
    show F.size = _
    omega
  | .call hargs _ _ hperforms hleaves => by
    have hcall (base : Nat) := hperforms.closed_callLines F base
    simp only [hleaves, Int.add_zero] at hcall
    exact hargs.closed.append (hcall _)
  | .sequence hfirst hsecond => hfirst.closed.append hsecond.closed
  | .letIn hdeclared hbody => by
    have hrelease := hdeclared.extra_nonneg
    exact hdeclared.closed.append (hbody.closed.append (Line.closed_release hrelease (by omega)))
  | .ifElse hcondition hthen helse => hcondition.closed.ifElse hthen.closed helse.closed
  | .whileDo hbody hcondition => hbody.closed.whileDo hcondition.closed
  | .repeatUntil hbody hcondition => hbody.closed.repeatUntil hcondition.closed
  | .loopWhile hbody hcondition htail => hbody.closed.loopWhile hcondition.closed htail.closed

theorem Expression.Code.closed {π : Plan} {F : Frame} {a : Nat} {expression : Expression}
    {lines : List Line} {n : Int} :
    Expression.Code π F a expression lines n → Line.Closed a lines F.size (F.size + n)
  | .integer | .character => Line.closed_straight (.literal _) rfl
  | .vname hfound hsuits =>
    hfound.closed.append (Line.closed_straight (hsuits.deepen_fetchCode F) (by omega))
  | .call hargs _ _ hperforms => hargs.closed.append (hperforms.closed_callLines F _)
  | .ifElse hcondition hthen helse => hcondition.closed.ifElse hthen.closed helse.closed
  | .letIn hdeclared hbody => by
    have hrelease := hdeclared.extra_nonneg
    exact hdeclared.closed.append (hbody.closed.append (Line.closed_release hrelease (by omega)))
  | .unary hoperand _ _ hperforms => hoperand.closed.append (hperforms.closed_callLines F _)
  | .binary hleft hright _ _ hperforms htakes => by
    have hcall (base : Nat) := hperforms.closed_callLines F base
    simp only [htakes, ← Int.add_assoc] at hcall
    exact hleft.closed.append (hright.closed.append (hcall _))
  | .array helements => helements.closed
  | .record hfields => hfields.closed

theorem ArrayAggregate.Code.closed {π : Plan} {F : Frame} {a : Nat} {elements : ArrayAggregate}
    {lines : List Line} {n : Int} :
    ArrayAggregate.Code π F a elements lines n → Line.Closed a lines F.size (F.size + n)
  | .one helement => helement.closed
  | .more helement hrest => by
    rw [← Int.add_assoc]
    exact helement.closed.append hrest.closed

theorem RecordAggregate.Code.closed {π : Plan} {F : Frame} {a : Nat} {fields : RecordAggregate}
    {lines : List Line} {n : Int} :
    RecordAggregate.Code π F a fields lines n → Line.Closed a lines F.size (F.size + n)
  | .one hvalue => hvalue.closed
  | .more hvalue hrest => by
    rw [← Int.add_assoc]
    exact hvalue.closed.append hrest.closed

theorem Vname.Code.closed {π : Plan} {F : Frame} {a : Nat} {vname : Vname} {lines : List Line}
    {entity : Entity} {access : Access} : Vname.Code π F a vname lines entity access →
    Line.Closed a lines F.size (F.size + access.pending)
  | .simple _ _ => by
    have hpending : ({} : Access).pending = 0 := rfl
    rw [hpending, Int.add_zero]
    exact .nil
  | .dot hrecord _ _ _ => hrecord.closed
  | .known harray _ _ => harray.closed
  | .unknown harray _ _ hindex => by
    refine harray.closed.append (hindex.closed.append (Line.closed_straight
      ((deepen_scaleCode _).append (Access.deepen_indexCode _)) ?_))
    show F.size + 1 = _
    omega

theorem Declaration.Code.closed {π : Plan} {F : Frame} {a : Nat} {declaration : Declaration}
    {lines : List Line} {extra : Int} : Declaration.Code π F a declaration lines extra →
    Line.Closed a lines F.size (F.size + extra)
  | .literal .. | .type => by
    rw [Int.add_zero]
    exact .nil
  | .const _ hvalue _ _ _ => hvalue.closed
  | .var _ _ _ => Line.closed_straight (.push _) rfl
  | .proc _ _ hbody => by
    rw [Int.add_zero]
    exact .routine hbody.closed
  | .func _ _ hbody => by
    rw [Int.add_zero]
    exact .routine hbody.closed
  | .sequence hfirst hsecond => by
    rw [← Int.add_assoc]
    exact hfirst.closed.append hsecond.closed

theorem Actuals.Code.closed {π : Plan} {F : Frame} {a : Nat} {actuals : Actuals}
    {lines : List Line} {n : Int} :
    Actuals.Code π F a actuals lines n → Line.Closed a lines F.size (F.size + n)
  | .empty => by
    rw [Int.add_zero]
    exact .nil
  | .one hfirst => hfirst.closed
  | .more hfirst hrest => by
    rw [← Int.add_assoc]
    exact hfirst.closed.append hrest.closed

theorem Actual.Code.closed {π : Plan} {F : Frame} {a : Nat} {actual : Actual}
    {lines : List Line} {n : Int} :
    Actual.Code π F a actual lines n → Line.Closed a lines F.size (F.size + n)
  | .const hvalue => hvalue.closed
  | .var hfound hvariable =>
    hfound.closed.append (Line.closed_straight (hvariable.deepen_addressCode F _) (by omega))
  | .proc _ _ hroutine | .func _ _ hroutine =>
    Line.closed_straight (hroutine.deepen_closureCode F) rfl

end

end TriangleTam
