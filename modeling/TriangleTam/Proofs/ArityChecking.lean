import TriangleTam.Proofs.Coding.Passing
import TriangleTam.Proofs.Printing.Producible
import TriangleTam.Proofs.Spans.Nodes

/-! # Numbers of parameters

  Actual parameters are checked against the formal ones in pairs. Where there
  are as many of both, every pair is checked, and nothing else is said. Where
  the numbers differ, that is reported once: behind the pairs that are checked,
  which are all but the last that the shorter list allows. What is not checked
  stays as it was parsed.
-/

namespace TriangleTam

/-! ## Lists of parameters -/

namespace Actuals

/-- The parameters with other ones in the place of the first. -/
def refill : Actuals → List Actual → Actuals
  | .one span _, first :: _ => .one span first
  | .more span _ rest, first :: others => .more span first (rest.refill others)
  | args, _ => args

/-- The span of what is left behind the first parameters, but of the last one at most. -/
def spanBehind : Actuals → Nat → Span
  | .more _ _ rest, count + 1 => rest.spanBehind count
  | args, _ => args.span

/-- The cause to complain, if there are `n` actual parameters for `m` formal ones. -/
def arityCause? (n m : Nat) : Option SemanticCause :=
  if n = m then none
  else if n = 0 then some .tooFewActuals
  else if n < m ∨ n = 1 then some .wrongNumberOfActuals
  else some .tooManyActuals

/-- How many of `n` actual parameters are checked against `m` formal ones. -/
def checkedCount (n m : Nat) : Nat := if n = m then n else min n m - 1

variable {n m : Nat}

theorem arityCause?_self : arityCause? n n = none := if_pos rfl

theorem arityCause?_of_ne (h : n ≠ m) : ∃ cause, arityCause? n m = some cause ∧
    cause ∈ [SemanticCause.tooFewActuals, .wrongNumberOfActuals, .tooManyActuals] := by
  unfold arityCause?
  rw [if_neg h]
  split
  · exact ⟨_, rfl, by simp⟩
  · split
    · exact ⟨_, rfl, by simp⟩
    · exact ⟨_, rfl, by simp⟩

/-- With one parameter more on both sides the complaint is the same. -/
theorem arityCause?_succ (hn : 0 < n) (hm : 0 < m) :
    arityCause? (n + 1) (m + 1) = arityCause? n m := by
  unfold arityCause?
  by_cases heq : n = m
  · rw [if_pos heq, if_pos (congrArg (· + 1) heq)]
  · have hmore : ¬ n + 1 = m + 1 := fun h => heq (Nat.succ.inj h)
    have hlone : (n + 1 < m + 1 ∨ n + 1 = 1) ↔ (n < m ∨ n = 1) := by omega
    rw [if_neg heq, if_neg hmore, if_neg (Nat.succ_ne_zero n), if_neg hn.ne',
      if_congr hlone rfl rfl]

theorem checkedCount_succ (hn : 0 < n) (hm : 0 < m) :
    checkedCount (n + 1) (m + 1) = checkedCount n m + 1 := by
  unfold checkedCount
  split <;> split <;> omega

/-- Several actual parameters for one formal one at most are too many, and none is checked. -/
theorem arityCause?_several (hn : 1 < n) (hm : m ≤ 1) : arityCause? n m = some .tooManyActuals := by
  unfold arityCause?
  rw [if_neg (by omega), if_neg (by omega), if_neg (by omega)]

theorem checkedCount_several (hn : 1 < n) (hm : m ≤ 1) : checkedCount n m = 0 := by
  unfold checkedCount
  rw [if_neg (by omega)]
  omega

theorem checkedCount_le_min : checkedCount n m ≤ min n m := by
  unfold checkedCount
  split <;> omega

theorem list_refill : ∀ (args : Actuals) (checked : List Actual),
    checked.length ≤ args.list.length →
      (args.refill checked).list = checked ++ args.list.drop checked.length
  | .empty _, [], _ | .one .., [], _ | .more .., [], _ => rfl
  | .one .., [_], _ => rfl
  | .more _ _ rest, first :: others, h => by
    rw [refill, list, list_refill rest others (Nat.le_of_succ_le_succ h)]
    rfl
  | .empty _, _ :: _, h => absurd h (Nat.not_succ_le_zero _)
  | .one .., _ :: _ :: _, h => absurd (Nat.le_of_succ_le_succ h) (Nat.not_succ_le_zero _)

/-- Where nothing was found about a sequence, nothing was found about its parameters. -/
theorem producible_of_mem {arg : Actual} : ∀ {args : Actuals}, args.bare.Producible →
    arg ∈ args.list → arg.bare.Producible
  | .empty _, _, hmem => absurd hmem List.not_mem_nil
  | .one .., h, hmem => (List.mem_singleton.1 hmem) ▸ h
  | .more .., ⟨hfirst, hrest, _⟩, hmem => by
    rcases List.mem_cons.1 hmem with rfl | hmem
    · exact hfirst
    · exact producible_of_mem hrest hmem

theorem Listed.length_pos {args : Actuals} (h : args.bare.Listed) : 0 < args.list.length := by
  cases args with
  | empty => exact h.elim
  | one | more => exact Nat.succ_pos _

/-! ## Parsed parameters -/

/-- The parser for actual parameters gives them, somewhere in a text. -/
def Parsed (args : Actuals) : Prop :=
  ∃ text s rest shorter, s.tokens <:+ tokenize text ∧
    Grammar.actuals s = .ok ⟨args, rest, shorter⟩

theorem Parsed.producible {args : Actuals} (h : args.Parsed) : args.bare.Producible := by
  obtain ⟨text, s, rest, shorter, htail, hok⟩ := h
  -- wherever the parser is in the text, its stream ends as the text does
  have hending : s.ending.kind = .endOfText := by
    obtain ⟨before, ending, htokens, hkind, -⟩ := (Scan.Cursor.ofText text).tokens_eq
    obtain ⟨taken, htaken⟩ := htail
    have hlast : taken ++ s.pending ++ [s.ending] = before ++ [ending] := by
      rw [List.append_assoc]
      exact htaken.trans htokens
    rw [List.singleton_inj.1 (List.append_inj_right' hlast rfl), hkind]
  have hreads := Parsing.actuals_reads s hending
  rw [hok] at hreads
  obtain ⟨d, htokens, -, -, hvalue⟩ := hreads
  have hproduced := d.produced (fun token hmem hkind => Scan.isLexeme_of_tokenize
    (htail.subset (htokens ▸ List.mem_append_left _ hmem)) hkind) (by decide)
  rw [show args.bare = d.values.1 from hvalue]
  exact hproduced.1

end Actuals

/-! ## Checking in pairs -/

namespace Check

/-- Report the cause, if there is one. -/
def complain (cause : Option SemanticCause) (span : Span) : Check Unit :=
  match cause with
  | some cause => report cause "" span
  | none => pure ()

/-- Check actual parameters against the shapes they are paired with, in order. -/
def pairs (paired : List (Actual × FormalShape)) : Check (List Actual) :=
  paired.mapM fun pair => actual pair.1 pair.2

theorem pairs_cons (arg : Actual) (shape : FormalShape) (others : List (Actual × FormalShape)) :
    pairs ((arg, shape) :: others) = do
      let arg ← actual arg shape
      let others ← pairs others
      return arg :: others :=
  List.mapM_cons

/-- Checking gives a parameter for each pair. -/
theorem length_pairs (paired : List (Actual × FormalShape)) (s : Checker) :
    ((pairs paired).exec s).1.length = paired.length := by
  induction paired generalizing s with
  | nil => rfl
  | cons pair others ih =>
    rw [pairs_cons]
    exact congrArg (· + 1) (ih _)

/-- Checking actual parameters is checking the pairs that are there, and complaining once about the
    numbers if they differ. -/
theorem actuals_eq {args : Actuals} (h : args.bare.Producible) (shapes : Signature) :
    actuals args shapes = do
      let checked ← pairs ((args.list.zip shapes).take
        (Actuals.checkedCount args.list.length shapes.length))
      complain (Actuals.arityCause? args.list.length shapes.length)
        (args.spanBehind (Actuals.checkedCount args.list.length shapes.length))
      return args.refill checked := by
  cases args with
  | empty span =>
    rw [actuals]
    cases shapes <;> rfl
  | one span first =>
    rcases shapes with _ | ⟨shape, _ | ⟨next, others⟩⟩
    · rw [actuals]
      · rfl
      · simp
    · rw [actuals]
      rfl
    · rw [actuals]
      · rfl
      · simp
  | more span first rest =>
    obtain ⟨-, hrest, hlisted⟩ := h
    by_cases hone : shapes.length ≤ 1
    · -- there is a last pair at most, which is not checked where the numbers differ
      have hseveral : 1 < (first :: rest.list).length := Nat.succ_lt_succ hlisted.length_pos
      rw [actuals, Actuals.list, Actuals.checkedCount_several hseveral hone,
        Actuals.arityCause?_several hseveral hone]
      · rfl
      · rintro shape next others rfl
        simp at hone
    · -- neither list ends here: the pair is checked, and the numbers differ if the others do
      obtain ⟨shape, next, others, rfl⟩ :
          ∃ shape next others, shapes = shape :: next :: others := by
        rcases shapes with _ | ⟨shape, _ | ⟨next, others⟩⟩
        · simp at hone
        · simp at hone
        · exact ⟨shape, next, others, rfl⟩
      have hactual := hlisted.length_pos
      have hformal : 0 < (next :: others).length := Nat.succ_pos _
      have hcount :
          Actuals.checkedCount (first :: rest.list).length (shape :: next :: others).length =
            Actuals.checkedCount rest.list.length (next :: others).length + 1 :=
        Actuals.checkedCount_succ hactual hformal
      have hcause :
          Actuals.arityCause? (first :: rest.list).length (shape :: next :: others).length =
            Actuals.arityCause? rest.list.length (next :: others).length :=
        Actuals.arityCause?_succ hactual hformal
      rw [actuals, actuals_eq hrest (next :: others), Actuals.list, hcount, hcause,
        List.zip_cons_cons, List.take_succ_cons, pairs_cons]
      simp only [bind_assoc, pure_bind]
      rfl

/-- Parsed actual parameters are checked against formal ones in pairs, from the first on. With as
    many of both, every pair is checked, and no more is reported than in the pairs. With other
    numbers, all pairs but the last are checked, and then one complaint is made about the numbers.
    The parameters behind stay in the sequence as they were, with nothing found about them. -/
theorem actuals_in_pairs {args : Actuals} (h : args.Parsed) (shapes : Signature) (s : Checker) :
    let n := args.list.length
    let m := shapes.length
    let count := if n = m then n else min n m - 1
    let checked := (pairs ((args.list.zip shapes).take count)).exec s
    let after := (actuals args shapes).exec s
    after.1.list = checked.1 ++ args.list.drop count ∧ checked.1.length = count ∧
      (∀ arg ∈ args.list.drop count, arg.bare.Producible) ∧
      (n = m → after.2 = checked.2) ∧
      (n ≠ m → ∃ cause, Actuals.arityCause? n m = some cause ∧
        cause ∈ [SemanticCause.tooFewActuals, .wrongNumberOfActuals, .tooManyActuals] ∧
        after.2 = { checked.2 with
          journal :=
            checked.2.journal.report (.ofSemantic cause "" (args.spanBehind count)) }) := by
  intro n m count checked after
  have hlength : checked.1.length = count := by
    rw [length_pairs, List.length_take, List.length_zip]
    exact Nat.min_eq_left Actuals.checkedCount_le_min
  have hafter : after = (args.refill checked.1,
      ((complain (Actuals.arityCause? n m) (args.spanBehind count)).exec checked.2).2) :=
    congrArg (fun run => run.exec s) (actuals_eq h.producible shapes)
  refine ⟨?_, hlength, fun arg hmem => ?_, fun heq => ?_, fun hne => ?_⟩
  · have hle : checked.1.length ≤ args.list.length := by
      rw [hlength]
      exact Actuals.checkedCount_le_min.trans (Nat.min_le_left n m)
    rw [hafter, ← hlength]
    exact Actuals.list_refill args checked.1 hle
  · exact Actuals.producible_of_mem h.producible (List.mem_of_mem_drop hmem)
  · rw [hafter, heq, Actuals.arityCause?_self]
    rfl
  · obtain ⟨cause, hcause, hmem⟩ := Actuals.arityCause?_of_ne hne
    refine ⟨cause, hcause, hmem, ?_⟩
    rw [hafter, hcause]
    rfl

/-- Three actual parameters. -/
private def threeText : String := "1, x, 2"

/-- The first of three actual parameters for two formal ones is checked, and three are too many. -/
theorem actuals_in_pairs_three : ∃ args : Actuals, args.Parsed ∧ args.list.length = 3 ∧ ∀ s,
    let shapes : Signature := [.const .integer, .const .character]
    let checked := (pairs ((args.list.zip shapes).take 1)).exec s
    let after := (actuals args shapes).exec s
    after.1.list = checked.1 ++ args.list.drop 1 ∧
      after.2 = { checked.2 with
        journal := checked.2.journal.report (.ofSemantic .tooManyActuals "" ⟨1, 1⟩) } := by
  have hchars : threeText = String.ofList ['1', ',', ' ', 'x', ',', ' ', '2'] := rfl
  have hread : (Grammar.actuals (Stream.ofText threeText)).toOption.map
      (fun parsed => (parsed.value.list.length, parsed.value.spanBehind 1)) =
        some (3, ⟨1, 1⟩) := by
    rw [Stream.ofText, tokenize_of_chars hchars]
    decide +kernel
  cases hok : Grammar.actuals (Stream.ofText threeText) with
  | error d =>
    rw [hok] at hread
    cases hread
  | ok parsed =>
    rw [hok] at hread
    obtain ⟨hlength, hspan⟩ := Prod.mk.inj (Option.some.inj hread)
    have hparsed : parsed.value.Parsed :=
      ⟨threeText, _, _, _, (Stream.tokens_ofText threeText).1 ▸ List.suffix_refl _, hok⟩
    refine ⟨parsed.value, hparsed, hlength, fun s => ?_⟩
    obtain ⟨hlist, -, -, -, hne⟩ :=
      actuals_in_pairs hparsed [.const .integer, .const .character] s
    rw [hlength] at hlist hne
    obtain ⟨cause, hcause, -, hafter⟩ := hne (by decide)
    obtain rfl : .tooManyActuals = cause := Option.some.inj hcause
    exact ⟨hlist, hspan ▸ hafter⟩

end Check

end TriangleTam
