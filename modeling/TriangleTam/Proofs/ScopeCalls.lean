import Mathlib.Data.List.Induction
import TriangleTam.Check

/-! # The stack of scopes

  What the calls made of a new stack of scopes tell about its answers. A name
  that is entered belongs to the scope that is innermost then, and is there
  until that scope is closed: as long as the **level**, the number of scopes
  inside the outermost, does not fall below what it was. A name is found as it
  was entered last in the innermost open scope that has it. A scope that is
  opened and closed again leaves nothing behind, and closing the outermost
  changes nothing.

  The stack is read off the calls made so far. One more call keeps that so
  (`Scopes.Reflects.after`), hence all calls do.
-/

namespace TriangleTam

/-! ## Calls -/

/-- A call of the stack of scopes. -/
inductive ScopeCall
  | enclose
  | close
  | enter (name : String) (id : BindingId)
  | find (name : String)
  deriving DecidableEq, Repr

/-- What a call answers. -/
inductive ScopeAnswer
  /-- Whether the innermost scope had the name already. -/
  | entered (again : Bool)
  | found (id : Option BindingId)
  deriving DecidableEq, Repr

namespace Scopes

/-- The scopes after a call. -/
def after (scopes : Scopes) : ScopeCall → Scopes
  | .enclose => scopes.enclose
  | .close => scopes.close
  | .enter name id => scopes.enter name id
  | .find _ => scopes

/-- The scopes after calls, one after the other. -/
def afterAll (scopes : Scopes) (calls : List ScopeCall) : Scopes := calls.foldl after scopes

/-- What a call answers, if it answers. -/
def answer? (scopes : Scopes) : ScopeCall → Option ScopeAnswer
  | .enclose | .close => none
  | .enter name _ => some (.entered (scopes.declares name))
  | .find name => some (.found (scopes.find? name))

/-- What calls answer, one after the other. -/
def answers (scopes : Scopes) : List ScopeCall → List ScopeAnswer
  | [] => []
  | call :: calls => (scopes.answer? call).toList ++ (scopes.after call).answers calls

theorem afterAll_append (scopes : Scopes) (calls calls' : List ScopeCall) :
    scopes.afterAll (calls ++ calls') = (scopes.afterAll calls).afterAll calls' :=
  List.foldl_append

theorem afterAll_concat (scopes : Scopes) (calls : List ScopeCall) (call : ScopeCall) :
    scopes.afterAll (calls ++ [call]) = (scopes.afterAll calls).after call :=
  scopes.afterAll_append calls [call]

end Scopes

/-- Checking binds a name by a call that enters it, and what it takes for a duplicate is the
    answer. -/
theorem Check.bind_answer (name : Name) (kind : BindingKind) (s : Checker) :
    ∃ id duplicated bindings,
      (Check.bind name kind).run s =
        ((id, duplicated),
          { s with bindings, scopes := s.scopes.after (.enter name.spelling id) }) ∧
      s.scopes.answer? (.enter name.spelling id) = some (.entered duplicated) :=
  ⟨_, _, _, rfl, rfl⟩

/-! ## Histories -/

namespace ScopeCall

/-- The level after one more call. -/
def levelAfter (level : Nat) : ScopeCall → Nat
  | enclose => level + 1
  | close => level - 1
  | enter .. | find _ => level

/-- How many scopes are open inside the outermost after the calls. -/
def level (calls : List ScopeCall) : Nat := calls.foldl levelAfter 0

/-- The scope that is innermost after the `earlier` calls stays open during the `later` ones: the
    level never falls below its own. -/
def StaysOpen (earlier later : List ScopeCall) : Prop :=
  ∀ first, first <+: later → level earlier ≤ level (earlier ++ first)

/-- Right behind the `earlier` calls the name was entered, in a scope that is still open. -/
def Holds (calls : List ScopeCall) (name : String) (id : BindingId)
    (earlier : List ScopeCall) : Prop :=
  ∃ later, calls = earlier ++ enter name id :: later ∧ StaysOpen earlier (enter name id :: later)

/-- Of the entries that are held, the innermost and there the latest is of the binding; there is no
    binding if nothing is held. -/
def Newest (held : BindingId → List ScopeCall → Prop) : Option BindingId → Prop
  | none => ∀ id earlier, ¬ held id earlier
  | some id => ∃ earlier, held id earlier ∧ ∀ id' earlier', held id' earlier' →
    level earlier' < level earlier ∨
      level earlier' = level earlier ∧ earlier'.length ≤ earlier.length

/-- Every scope that is opened by the calls is closed by them, and no other. -/
inductive Balanced : List ScopeCall → Prop
  | nil : Balanced []
  | enter {name id calls} : Balanced calls → Balanced (.enter name id :: calls)
  | find {name calls} : Balanced calls → Balanced (.find name :: calls)
  | scope {inner calls} : Balanced inner → Balanced calls →
    Balanced (.enclose :: (inner ++ .close :: calls))

variable {calls earlier : List ScopeCall} {call : ScopeCall} {name : String} {id : BindingId}
  {found : Option BindingId}

theorem level_concat (calls : List ScopeCall) (call : ScopeCall) :
    level (calls ++ [call]) = levelAfter (level calls) call := List.foldl_append

theorem Holds.level_le (h : Holds calls name id earlier) : level earlier ≤ level calls := by
  obtain ⟨later, rfl, hopen⟩ := h
  exact hopen _ (List.prefix_refl _)

theorem Holds.length_lt (h : Holds calls name id earlier) : earlier.length < calls.length := by
  obtain ⟨later, rfl, -⟩ := h
  simp

/-- One more call holds what it enters, and of what was held what its level does not close. -/
theorem holds_concat : Holds (calls ++ [call]) name id earlier ↔
    Holds calls name id earlier ∧ level earlier ≤ level (calls ++ [call]) ∨
      call = enter name id ∧ earlier = calls := by
  constructor
  · intro h
    have hlevel := h.level_le
    obtain ⟨later, heq, hopen⟩ := h
    -- the entry was made by the last call, or by one before it
    rcases later.eq_nil_or_concat with rfl | ⟨front, last, rfl⟩
    · obtain ⟨hcalls, hcall⟩ := List.append_inj' heq rfl
      exact .inr ⟨List.singleton_inj.1 hcall, hcalls.symm⟩
    · rw [List.concat_eq_append, ← List.cons_append, ← List.append_assoc] at heq
      obtain ⟨hcalls, -⟩ := List.append_inj' heq rfl
      refine .inl ⟨⟨front, hcalls, fun first hfirst => hopen first ?_⟩, hlevel⟩
      rw [List.concat_eq_append, ← List.cons_append]
      exact hfirst.trans (List.prefix_append _ _)
  · rintro (⟨⟨later, rfl, hopen⟩, hlevel⟩ | ⟨rfl, rfl⟩)
    · refine ⟨later ++ [call], by simp, fun first hfirst => ?_⟩
      rw [← List.cons_append, List.prefix_concat_iff] at hfirst
      rcases hfirst with rfl | hfirst
      · rwa [List.append_assoc] at hlevel
      · -- no call so far closed the level, and the last one does not either
        exact hopen first hfirst
    · refine ⟨[], rfl, fun first hfirst => ?_⟩
      rcases List.prefix_cons_iff.1 hfirst with rfl | ⟨others, rfl, hothers⟩
      · exact Nat.le_of_eq (congrArg level (List.append_nil earlier).symm)
      · rw [List.prefix_nil.1 hothers]
        exact Nat.le_of_eq (level_concat earlier (enter name id)).symm

theorem Newest.congr {held held' : BindingId → List ScopeCall → Prop} (h : Newest held found)
    (hiff : ∀ id earlier, held' id earlier ↔ held id earlier) : Newest held' found := by
  have heq : held' = held := funext₂ fun id earlier => propext (hiff id earlier)
  exact heq ▸ h

theorem Newest.isSome_iff {held : BindingId → List ScopeCall → Prop} (h : Newest held found) :
    found.isSome = true ↔ ∃ id earlier, held id earlier := by
  cases found with
  | none => exact ⟨nofun, fun ⟨id, earlier, hheld⟩ => absurd hheld (h id earlier)⟩
  | some id =>
    obtain ⟨earlier, hheld, -⟩ := h
    exact ⟨fun _ => ⟨id, earlier, hheld⟩, fun _ => rfl⟩

/-! ## Scopes told by calls -/

/-- In each scope of the stack names are bound as they were entered last on its level. The last
    scope is the outermost. -/
def Tells (calls : List ScopeCall) : List Scope → Prop
  | [] => True
  | scope :: outer =>
    (∀ name, Newest (fun id earlier => Holds calls name id earlier ∧ level earlier = outer.length)
      (scope.lookup name)) ∧ Tells calls outer

/-- A call that keeps what is held on the levels of the stack keeps what the calls tell of it. -/
theorem Tells.concat {stack : List Scope} (h : Tells calls stack)
    (hkeep : ∀ name id earlier, level earlier < stack.length →
      (Holds (calls ++ [call]) name id earlier ↔ Holds calls name id earlier)) :
    Tells (calls ++ [call]) stack := by
  induction stack with
  | nil => trivial
  | cons scope outer ih =>
    obtain ⟨hscope, houter⟩ := h
    refine ⟨fun name => (hscope name).congr fun id earlier => and_congr_left fun hlevel => ?_,
      ih houter fun name id earlier hlt => hkeep name id earlier (Nat.lt_succ_of_lt hlt)⟩
    exact hkeep name id earlier (by rw [hlevel]; exact Nat.lt_succ_self _)

/-- The scopes are searched from the inside out, and each has its latest entry first. -/
theorem Tells.findSome? {stack : List Scope} (h : Tells calls stack) (name : String) :
    Newest (fun id earlier => Holds calls name id earlier ∧ level earlier < stack.length)
      (stack.findSome? fun scope => scope.lookup name) := by
  induction stack with
  | nil => exact fun _ _ hheld => Nat.not_lt_zero _ hheld.2
  | cons scope outer ih =>
    obtain ⟨hscope, houter⟩ := h
    have hscope := hscope name
    rw [List.findSome?_cons]
    cases hlookup : scope.lookup name with
    | none =>
      -- nothing is held on this level, so only the scopes around it matter
      rw [hlookup] at hscope
      refine (ih houter).congr fun id earlier => and_congr_right fun hheld => ?_
      have hne : level earlier ≠ outer.length := fun heq => hscope id earlier ⟨hheld, heq⟩
      simp only [List.length_cons]
      omega
    | some id =>
      rw [hlookup] at hscope
      obtain ⟨earlier, ⟨hheld, hlevel⟩, hlatest⟩ := hscope
      refine ⟨earlier, ⟨hheld, by simp [hlevel]⟩, fun id' earlier' ⟨hheld', hlt⟩ => ?_⟩
      rcases Nat.lt_or_eq_of_le (Nat.le_of_lt_succ hlt) with hlt | heq
      · exact .inl (hlevel ▸ hlt)
      · exact hlatest id' earlier' ⟨hheld', heq⟩

end ScopeCall

open ScopeCall

/-! ## Runs -/

/-- The scopes are what the calls make of a new stack. -/
structure Scopes.Reflects (calls : List ScopeCall) (scopes : Scopes) : Prop where
  level : scopes.level = ScopeCall.level calls
  tells : Tells calls (scopes.innermost :: scopes.outer)

namespace Scopes.Reflects

variable {calls : List ScopeCall} {scopes : Scopes}

theorem nil : Reflects [] empty where
  level := rfl
  tells := by
    refine ⟨fun name => ?_, trivial⟩
    intro id earlier hheld
    exact absurd hheld.1.length_lt (Nat.not_lt_zero _)

/-- A call that enters nothing keeps what is held on the levels that it leaves. -/
theorem keeps {call : ScopeCall} (hcall : ∀ name id, call ≠ .enter name id) {length : Nat}
    (hlength : length ≤ ScopeCall.level (calls ++ [call]) + 1) (name : String) (id : BindingId)
    (earlier : List ScopeCall) (hlt : ScopeCall.level earlier < length) :
    Holds (calls ++ [call]) name id earlier ↔ Holds calls name id earlier := by
  rw [holds_concat]
  constructor
  · rintro (⟨hheld, -⟩ | ⟨heq, -⟩)
    · exact hheld
    · exact absurd heq (hcall name id)
  · exact fun hheld => .inl ⟨hheld, by omega⟩

theorem enclose (h : Reflects calls scopes) : Reflects (calls ++ [.enclose]) scopes.enclose := by
  have hlevel : ScopeCall.level (calls ++ [.enclose]) = scopes.level + 1 := by
    rw [level_concat, ← h.level]
    rfl
  refine ⟨hlevel.symm, ?_, ?_⟩
  · -- nothing was entered above the level before
    intro name id earlier ⟨hheld, heq⟩
    rcases holds_concat.1 hheld with ⟨hheld, -⟩ | ⟨hcall, -⟩
    · have hle := hheld.level_le
      rw [← h.level, heq] at hle
      exact Nat.not_succ_le_self _ hle
    · cases hcall
  · refine h.tells.concat (keeps (by simp) ?_)
    rw [hlevel, List.length_cons]
    exact Nat.le_succ _

theorem close (h : Reflects calls scopes) : Reflects (calls ++ [.close]) scopes.close := by
  have hlevel : ScopeCall.level (calls ++ [.close]) = scopes.level - 1 := by
    rw [level_concat, ← h.level]
    rfl
  obtain ⟨innermost, outer⟩ := scopes
  cases outer with
  | nil =>
    refine ⟨hlevel.symm, h.tells.concat (keeps (by simp) ?_)⟩
    exact Nat.succ_le_succ (Nat.zero_le _)
  | cons scope others =>
    refine ⟨hlevel.symm, h.tells.2.concat (keeps (by simp) ?_)⟩
    rw [hlevel]
    exact Nat.le_refl _

theorem find (h : Reflects calls scopes) (name : String) :
    Reflects (calls ++ [.find name]) scopes := by
  have hlevel : ScopeCall.level (calls ++ [.find name]) = scopes.level := by
    rw [level_concat, ← h.level]
    rfl
  refine ⟨hlevel.symm, h.tells.concat (keeps (by simp) ?_)⟩
  rw [hlevel]
  exact Nat.le_refl _

theorem enter (h : Reflects calls scopes) (name : String) (id : BindingId) :
    Reflects (calls ++ [.enter name id]) (scopes.enter name id) := by
  have hlevel : ScopeCall.level (calls ++ [.enter name id]) = scopes.level := by
    rw [level_concat, ← h.level]
    rfl
  have hcalls : ScopeCall.level calls = scopes.outer.length := h.level.symm
  obtain ⟨hinnermost, houter⟩ := h.tells
  refine ⟨hlevel.symm, fun name' => ?_, ?_⟩
  · show Newest _ (((name, id) :: scopes.innermost).lookup name')
    rw [List.lookup_cons]
    by_cases hname : name' = name
    · -- no call is behind the entry of this one
      subst hname
      rw [beq_self_eq_true]
      refine ⟨calls, ⟨holds_concat.2 (.inr ⟨rfl, rfl⟩), hcalls⟩,
        fun id' earlier' ⟨hheld, heq⟩ => .inr ⟨heq.trans hcalls.symm, ?_⟩⟩
      have hlt := hheld.length_lt
      rw [List.length_append] at hlt
      exact Nat.le_of_lt_succ hlt
    · rw [beq_false_of_ne hname]
      refine (hinnermost name').congr fun id' earlier => and_congr_left fun heq => ?_
      rw [holds_concat, hlevel, heq]
      constructor
      · rintro (⟨hheld, -⟩ | ⟨hcall, -⟩)
        · exact hheld
        · cases hcall
          exact absurd rfl hname
      · exact fun hheld => .inl ⟨hheld, Nat.le_refl _⟩
  · -- the scopes around are on lower levels
    refine houter.concat fun name' id' earlier hlt => ?_
    rw [holds_concat, hlevel]
    constructor
    · rintro (⟨hheld, -⟩ | ⟨-, rfl⟩)
      · exact hheld
      · exact absurd hlt (by omega)
    · exact fun hheld => .inl ⟨hheld, Nat.le_of_lt hlt⟩

theorem after (h : Reflects calls scopes) (call : ScopeCall) :
    Reflects (calls ++ [call]) (scopes.after call) := by
  cases call with
  | enclose => exact h.enclose
  | close => exact h.close
  | enter name id => exact h.enter name id
  | find name => exact h.find name

theorem afterAll (calls : List ScopeCall) : Reflects calls (empty.afterAll calls) := by
  induction calls using List.reverseRecOn with
  | nil => exact nil
  | append_singleton calls call ih =>
    rw [afterAll_concat]
    exact ih.after call

theorem find? (h : Reflects calls scopes) (name : String) :
    Newest (Holds calls name) (scopes.find? name) := by
  refine (h.tells.findSome? name).congr fun id earlier => ⟨fun hheld => ⟨hheld, ?_⟩, And.left⟩
  have hle := hheld.level_le
  rw [← h.level] at hle
  exact Nat.lt_succ_of_le hle

theorem declares_iff (h : Reflects calls scopes) (name : String) :
    scopes.declares name = true ↔ ∃ id earlier,
      Holds calls name id earlier ∧ ScopeCall.level earlier = ScopeCall.level calls := by
  rw [← h.level]
  exact (h.tells.1 name).isSome_iff

end Scopes.Reflects

/-! ## Scopes that are closed again -/

namespace Scopes

theorem close_of_outer {scopes before : Scopes}
    (h : scopes.outer = before.innermost :: before.outer) : scopes.close = before := by
  unfold close
  rw [h]

/-- Balanced calls leave the scopes around the innermost as they were. -/
theorem outer_afterAll {calls : List ScopeCall} (h : Balanced calls) (scopes : Scopes) :
    (scopes.afterAll calls).outer = scopes.outer := by
  induction h generalizing scopes with
  | nil => rfl
  | @enter name id _ _ ih => exact ih (scopes.enter name id)
  | find _ ih => exact ih scopes
  | @scope inner calls _ _ ihinner ihcalls =>
    have hinner : (scopes.enclose.afterAll inner).close = scopes :=
      close_of_outer (ihinner scopes.enclose)
    calc (scopes.afterAll (.enclose :: (inner ++ .close :: calls))).outer
        = ((scopes.enclose.afterAll inner).close.afterAll calls).outer :=
          congrArg outer (afterAll_append scopes.enclose inner (.close :: calls))
      _ = (scopes.afterAll calls).outer := by rw [hinner]
      _ = scopes.outer := ihcalls scopes

/-- A scope that is opened and closed again leaves all as it was. -/
theorem afterAll_scope {inner : List ScopeCall} (h : Balanced inner) (scopes : Scopes) :
    scopes.afterAll (.enclose :: inner ++ [.close]) = scopes := by
  rw [afterAll_concat]
  exact close_of_outer (outer_afterAll h scopes.enclose)

/-- The stack answers as the calls before tell, whatever they were. A name is found as it was
    entered last in the innermost open scope that has it, and is not found if no open scope has it.
    Entering says whether the name was entered in the innermost scope since that was opened. A scope
    that is opened and closed again changes no later answer, and neither does closing where no scope
    is open but the outermost. -/
theorem answers_nested (calls : List ScopeCall) :
    let scopes := empty.afterAll calls
    (∀ name, ∃ found, scopes.answer? (.find name) = some (.found found) ∧
      Newest (Holds calls name) found) ∧
    (∀ name id, ∃ again, scopes.answer? (.enter name id) = some (.entered again) ∧
      (again = true ↔ ∃ id' earlier,
        Holds calls name id' earlier ∧ ScopeCall.level earlier = ScopeCall.level calls)) ∧
    (∀ inner, Balanced inner → ∀ later,
      (empty.afterAll (calls ++ (.enclose :: inner ++ [.close]))).answers later =
        scopes.answers later) ∧
    (ScopeCall.level calls = 0 → ∀ later,
      (empty.afterAll (calls ++ [.close])).answers later = scopes.answers later) := by
  intro scopes
  have hreflects := Reflects.afterAll calls
  refine ⟨fun name => ⟨_, rfl, hreflects.find? name⟩,
    fun name _ => ⟨_, rfl, hreflects.declares_iff name⟩, fun inner hinner later => ?_,
    fun hlevel later => ?_⟩
  · rw [afterAll_append, afterAll_scope hinner]
  · have houter : scopes.outer = [] := List.length_eq_zero_iff.1 (hreflects.level.trans hlevel)
    have hclose : scopes.close = scopes := by
      unfold close
      rw [houter]
    rw [afterAll_concat]
    exact congrArg (fun scopes => scopes.answers later) hclose

/-- A name that is entered twice in the outermost scope and hidden in a scope that is closed. -/
private def hidden : List ScopeCall :=
  [.close, .enter "x" 1, .enclose, .enter "x" 2, .close, .enter "x" 3, .close]

/-- What was entered last in the outermost scope is found, also behind another scope that hides it
    and a close too many. -/
theorem answers_nested_hidden :
    Newest (Holds hidden "x") (some 3) ∧
      (empty.afterAll (hidden ++ [.enclose, .enter "x" 4, .close])).answers [.find "x"] =
        [.found (some 3)] ∧
      (empty.afterAll (hidden ++ [.close])).answers [.enter "x" 5] = [.entered true] := by
  obtain ⟨hfind, -, hscope, hclose⟩ := answers_nested hidden
  obtain ⟨found, hanswer, hnewest⟩ := hfind "x"
  obtain rfl : some 3 = found := ScopeAnswer.found.inj (Option.some.inj hanswer)
  exact ⟨hnewest, hscope [.enter "x" 4] (.enter .nil) [.find "x"], hclose rfl [.enter "x" 5]⟩

end Scopes

end TriangleTam
