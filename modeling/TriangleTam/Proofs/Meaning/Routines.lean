import Mathlib.Tactic.FinCases
import TriangleTam.Code.Encode
import TriangleTam.Proofs.Meaning.Access
import TriangleTam.Proofs.Typing.Environment

/-! # Standard routines and operators

  What a call of a standard routine does in the source is done by the
  primitive that its code calls, once the arguments are on the stack. The same
  holds of operators and their operands.
-/

namespace TriangleTam

/-! ## Environments without routines -/

/-- The binding is that of a value or of a type, or a standard one. -/
def BindingKind.IsStandard (id : BindingId) : BindingKind → Prop
  | .const _ | .var _ | .type _ => True
  | kind => ∃ declaration, Standard.declaration? id = some declaration ∧
      declaration.shape.kind = kind

/-- The environment has no routines and operators but the standard ones. -/
def Env.RoutineFree (Γ : Env) : Prop := ∀ entry ∈ Γ.entries, entry.2.2.IsStandard entry.2.1

namespace Env.RoutineFree

variable {Γ : Env} {name : String} {id : BindingId} {kind : BindingKind}

theorem enclose (h : Γ.RoutineFree) : Γ.enclose.RoutineFree := by
  simpa only [RoutineFree, entries_enclose] using h

theorem enter (h : Γ.RoutineFree) (hkind : kind.IsStandard id) :
    (Γ.enter name id kind).RoutineFree :=
  List.forall_mem_cons.2 ⟨hkind, h⟩

/-- What a name stands for is a value, a type or standard. -/
theorem found (h : Γ.RoutineFree) (hfind : Γ.find? name = some (id, kind)) : kind.IsStandard id :=
  h _ (mem_entries_of_find? hfind)

end Env.RoutineFree

theorem Env.standard_routineFree : Env.standard.RoutineFree := by
  intro entry hmem
  simp only [standard, entries, List.flatten_nil, List.append_nil, List.mem_reverse,
    List.mem_map] at hmem
  obtain ⟨⟨declaration, id⟩, hmem, rfl⟩ := hmem
  have hat : Standard.declaration? id = some declaration := List.mem_zipIdx_iff_getElem?.1 hmem
  dsimp only
  cases hkind : declaration.shape.kind with
  | const | var | type => trivial
  | _ => exact ⟨declaration, hat, hkind⟩

/-- The standard bindings are represented as they are before a program is encoded. -/
def Plan.KeepsStandard (π : Plan) : Prop :=
  ∀ id declaration, Standard.declaration? id = some declaration →
    π.entity id = some declaration.entity

/-! ## Standard declarations -/

/-- The primitive is a procedure for input or output with the parameters. -/
inductive Primitive.Procedure : Primitive → Signature → Prop
  | reads {p type} : p = .get ∨ p = .getint → Primitive.Procedure p [.var type]
  | writes {p type} : p = .put ∨ p = .putint → Primitive.Procedure p [.const type]
  | ends {p} : p = .geteol ∨ p = .puteol → Primitive.Procedure p []

/-- The primitive is a function with the parameters. -/
inductive Primitive.Function : Primitive → Signature → Prop
  | converts {type} : Primitive.Function .id [.const type]
  | asks {p} : p = .eol ∨ p = .eof → Primitive.Function p []

/-- The primitive takes two words and leaves one. -/
def Primitive.IsBinary : Primitive → Prop
  | .and | .or | .add | .sub | .mult | .div | .mod | .lt | .le | .ge | .gt => True
  | _ => False

namespace Standard

theorem procedure_of_kind : ∀ declaration ∈ declarations, ∀ {shapes : Signature},
    declaration.shape.kind = .proc shapes →
    ∃ p, declaration.representation = .primitive p ∧ p.Procedure shapes := by
  intro declaration hmem shapes hkind
  fin_cases hmem
  -- what comes before the procedures
  iterate 25 cases hkind
  all_goals obtain rfl := BindingKind.proc.inj hkind
  · exact ⟨_, rfl, .reads (.inl rfl)⟩
  · exact ⟨_, rfl, .writes (.inl rfl)⟩
  · exact ⟨_, rfl, .reads (.inr rfl)⟩
  · exact ⟨_, rfl, .writes (.inr rfl)⟩
  · exact ⟨_, rfl, .ends (.inl rfl)⟩
  · exact ⟨_, rfl, .ends (.inr rfl)⟩

theorem function_of_kind : ∀ declaration ∈ declarations, ∀ {shapes : Signature}
    {result : TypeDenoter}, declaration.shape.kind = .func shapes result →
    ∃ p, declaration.representation = .primitive p ∧ p.Function shapes := by
  intro declaration hmem shapes result hkind
  fin_cases hmem
  -- what comes before the functions
  iterate 21 cases hkind
  · obtain ⟨rfl, -⟩ := BindingKind.func.inj hkind
    exact ⟨_, rfl, .converts⟩
  · obtain ⟨rfl, -⟩ := BindingKind.func.inj hkind
    exact ⟨_, rfl, .converts⟩
  · obtain ⟨rfl, -⟩ := BindingKind.func.inj hkind
    exact ⟨_, rfl, .asks (.inr rfl)⟩
  · obtain ⟨rfl, -⟩ := BindingKind.func.inj hkind
    exact ⟨_, rfl, .asks (.inl rfl)⟩
  all_goals cases hkind

theorem unary_of_kind : ∀ declaration ∈ declarations, ∀ {operand result : TypeDenoter},
    declaration.shape.kind = .unary operand result →
    declaration.representation = .primitive .not ∨ declaration.representation = .bar := by
  intro declaration hmem operand result hkind
  fin_cases hmem
  iterate 6 cases hkind
  · exact .inl rfl
  · exact .inr rfl
  all_goals cases hkind

theorem binary_of_kind : ∀ declaration ∈ declarations, ∀ {left right result : TypeDenoter},
    declaration.shape.kind = .binary left right result →
    (∃ p, declaration.representation = .primitive p ∧ p.IsBinary) ∨
      ∃ p, declaration.representation = .equality p ∧ p.IsEquality := by
  intro declaration hmem left right result hkind
  fin_cases hmem
  iterate 8 cases hkind
  iterate 11 exact .inl ⟨_, rfl, trivial⟩
  iterate 2 exact .inr ⟨_, rfl, trivial⟩
  all_goals cases hkind

end Standard

/-! ## Arguments -/

/-- The arguments of a standard routine, which has one parameter at most, and the words that are
    pushed for them: a value itself, and the address of a variable. -/
inductive Passed (σ : Shape) : Signature → List Meaning → Value → Prop
  | none : Passed σ [] [] []
  | value {type value} : Passed σ [.const type] [.value value] value
  | address {type place address} : place.base.Lies σ address →
      Passed σ [.var type] [.place place] [some (address + place.offset)]

/-- The whole of a constant is its value. -/
theorem World.fetch?_constant (w : World) {value : Value} {n : Int}
    (hn : (value.length : Int) = n) : w.fetch? ⟨.constant value, 0⟩ n = some value := by
  subst hn
  show value.slice? 0 value.length = some value
  unfold Value.slice?
  rw [if_pos (by omega), Int.toNat_zero, List.drop_zero, Int.toNat_natCast, List.take_length]

/-- What stands for a standard routine in a staged scene is its primitive. -/
theorem Scene.Staged.eq_primitive {π : Plan} {σ : Shape} {frame : Frame} {w : World}
    {scene : Scene} (h : scene.Staged π σ frame w) (hπ : π.KeepsStandard) {id : BindingId}
    {declaration : StandardDeclaration} (hat : Standard.declaration? id = some declaration)
    {p : Primitive} (hrep : declaration.representation = .primitive p) {name : Name}
    (hbinding : name.binding = some id) {meaning : Meaning}
    (hmeaning : scene.meaning? name = some meaning) : meaning = .primitive p := by
  unfold Scene.meaning? at hmeaning
  rw [hbinding] at hmeaning
  obtain ⟨entity, hentity, hrepresented⟩ := h.names hmeaning
  have hstandard : declaration.entity = .primitiveRoutine p := by
    unfold StandardDeclaration.entity
    rw [hrep]
  rw [hπ id declaration hat, hstandard] at hentity
  obtain rfl := Option.some.inj hentity
  cases hrepresented with
  | place hplace => cases hplace
  | primitive => rfl

/-! ## Calls -/

section

variable {I : Interpretation} {σ : Shape} {p : Primitive} {shapes : Signature}
  {arguments : List Meaning} {value left right : Value} {w w' : World} {stack stack' : Value}
  {trace trace' : List Exchange} {frame : Frame} {operator : Name} {id : BindingId}
  {declaration : StandardDeclaration} {operand result leftType rightType : TypeDenoter} {n : Int}
  {π : Plan} {t : Transfer}

/-- What the outside answered goes into the trace, and the blocks stay. -/
theorem Interpretation.of_exchange {given : List Int} {answer : Int}
    (h : I.exchange p given w = some (answer, w')) :
    I.answer w.trace p given = some answer ∧ w'.blocks = w.blocks ∧
      w'.trace = w.trace ++ [⟨p, given, answer⟩] := by
  obtain ⟨answer', hanswer, heq⟩ := Option.bind_eq_some_iff.1 h
  obtain ⟨rfl, rfl⟩ := Prod.mk.inj (Option.some.inj heq)
  exact ⟨hanswer, rfl, rfl⟩

/-- A procedure of the machine does to the stack what it does to the world. -/
theorem Primitive.Procedure.execute (hp : p.Procedure shapes)
    (hpassed : Passed σ shapes arguments value) (hn : (value.length : Int) = p.transfer.takes)
    (hfits : Shape.Fits σ w.blocks) (hperform : I.perform p arguments w = some w') :
    Shape.Fits σ w'.blocks ∧ p.execute I (Shape.render σ w.blocks ++ value) w.trace =
      some (Shape.render σ w'.blocks, w'.trace) := by
  cases hp with
  | reads hp =>
    -- the answer is stored where the address on the stack says, which is in a block
    cases hpassed with
    | @address _ place address hlies =>
      simp only [Interpretation.perform, if_pos hp] at hperform
      obtain ⟨⟨answer, w₁⟩, hexchange, hstore⟩ := Option.bind_eq_some_iff.1 hperform
      obtain ⟨hanswer, hblocks, htrace⟩ := Interpretation.of_exchange hexchange
      rw [← hblocks] at hfits
      obtain ⟨hfits', htrace', hsplice⟩ := hlies.store hfits hstore
      rw [hblocks] at hsplice
      refine ⟨hfits', ?_⟩
      rw [htrace', htrace]
      rcases hp with rfl | rfl <;>
      · unfold Primitive.execute
        simp only [Value.popWord?_append, Option.bind_eq_bind, Option.bind_some, hanswer, hsplice]
        rfl
  | writes hp =>
    -- the word was pushed as the value of the argument
    cases hpassed with
    | value =>
      have hneither : ¬ (p = .get ∨ p = .getint) := by rcases hp with rfl | rfl <;> simp
      have hone : p.transfer.takes = 1 := by rcases hp with rfl | rfl <;> rfl
      simp only [Interpretation.perform, Meaning.value, if_neg hneither, if_pos hp,
        w.fetch?_constant (hn.trans hone), Option.bind_eq_bind, Option.bind_some] at hperform
      obtain ⟨word, hword, hperform⟩ := Option.bind_eq_some_iff.1 hperform
      obtain ⟨⟨answer, w₁⟩, hexchange, heq⟩ := Option.bind_eq_some_iff.1 hperform
      obtain rfl := Option.some.inj heq
      obtain ⟨hanswer, hblocks, htrace⟩ := Interpretation.of_exchange hexchange
      rw [Value.eq_of_word? hword, hblocks, htrace]
      refine ⟨hfits, ?_⟩
      rcases hp with rfl | rfl <;>
      · unfold Primitive.execute
        simp only [Value.popWord?_append, Option.bind_eq_bind, Option.bind_some, hanswer]
        rfl
  | ends hp =>
    cases hpassed with
    | none =>
      simp only [Interpretation.perform, if_pos hp] at hperform
      obtain ⟨⟨answer, w₁⟩, hexchange, heq⟩ := Option.bind_eq_some_iff.1 hperform
      obtain rfl := Option.some.inj heq
      obtain ⟨hanswer, hblocks, htrace⟩ := Interpretation.of_exchange hexchange
      rw [hblocks, htrace, List.append_nil]
      refine ⟨hfits, ?_⟩
      rcases hp with rfl | rfl <;>
      · unfold Primitive.execute
        simp only [Option.bind_eq_bind, Option.bind_some, hanswer]
        rfl

/-- A function of the machine leaves its value in the place of its arguments. -/
theorem Primitive.Function.execute (hp : p.Function shapes)
    (hpassed : Passed σ shapes arguments value) (hn : (value.length : Int) = p.transfer.takes)
    (happly : I.apply p arguments w = some left) :
    (left.length : Int) = p.transfer.leaves ∧
      p.execute I (stack ++ value) w.trace = some (stack ++ left, w.trace) := by
  cases hp with
  | converts =>
    cases hpassed with
    | value =>
      simp only [Interpretation.apply, Meaning.value, if_true] at happly
      obtain rfl := Option.some.inj ((w.fetch?_constant hn).symm.trans happly)
      exact ⟨hn, rfl⟩
  | asks hp =>
    cases hpassed with
    | none =>
      have hor : p = .eol ∨ p = .eof := hp
      simp only [Interpretation.apply, if_pos hor] at happly
      obtain ⟨answer, hanswer, heq⟩ := Option.bind_eq_some_iff.1 happly
      obtain rfl := Option.some.inj heq
      rw [List.append_nil]
      rcases hp with rfl | rfl <;>
      · refine ⟨rfl, ?_⟩
        unfold Primitive.execute
        simp only [Option.bind_eq_bind, Option.bind_some, hanswer]
        rfl

/-- The code of a call does what the primitive does, also where there is nothing to do. -/
theorem Primitive.callCode_turns (h : p.execute I stack trace = some (stack', trace')) :
    Turns I ((Entity.primitiveRoutine p).callCode frame n) stack trace stack' trace' := by
  unfold Entity.callCode
  dsimp only
  split
  · next hid =>
    subst hid
    obtain ⟨rfl, rfl⟩ := Prod.mk.inj (Option.some.inj h)
    exact .nil
  · exact .primitive h

/-! ## Operators -/

/-- The code of a unary operator leaves its value in the place of the operand. -/
theorem StandardDeclaration.unary_turns (hI : I.Calculates)
    (hkind : declaration.shape.kind = .unary operand result)
    (hat : Standard.declaration? id = some declaration) (hbinding : operator.binding = some id)
    (hperforms : declaration.entity.Performs π id t) (h : I.unary operator left = some value) :
    (value.length : Int) = t.leaves ∧ Turns I (declaration.entity.callCode frame t.takes)
      (stack ++ left) trace (stack ++ value) trace := by
  simp only [Interpretation.unary, hbinding, hat, Option.bind_eq_bind, Option.bind_some] at h
  unfold StandardDeclaration.entity at hperforms ⊢
  -- a unary operator is a primitive, or the one that multiplies by 100
  rcases Standard.unary_of_kind declaration (List.mem_of_getElem? hat) hkind with hrep | hrep
  · rw [hrep] at h hperforms ⊢
    cases hperforms
    obtain ⟨word, hword, h⟩ := Option.bind_eq_some_iff.1 h
    obtain ⟨negated, hresult, heq⟩ := Option.bind_eq_some_iff.1 h
    obtain rfl := Option.some.inj heq
    rw [Value.eq_of_word? hword]
    refine ⟨rfl, Primitive.callCode_turns ?_⟩
    unfold Primitive.execute
    simp only [Value.popWord?_append, Option.bind_eq_bind, Option.bind_some, hresult]
    rfl
  · rw [hrep] at h hperforms ⊢
    cases hperforms
    obtain ⟨word, hword, h⟩ := Option.bind_eq_some_iff.1 h
    rw [hI.mult] at h
    obtain rfl := Option.some.inj h
    rw [Value.eq_of_word? hword]
    exact ⟨rfl, .cons .loadL (.mult hI word 100)⟩

theorem Primitive.IsBinary.leaves_eq (hp : p.IsBinary) : p.transfer.leaves = 1 := by
  cases p <;> first | exact hp.elim | rfl

/-- A binary primitive takes its operands off the stack. -/
theorem Primitive.IsBinary.execute (hp : p.IsBinary) {a b c : Int}
    (h : I.result p [a, b] = some c) :
    p.execute I (stack ++ [some a] ++ [some b]) trace = some (stack ++ [some c], trace) := by
  unfold Primitive.execute
  cases p with
  | and | or | add | sub | mult | div | mod | lt | le | ge | gt =>
    simp only [Value.popWord?_append, Option.bind_eq_bind, Option.bind_some, h]
    rfl
  | _ => exact hp.elim

/-- Values that are compared have the same size. -/
theorem Interpretation.length_of_compare? {holds : Bool}
    (h : compare? p left right = some holds) : left.length = right.length := by
  have hwords {value : Value} {words : List Int} (hwords : value.words? = some words) :
      words.length = value.length := by
    unfold Value.words? at hwords
    induction value generalizing words with
    | nil =>
      obtain rfl := Option.some.inj hwords
      rfl
    | cons cell rest ih =>
      rw [List.mapM_cons] at hwords
      obtain ⟨word, -, hwords⟩ := Option.bind_eq_some_iff.1 hwords
      obtain ⟨words', hrest, heq⟩ := Option.bind_eq_some_iff.1 hwords
      obtain rfl := Option.some.inj heq
      exact congrArg (· + 1) (ih hrest)
  unfold compare? at h
  obtain ⟨leftWords, hleft, h⟩ := Option.bind_eq_some_iff.1 h
  obtain ⟨rightWords, hright, h⟩ := Option.bind_eq_some_iff.1 h
  rw [← hwords hleft, ← hwords hright]
  split at h
  · cases h
  · next hsame => exact not_not.1 hsame

/-- The code of an equality compares operands of the size that it is given. -/
theorem Primitive.IsEquality.turns (hp : p.IsEquality) {holds : Bool}
    (h : Interpretation.compare? p left right = some holds)
    (hn : (left.length : Int) + right.length = n) :
    Turns I ((Entity.equalityRoutine p).callCode frame n) (stack ++ left ++ right) trace
      (stack ++ [some (Machine.truth holds)]) trace := by
  have hlength := Interpretation.length_of_compare? h
  -- the code is given the words of both operands
  have hsize : n.tdiv 2 = right.length := by
    have hdouble : n = 2 * right.length := by omega
    rw [hdouble]
    exact Int.mul_tdiv_cancel_left _ (by decide)
  unfold Entity.callCode
  dsimp only
  rw [hsize]
  refine .cons .loadL (.primitive ?_)
  unfold Primitive.execute
  cases p with
  | eq | ne =>
    simp only [Value.popWord?_append, Option.bind_eq_bind, Option.bind_some,
      Value.pop?_append (stack ++ left) right rfl,
      Value.pop?_append stack left (congrArg Nat.cast hlength), h]
    rfl
  | _ => exact hp.elim

/-- The code of a binary operator leaves its value in the place of the operands. -/
theorem StandardDeclaration.binary_turns
    (hkind : declaration.shape.kind = .binary leftType rightType result)
    (hat : Standard.declaration? id = some declaration) (hbinding : operator.binding = some id)
    (hperforms : declaration.entity.Performs π id t)
    (h : I.binary operator left right = some value)
    (hn : (left.length : Int) + right.length = t.takes) :
    (value.length : Int) = t.leaves ∧ Turns I (declaration.entity.callCode frame t.takes)
      (stack ++ left ++ right) trace (stack ++ value) trace := by
  simp only [Interpretation.binary, hbinding, hat, Option.bind_eq_bind, Option.bind_some] at h
  unfold StandardDeclaration.entity at hperforms ⊢
  rcases Standard.binary_of_kind declaration (List.mem_of_getElem? hat) hkind with
    ⟨p, hrep, hp⟩ | ⟨p, hrep, hp⟩
  · rw [hrep] at h hperforms ⊢
    cases hperforms
    obtain ⟨a, ha, h⟩ := Option.bind_eq_some_iff.1 h
    obtain ⟨b, hb, h⟩ := Option.bind_eq_some_iff.1 h
    obtain ⟨c, hresult, heq⟩ := Option.bind_eq_some_iff.1 h
    obtain rfl := Option.some.inj heq
    rw [Value.eq_of_word? ha, Value.eq_of_word? hb]
    exact ⟨hp.leaves_eq.symm, Primitive.callCode_turns (hp.execute hresult)⟩
  · rw [hrep] at h hperforms ⊢
    cases hperforms
    obtain ⟨holds, hcompare, heq⟩ := Option.bind_eq_some_iff.1 h
    obtain rfl := Option.some.inj heq
    exact ⟨rfl, hp.turns hcompare hn⟩

end

end TriangleTam
