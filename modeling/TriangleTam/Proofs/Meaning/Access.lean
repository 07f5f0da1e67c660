import TriangleTam.Proofs.Meaning.Stack

/-! # Places on the stack

  A place that the source runs to is reached by the code that the encoder
  writes for it: what is known of the place beforehand is in the code, and what
  is not, the index, waits on top of the stack. Fetching, storing and taking
  the address find the index there and leave nothing of it.
-/

namespace TriangleTam

/-- The primitives that work out addresses are exact. -/
structure Interpretation.Calculates (I : Interpretation) : Prop where
  add  : ∀ a b, I.result .add [a, b] = some (a + b)
  mult : ∀ a b, I.result .mult [a, b] = some (a * b)

/-- The index that waits on the stack, if one does. -/
def Access.indexWords (access : Access) (index : Int) : Value :=
  if access.indexed then [some index] else []

theorem Access.length_indexWords (access : Access) (index : Int) :
    ((access.indexWords index).length : Int) = access.pending := by
  unfold indexWords pending
  split <;> rfl

/-- The code reaches the place through an entity, once the index waits. -/
structure Place.Reached (σ : Shape) (entity : Entity) (access : Access) (index : Int)
    (place : Place) : Prop where
  base   : place.base.Represented σ entity
  offset : place.offset = access.offset + index
  direct : access.indexed = false → index = 0

/-- A variable stays where it is when what was pushed is gone. -/
theorem Place.Reached.of_push {σ : Shape} {value : Value} {entity : Entity} {access : Access}
    {index : Int} {place : Place} (h : place.Reached (σ ++ [.fixed value]) entity access index)
    (hvariable : entity.IsVariable) : place.Reached σ entity access index := by
  refine ⟨?_, h.offset, h.direct⟩
  have hbase := h.base
  generalize place.base = base at hbase ⊢
  cases hbase with
  | literal => exact hvariable.elim
  | constant => exact hvariable.elim
  | block hlies => exact .block hlies.of_push

/-! ## Code of places -/

section

variable {I : Interpretation} {σ : Shape} {entity : Entity} {access : Access} {index address : Int}
  {place : Place} {frame : Frame} {w w' : World} {stack value : Value} {trace : List Exchange}
  {n : Int}

theorem Turns.add (hI : I.Calculates) (a b : Int) :
    Turns I [.primitive .add] (stack ++ [some a] ++ [some b]) trace (stack ++ [some (a + b)])
      trace := by
  refine .primitive ?_
  unfold Primitive.execute
  simp only [Value.popWord?_append, Option.bind_eq_bind, Option.bind_some, hI.add]
  rfl

theorem Turns.mult (hI : I.Calculates) (a b : Int) :
    Turns I [.primitive .mult] (stack ++ [some a] ++ [some b]) trace (stack ++ [some (a * b)])
      trace := by
  refine .primitive ?_
  unfold Primitive.execute
  simp only [Value.popWord?_append, Option.bind_eq_bind, Option.bind_some, hI.mult]
  rfl

/-- The index that waits is added to what lies above it. -/
theorem Access.indexCode_turns (hI : I.Calculates) (hdirect : access.indexed = false → index = 0)
    (word : Int) :
    Turns I access.indexCode (stack ++ access.indexWords index ++ [some word]) trace
      (stack ++ [some (index + word)]) trace := by
  unfold indexCode indexWords
  cases hindexed : access.indexed with
  | true => exact .add hI index word
  | false =>
    obtain rfl := hdirect hindexed
    simp only [Bool.false_eq_true, if_false, List.append_nil, Int.zero_add]
    exact .nil

/-- The address of a place, counted from where its base starts. -/
theorem Address.pushCode_turns (hI : I.Calculates) (hdirect : access.indexed = false → index = 0) :
    Turns I (pushCode ⟨0, address⟩ frame access) (stack ++ access.indexWords index) trace
      (stack ++ [some (address + (access.offset + index))]) trace := by
  -- the code has what is known in one number, and adds the index to it
  have hsum : address + (access.offset + index) = index + (address + access.offset) := by omega
  rw [hsum]
  exact .cons .loadA (access.indexCode_turns hI hdirect _)

/-- Turn an index into a distance and add it to the one that waits. -/
theorem scaleCode_turns (hI : I.Calculates) (hdirect : access.indexed = false → index = 0)
    (width i : Int) :
    Turns I (scaleCode width ++ access.indexCode) (stack ++ access.indexWords index ++ [some i])
      trace (stack ++ [some (index + i * width)]) trace := by
  refine .append ?_ (access.indexCode_turns hI hdirect _)
  unfold scaleCode
  by_cases hwidth : width = 1
  · subst hwidth
    rw [if_neg (by simp), Int.mul_one]
    exact .nil
  · rw [if_pos hwidth]
    exact .cons .loadL (.mult hI i width)

namespace Entity

/-- The code for a value pushes the value that is at its place. -/
theorem fetchCode_turns (hI : I.Calculates) (h : place.Reached σ entity access index)
    (hsuits : entity.Suits access n) (hfits : Shape.Fits σ w.blocks)
    (hfetch : w.fetch? place n = some value) :
    Turns I (entity.fetchCode frame n access) (Shape.render σ w.blocks ++ access.indexWords index)
      trace (Shape.render σ w.blocks ++ value) trace := by
  obtain ⟨base, offset⟩ := place
  obtain ⟨hbase, rfl, hdirect⟩ := h
  dsimp only at hbase
  -- the two kinds of stored values are fetched alike
  have hstored {address : Int} (hlies : base.Lies σ address) :
      Turns I (if access.indexed then
          Address.pushCode ⟨0, address⟩ frame access ++ [.plain .loadI n 0]
        else [⟨.load, (frame.register 0).number, n, address + access.offset⟩])
        (Shape.render σ w.blocks ++ access.indexWords index) trace
        (Shape.render σ w.blocks ++ value) trace := by
    have hslice := hlies.fetch hfits hfetch
    cases hindexed : access.indexed with
    | true => exact (Address.pushCode_turns hI hdirect).append (.loadI hslice)
    | false =>
      obtain rfl := hdirect hindexed
      unfold Access.indexWords
      rw [hindexed, Int.add_zero] at *
      simp only [Bool.false_eq_true, if_false, List.append_nil]
      exact .load hslice
  cases hbase with
  | @literal word size =>
    obtain ⟨rfl, rfl⟩ := hsuits
    obtain rfl := hdirect rfl
    obtain rfl : [some word] = value := Option.some.inj hfetch
    simp only [Access.indexWords, Bool.false_eq_true, if_false, List.append_nil]
    exact .loadL
  | constant hlies => exact hstored hlies
  | block hlies => exact hstored hlies

/-- The code for a store takes a value and the index off the stack, and stores the value. -/
theorem storeCode_turns (hI : I.Calculates) (h : place.Reached σ entity access index)
    (hvariable : entity.IsVariable) (hn : (value.length : Int) = n) (hfits : Shape.Fits σ w.blocks)
    (hstore : w.store? place value = some w') :
    Shape.Fits σ w'.blocks ∧ w'.trace = w.trace ∧
      Turns I (entity.storeCode frame n access)
        (Shape.render σ w.blocks ++ value ++ access.indexWords index) trace
        (Shape.render σ w'.blocks) trace := by
  obtain ⟨base, offset⟩ := place
  obtain ⟨hbase, rfl, hdirect⟩ := h
  cases hbase with
  | literal => exact hvariable.elim
  | constant => exact hvariable.elim
  | block hlies =>
    obtain ⟨hfits', htrace, hsplice⟩ := hlies.store hfits hstore
    refine ⟨hfits', htrace, ?_⟩
    unfold storeCode
    dsimp only
    cases hindexed : access.indexed with
    | true => exact (Address.pushCode_turns hI hdirect).append (.storeI hsplice hn)
    | false =>
      obtain rfl := hdirect hindexed
      unfold Access.indexWords
      rw [hindexed, Int.add_zero] at *
      simp only [Bool.false_eq_true, if_false, List.append_nil]
      exact .store hsplice hn

/-- The code for a variable that is an argument pushes the address of its place. -/
theorem addressCode_turns (hI : I.Calculates) (h : place.Reached σ entity access index)
    (hvariable : entity.IsVariable) :
    ∃ address, place.base.Lies σ address ∧
      Turns I (entity.addressCode frame access) (stack ++ access.indexWords index) trace
        (stack ++ [some (address + place.offset)]) trace := by
  obtain ⟨base, offset⟩ := place
  obtain ⟨hbase, rfl, hdirect⟩ := h
  cases hbase with
  | literal => exact hvariable.elim
  | constant => exact hvariable.elim
  | block hlies => exact ⟨_, hlies, Address.pushCode_turns hI hdirect⟩

end Entity

end

end TriangleTam
