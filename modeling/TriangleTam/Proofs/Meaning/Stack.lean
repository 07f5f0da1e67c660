import TriangleTam.Proofs.Meaning.Running

/-! # The stack of a run

  While the code of a program without routines runs, the stack holds the blocks
  of its variables, in the order in which they were allocated, and between them
  the values of constants and what was pushed for later. The **shape** of a
  stack says which of its segments are blocks of variables; the words of the
  others are fixed. Commands change the words of blocks alone, so the shape of
  the stack says where things are, whatever was stored there.

  A constant or a variable is **represented** by an entity whose address is
  where its segment starts.
-/

namespace TriangleTam

/-! ## Shapes -/

/-- A part of the stack: the block of a variable, or words that stay. -/
inductive Segment
  | block (size : Nat)
  | fixed (value : Value)

def Segment.size : Segment → Nat
  | block n => n
  | fixed value => value.length

/-- The parts of a stack, the lowest first. -/
abbrev Shape := List Segment

namespace Shape

/-- The words on the stack. -/
def size : Shape → Nat
  | [] => 0
  | segment :: rest => segment.size + size rest

/-- How many variables are on the stack. -/
def count : Shape → Nat
  | [] => 0
  | .block _ :: rest => count rest + 1
  | .fixed _ :: rest => count rest

/-- The stack with certain words in the blocks. -/
def render : Shape → List Value → Value
  | [], _ => []
  | .fixed value :: rest, blocks => value ++ render rest blocks
  | .block _ :: rest, block :: blocks => block ++ render rest blocks
  | .block _ :: rest, [] => render rest []

/-- The blocks have the sizes that the shape says. -/
inductive Fits : Shape → List Value → Prop
  | nil : Fits [] []
  | fixed {value rest blocks} : Fits rest blocks → Fits (.fixed value :: rest) blocks
  | block {block rest blocks} :
      Fits rest blocks → Fits (.block block.length :: rest) (block :: blocks)

/-- The frame of the main program when its stack has the shape. -/
def frame (σ : Shape) : Frame := ⟨0, size σ⟩

variable {σ τ : Shape} {blocks blocks' : List Value}

@[simp] theorem size_append (σ τ : Shape) : size (σ ++ τ) = size σ + size τ := by
  induction σ with
  | nil => exact (Nat.zero_add _).symm
  | cons segment rest ih =>
    rw [List.cons_append, size, size, ih, Nat.add_assoc]

theorem frame_append (σ τ : Shape) : frame (σ ++ τ) = (frame σ).more (size τ) := by
  unfold frame Frame.more
  rw [size_append, Int.natCast_add]

/-- Words that are pushed lie on top. -/
@[simp] theorem render_push (σ : Shape) (blocks : List Value) (value : Value) :
    render (σ ++ [.fixed value]) blocks = render σ blocks ++ value := by
  induction σ generalizing blocks with
  | nil => exact List.append_nil _
  | cons segment rest ih =>
    cases segment with
    | fixed value' =>
      simp only [List.cons_append, render, ih, List.append_assoc]
    | block n =>
      cases blocks with
      | nil => exact ih []
      | cons block blocks => simp only [List.cons_append, render, ih, List.append_assoc]

namespace Fits

theorem append (h : Fits σ blocks) (h' : Fits τ blocks') : Fits (σ ++ τ) (blocks ++ blocks') := by
  induction h with
  | nil => exact h'
  | fixed _ ih => exact ih.fixed
  | block _ ih => exact ih.block

theorem push (h : Fits σ blocks) (value : Value) : Fits (σ ++ [.fixed value]) blocks := by
  rw [← List.append_nil blocks]
  exact h.append (.fixed .nil)

theorem render_append (h : Fits σ blocks) (τ : Shape) (blocks' : List Value) :
    render (σ ++ τ) (blocks ++ blocks') = render σ blocks ++ render τ blocks' := by
  induction h with
  | nil => rfl
  | fixed _ ih => simp only [List.cons_append, render, ih, List.append_assoc]
  | block _ ih => simp only [List.cons_append, render, ih, List.append_assoc]

theorem length_render (h : Fits σ blocks) : (render σ blocks).length = size σ := by
  induction h with
  | nil => rfl
  | fixed _ ih => rw [render, List.length_append, ih, size, Segment.size]
  | block _ ih => rw [render, List.length_append, ih, size, Segment.size]

theorem length_eq (h : Fits σ blocks) : blocks.length = count σ := by
  induction h with
  | nil => rfl
  | fixed _ ih => exact ih
  | block _ ih => exact congrArg (· + 1) ih

/-- The blocks of two parts are those of one behind those of the other. -/
theorem split {blocks : List Value} (h : Fits (σ ++ τ) blocks) :
    ∃ front back, blocks = front ++ back ∧ Fits σ front ∧ Fits τ back := by
  induction σ generalizing blocks with
  | nil => exact ⟨[], blocks, rfl, .nil, h⟩
  | cons segment rest ih =>
    cases h with
    | fixed h =>
      obtain ⟨front, back, rfl, hfront, hback⟩ := ih h
      exact ⟨front, back, rfl, hfront.fixed, hback⟩
    | @block block _ _ h =>
      obtain ⟨front, back, rfl, hfront, hback⟩ := ih h
      exact ⟨block :: front, back, rfl, hfront.block, hback⟩

end Fits

end Shape

/-! ## Bases on the stack -/

/-- The words of a base start at an address of a stack. -/
inductive Base.Lies (σ : Shape) : Base → Int → Prop
  | constant {below value above} : σ = below ++ .fixed value :: above →
      Base.Lies σ (.constant value) (Shape.size below)
  | block {below n above} : σ = below ++ .block n :: above →
      Base.Lies σ (.block (Shape.count below)) (Shape.size below)

namespace Base.Lies

variable {σ : Shape} {base : Base} {address offset n : Int} {value : Value} {w w' : World}

theorem append (h : base.Lies σ address) (τ : Shape) : base.Lies (σ ++ τ) address := by
  cases h with
  | constant heq => exact .constant (by rw [heq, List.append_assoc]; rfl)
  | block heq => exact .block (by rw [heq, List.append_assoc]; rfl)

/-- What was pushed is no variable. -/
theorem of_push {number : Nat} (h : (Base.block number).Lies (σ ++ [.fixed value]) address) :
    (Base.block number).Lies σ address := by
  cases h with
  | @block below n above heq =>
    -- the last part of the shape is fixed, so the block is one of those before it
    rcases above.eq_nil_or_concat with rfl | ⟨others, segment, rfl⟩
    · obtain ⟨-, hlast⟩ := List.append_inj' heq rfl
      cases hlast
    · rw [List.concat_eq_append, ← List.cons_append, ← List.append_assoc] at heq
      exact .block (List.append_inj' heq rfl).1

/-- What is fetched from a base can be read off the stack. -/
theorem fetch (h : base.Lies σ address) (hfits : Shape.Fits σ w.blocks)
    (hfetch : w.fetch? ⟨base, offset⟩ n = some value) :
    (Shape.render σ w.blocks).slice? (address + offset) n = some value := by
  unfold World.fetch? at hfetch
  obtain ⟨contents, hcontents, hslice⟩ := Option.bind_eq_some_iff.1 hfetch
  cases h with
  | @constant below value above heq =>
    obtain rfl := Option.some.inj hcontents
    subst heq
    obtain ⟨front, back, hblocks, hfront, hback⟩ := hfits.split
    rw [hblocks, hfront.render_append, ← hfront.length_render]
    exact Value.slice?_mid hslice _ _
  | @block below n above heq =>
    subst heq
    -- as many variables come before the block as its number says
    obtain ⟨front, back, hblocks, hfront, hback⟩ := hfits.split
    cases hback with
    | @block contents' _ back hback =>
      have hcontents : w.blocks[Shape.count below]? = some contents := hcontents
      rw [hblocks, ← hfront.length_eq, List.getElem?_append_right (Nat.le_refl _),
        Nat.sub_self] at hcontents
      obtain rfl := Option.some.inj hcontents
      rw [hblocks, hfront.render_append, ← hfront.length_render]
      exact Value.slice?_mid hslice _ _

/-- What is stored in a variable is stored on the stack, and the shape stays. -/
theorem store (h : base.Lies σ address) (hfits : Shape.Fits σ w.blocks)
    (hstore : w.store? ⟨base, offset⟩ value = some w') :
    Shape.Fits σ w'.blocks ∧ w'.trace = w.trace ∧
      (Shape.render σ w.blocks).splice? (address + offset) value =
        some (Shape.render σ w'.blocks) := by
  unfold World.store? at hstore
  cases h with
  -- nothing is stored in a constant
  | constant => cases hstore
  | @block below n above heq =>
    obtain ⟨contents, hcontents, hstore⟩ := Option.bind_eq_some_iff.1 hstore
    obtain ⟨contents', hsplice, hw'⟩ := Option.bind_eq_some_iff.1 hstore
    obtain rfl := Option.some.inj hw'
    subst heq
    -- the block that changes, and those on both sides of it
    obtain ⟨front, back, hblocks, hfront, hback⟩ := hfits.split
    cases hback with
    | @block block _ back hback =>
      rw [hblocks, ← hfront.length_eq, List.getElem?_append_right (Nat.le_refl _),
        Nat.sub_self] at hcontents
      obtain rfl := Option.some.inj hcontents
      have hset : w.blocks.set (Shape.count below) contents' = front ++ contents' :: back := by
        rw [hblocks, ← hfront.length_eq, List.set_append_right _ _ (Nat.le_refl _), Nat.sub_self]
        rfl
      -- a block keeps its length, so every other block stays where it was
      have hlength := Value.length_of_splice? hsplice
      refine ⟨?_, rfl, ?_⟩
      · dsimp only
        rw [hset, ← hlength]
        exact hfront.append hback.block
      · dsimp only
        rw [hset, hblocks, hfront.render_append, hfront.render_append, ← hfront.length_render]
        exact Value.splice?_mid hsplice _ _

end Base.Lies

/-! ## Representation -/

/-- An entity stands for a base. A constant of one word may be part of the code. -/
inductive Base.Represented (σ : Shape) : Base → Entity → Prop
  | literal {word size} : Base.Represented σ (.constant [some word]) (.knownValue size word)
  | constant {value address size} : Base.Lies σ (.constant value) address →
      Base.Represented σ (.constant value) (.unknownValue size ⟨0, address⟩)
  | block {number address size} : Base.Lies σ (.block number) address →
      Base.Represented σ (.block number) (.knownAddress size ⟨0, address⟩)

theorem Base.Represented.append {σ : Shape} {base : Base} {entity : Entity}
    (h : base.Represented σ entity) (τ : Shape) : base.Represented (σ ++ τ) entity := by
  cases h with
  | literal => exact .literal
  | constant h => exact .constant (h.append τ)
  | block h => exact .block (h.append τ)

/-- An entity stands for what a name means. No routine of the program is among the meanings. -/
inductive Meaning.Represented (σ : Shape) : Meaning → Entity → Prop
  | place {base entity} : base.Represented σ entity →
      Meaning.Represented σ (.place ⟨base, 0⟩) entity
  | primitive {p} : Meaning.Represented σ (.primitive p) (.primitiveRoutine p)

theorem Meaning.Represented.append {σ : Shape} {meaning : Meaning} {entity : Entity}
    (h : meaning.Represented σ entity) (τ : Shape) : meaning.Represented (σ ++ τ) entity := by
  cases h with
  | place h => exact .place (h.append τ)
  | primitive => exact .primitive

/-- The stack in a frame has the variables of a world, and whatever is in scene is represented. -/
structure Scene.Staged (π : Plan) (σ : Shape) (frame : Frame) (w : World) (scene : Scene) :
    Prop where
  frame : Shape.frame σ = frame
  fits  : Shape.Fits σ w.blocks
  names : ∀ {id meaning}, scene.find? id = some meaning →
    ∃ entity, π.entity id = some entity ∧ meaning.Represented σ entity

namespace Scene.Staged

variable {π : Plan} {σ τ : Shape} {F : Frame} {w w' : World} {scene : Scene}

/-- The scene stays as it is when more comes on the stack. -/
theorem append (h : scene.Staged π σ F w) {blocks : List Value} (hfits : Shape.Fits τ blocks)
    (hw : w'.blocks = w.blocks ++ blocks) :
    scene.Staged π (σ ++ τ) (F.more (Shape.size τ)) w' := by
  refine ⟨?_, hw ▸ h.fits.append hfits, fun hfind => ?_⟩
  · rw [Shape.frame_append, h.frame]
  · obtain ⟨entity, hentity, hrep⟩ := h.names hfind
    exact ⟨entity, hentity, hrep.append τ⟩

theorem push (h : scene.Staged π σ F w) {value : Value} {n : Int}
    (hn : (value.length : Int) = n) : scene.Staged π (σ ++ [.fixed value]) (F.more n) w := by
  subst hn
  exact h.append (.fixed .nil) (List.append_nil _).symm

/-- The same scene with other words in the variables. -/
theorem world (h : scene.Staged π σ F w) (hfits : Shape.Fits σ w'.blocks) :
    scene.Staged π σ F w' :=
  ⟨h.frame, hfits, h.names⟩

/-- One more name. -/
theorem more (h : scene.Staged π σ F w) {id : BindingId} {meaning : Meaning} {entity : Entity}
    (hentity : π.entity id = some entity) (hrep : meaning.Represented σ entity) :
    (Scene.more id meaning scene).Staged π σ F w := by
  refine ⟨h.frame, h.fits, fun {id' meaning'} hfind => ?_⟩
  unfold find? at hfind
  split at hfind
  · next heq =>
    obtain rfl := Option.some.inj hfind
    exact ⟨entity, heq ▸ hentity, hrep⟩
  · exact h.names hfind

/-- The frame has the words that are on the stack. -/
theorem size_eq (h : scene.Staged π σ F w) : F.address = ⟨0, (Shape.size σ : Int)⟩ := by
  rw [← h.frame]
  rfl

end Scene.Staged

end TriangleTam
