import TriangleTam.Proofs.Coding.Walk

/-! # Separation of storage

  No word of the stack belongs to two items in scope. What a declaration stores
  lies where its frame ends, so it is apart from what was stored before, and
  what comes later lies above it. The items of one level are those of one
  routine: when the encoder enters a routine, nothing in scope is stored at the
  new level but the parameters, which lie below the link data.
-/

namespace TriangleTam

/-! ## Items side by side -/

/-- No word belongs to two of the items. -/
def Item.Separate (entities : BindingId → Option Entity) (first second : Item) : Prop :=
  ∀ a b, first.storage? entities = some a → second.storage? entities = some b → a.Apart b

theorem Item.Separate.symm {entities : BindingId → Option Entity} {first second : Item}
    (h : first.Separate entities second) : second.Separate entities first :=
  fun a b ha hb => (h b a hb ha).symm

/-- The items have words of their own, from `lo` on and below `hi` in frames of a level, and are
    exact. -/
structure Item.Kept (entities : BindingId → Option Entity) (level : Nat) (lo hi : Int)
    (items : List Item) : Prop where
  stored   : ∀ item ∈ items, ∀ words, item.words? = some words →
    ∃ storage, item.storage? entities = some storage ∧ storage.level = level ∧
      storage.Within lo hi
  separate : items.Pairwise (Item.Separate entities)
  exact    : ∀ item ∈ items, item.Exact

namespace Item.Kept

variable {entities : BindingId → Option Entity} {level : Nat} {lo mid hi : Int}
  {items others : List Item} {item : Item}

theorem nil : Kept entities level lo hi [] :=
  ⟨fun _ hmem => absurd hmem List.not_mem_nil, .nil, fun _ hmem => absurd hmem List.not_mem_nil⟩

/-- Every storage of kept items lies in the range. -/
theorem within (h : Kept entities level lo hi items) (hmem : item ∈ items) {storage : Storage}
    (hstorage : item.storage? entities = some storage) :
    storage.level = level ∧ storage.Within lo hi := by
  obtain ⟨storage', hstorage', hlevel, hwithin⟩ := h.stored item hmem _
    (Item.words?_of_storage? hstorage)
  rw [hstorage] at hstorage'
  obtain rfl := Option.some.inj hstorage'
  exact ⟨hlevel, hwithin⟩

/-- Items in two neighbouring ranges, the upper range first. -/
theorem append (h : Kept entities level mid hi items) (h' : Kept entities level lo mid others)
    (hlo : lo ≤ mid) (hhi : mid ≤ hi) : Kept entities level lo hi (items ++ others) := by
  refine ⟨fun item hmem words hwords => ?_, ?_, fun item hmem => ?_⟩
  · rcases List.mem_append.1 hmem with hmem | hmem
    · obtain ⟨storage, hstorage, hlevel, hwithin⟩ := h.stored item hmem words hwords
      exact ⟨storage, hstorage, hlevel, hwithin.mono hlo (Int.le_refl hi)⟩
    · obtain ⟨storage, hstorage, hlevel, hwithin⟩ := h'.stored item hmem words hwords
      exact ⟨storage, hstorage, hlevel, hwithin.mono (Int.le_refl lo) hhi⟩
  · refine List.pairwise_append.2 ⟨h.separate, h'.separate, ?_⟩
    intro first hfirst second hsecond a b ha hb
    exact (h.within hfirst ha).2.apart (h'.within hsecond hb).2
  · rcases List.mem_append.1 hmem with hmem | hmem
    · exact h.exact item hmem
    · exact h'.exact item hmem

theorem single {storage : Storage} (hstorage : item.storage? entities = some storage)
    (hlevel : storage.level = level) (hwithin : storage.Within lo hi) (hexact : item.Exact) :
    Kept entities level lo hi [item] := by
  refine ⟨fun item' hmem _ _ => ?_, List.pairwise_singleton _ _, fun item' hmem => ?_⟩
  · obtain rfl := List.mem_singleton.1 hmem
    exact ⟨storage, hstorage, hlevel, hwithin⟩
  · obtain rfl := List.mem_singleton.1 hmem
    exact hexact

/-- An item without words of its own takes no room. -/
theorem single_none (hwords : item.words? = none) (hexact : item.Exact) :
    Kept entities level lo hi [item] := by
  refine ⟨fun item' hmem words hsome => ?_, List.pairwise_singleton _ _, fun item' hmem => ?_⟩
  · obtain rfl := List.mem_singleton.1 hmem
    rw [hwords] at hsome
    cases hsome
  · obtain rfl := List.mem_singleton.1 hmem
    exact hexact

end Item.Kept

/-! ## Declarations and parameters -/

variable {made : List TypeDenoter} {π : Plan} {frame frame' : Frame} {extra : Int}

theorem Declaration.Stores.extra_nonneg {declaration : Declaration}
    (h : declaration.Stores π frame extra) : 0 ≤ extra := by
  induction h with
  | literal | proc | func | type => exact Int.le_refl 0
  | const _ _ _ hwords | var _ hwords => exact hwords
  | sequence _ _ ih ih' => exact Int.add_nonneg ih ih'

/-- What a declaration stores lies between the frame before it and the frame after it. -/
theorem Declaration.Stores.kept {declaration : Declaration}
    (h : declaration.Stores π frame extra) :
    Item.Kept π.entity frame.level frame.size (frame.size + extra) declaration.items := by
  induction h with
  | literal hliteral htype hexact =>
    refine .single_none ?_ (.declared (introduces_const htype) hexact)
    rw [Item.words?, if_pos hliteral]
  | @const F span duplicated name value type id hliteral htype hexact hwords hname hat =>
    have hsize : (Item.declared (.const span duplicated name value)).words? = some type.size := by
      rw [Item.words?, hliteral, htype]
      rfl
    have hbinding : (Item.declared (.const span duplicated name value)).binding? = some id :=
      Item.binding?_declared (introduces_const htype) hname
    exact .single (Item.storage?_eq hsize hbinding hat rfl) rfl
      ⟨Int.le_refl _, hwords, Int.le_refl _⟩ (.declared (introduces_const htype) hexact)
  | @var F span duplicated name type id hexact hwords hname hat =>
    have hbinding : (Item.declared (.var span duplicated name type)).binding? = some id :=
      Item.binding?_declared rfl hname
    exact .single (Item.storage?_eq rfl hbinding hat rfl) rfl
      ⟨Int.le_refl _, hwords, Int.le_refl _⟩ (.declared rfl hexact)
  | proc | func | type =>
    exact .single_none rfl (.declared rfl trivial)
  | @sequence F span first second n₁ n₂ hfirst hsecond ih ih' =>
    have hn₁ := hfirst.extra_nonneg
    have hn₂ := hsecond.extra_nonneg
    -- the second declaration is stored above the first
    have hsecond' : Item.Kept π.entity F.level (F.size + n₁) (F.size + (n₁ + n₂)) second.items := by
      rw [← Int.add_assoc]
      exact ih'
    exact hsecond'.append ih (by omega) (by omega)

theorem Formal.Placed.storage?_eq {formal : Formal} {level : Nat} {below : Int}
    (h : formal.Placed π level below) : (Item.parameter formal).storage? π.entity =
      some ⟨level, -(below + formal.words), formal.words⟩ := by
  obtain ⟨-, id, hname, hat⟩ := h
  have haddress : (Item.parameter formal).address?
      (formal.entity ⟨level, -(below + formal.words)⟩) =
        some ⟨level, -(below + formal.words)⟩ := by
    cases formal <;> rfl
  exact Item.storage?_eq rfl ((Item.binding?_parameter formal).trans hname) hat haddress

theorem Formal.Placed.kept {formal : Formal} {level : Nat} {below : Int}
    (h : formal.Placed π level below) :
    Item.Kept π.entity level (-(below + formal.words)) (-below) [.parameter formal] := by
  have hsized := h.1
  have hwithin : (⟨level, -(below + formal.words), formal.words⟩ : Storage).Within
      (-(below + formal.words)) (-below) := by
    refine ⟨Int.le_refl _, hsized.words_nonneg, ?_⟩
    show -(below + formal.words) + formal.words ≤ -below
    omega
  exact .single h.storage?_eq rfl hwithin (.parameter hsized)

theorem Formals.Placed.words_nonneg {formals : Formals} {level : Nat} {below : Int}
    (h : formals.Placed π level below) : 0 ≤ formals.words := by
  cases formals with
  | empty => exact Int.le_refl 0
  | one _ first => exact h.1.words_nonneg
  | more _ first rest => exact Int.add_nonneg h.1.1.words_nonneg (words_nonneg h.2)

/-- The parameters take all the words below the link data that arguments are pushed to. -/
theorem Formals.Placed.kept {formals : Formals} {level : Nat} {below : Int}
    (h : formals.Placed π level below) :
    Item.Kept π.entity level (-(below + formals.words)) (-below) formals.items := by
  cases formals with
  | empty => exact .nil
  | one _ first => exact Formal.Placed.kept h
  | more span first rest =>
    obtain ⟨hfirst, hrest⟩ := h
    have hwords := hfirst.1.words_nonneg
    have hwords' := hrest.words_nonneg
    have hbottom : -(below + (Formals.more span first rest).words) =
        -(below + rest.words + first.words) := by
      show -(below + (first.words + rest.words)) = _
      omega
    rw [hbottom]
    exact (kept hrest).append hfirst.kept (by omega) (by omega)

/-- A declaration has items of its own kind. -/
theorem Declaration.eq_declared_of_mem_items {item : Item} :
    ∀ {declaration : Declaration}, item ∈ declaration.items → ∃ single, item = .declared single
  | .const .., hmem | .var .., hmem | .proc .., hmem | .func .., hmem | .type .., hmem =>
    ⟨_, List.mem_singleton.1 hmem⟩
  | .sequence .., hmem => by
    rcases List.mem_append.1 hmem with hmem | hmem
    · exact eq_declared_of_mem_items hmem
    · exact eq_declared_of_mem_items hmem

theorem Formals.eq_parameter_of_mem_items {item : Item} :
    ∀ formals : Formals, item ∈ formals.items → ∃ formal, item = .parameter formal
  | .empty _, hmem => absurd hmem List.not_mem_nil
  | .one .., hmem => ⟨_, List.mem_singleton.1 hmem⟩
  | .more _ _ rest, hmem => by
    rcases List.mem_append.1 hmem with hmem | hmem
    · exact rest.eq_parameter_of_mem_items hmem
    · exact ⟨_, List.mem_singleton.1 hmem⟩

namespace Declaration.IsRoutine

variable {routine : Declaration}

theorem words?_eq (h : routine.IsRoutine) : (Item.declared routine).words? = none := by
  cases routine <;> first | rfl | exact h.elim

/-- A routine needs no words on the stack. -/
theorem kept (h : routine.IsRoutine) {entities : BindingId → Option Entity} {level : Nat}
    (lo hi : Int) : Item.Kept entities level lo hi [.declared routine] := by
  refine .single_none h.words?_eq ?_
  cases routine with
  | proc | func => exact .declared rfl trivial
  | _ => exact h.elim

end Declaration.IsRoutine

/-! ## Visits -/

/-- Where the words of a routine, or of the program, begin. -/
def Frame.base (frame : Frame) : Int := if frame.level = 0 then 0 else Machine.linkDataSize

/-- Parameters lie among the arguments, and other items between the base and the end of the
    frame. -/
def Item.Lies (frame : Frame) (arguments : Int) (storage : Storage) : Item → Prop
  | .parameter _ => storage.Within (-arguments) 0
  | .declared _ | .standard .. => storage.Within frame.base frame.size

/-- Each item in scope that needs words of its own has them, in the frame of the visit if it
    belongs to its level, and no word belongs to two items. -/
structure Visit.Separates (visit : Visit) (entities : BindingId → Option Entity) : Prop where
  stored   : ∀ item ∈ visit.context.items, ∀ words, item.words? = some words →
    ∃ storage, item.storage? entities = some storage ∧ storage.words = words ∧
      storage.level ≤ visit.call.frame.level ∧
      (storage.level = visit.call.frame.level →
        item.Lies visit.call.frame visit.context.arguments storage)
  separate : visit.context.items.Pairwise (Item.Separate entities)
  exact    : ∀ item ∈ visit.context.items, item.Exact
  base     : visit.call.frame.base ≤ visit.call.frame.size

namespace Visit.Separates

variable {visit : Visit} {entities : BindingId → Option Entity} {phrase : Phrase} {s : Encoder}
  {item : Item}

theorem lies (h : visit.Separates entities) (hmem : item ∈ visit.context.items)
    {storage : Storage} (hstorage : item.storage? entities = some storage) :
    storage.level ≤ visit.call.frame.level ∧
      (storage.level = visit.call.frame.level →
        item.Lies visit.call.frame visit.context.arguments storage) := by
  obtain ⟨storage', hstorage', -, hlevel, hlies⟩ := h.stored item hmem _
    (Item.words?_of_storage? hstorage)
  rw [hstorage] at hstorage'
  obtain rfl := Option.some.inj hstorage'
  exact ⟨hlevel, hlies⟩


/-- In a frame with more words everything lies where it did. -/
theorem more (h : visit.Separates entities) {n : Int} (hn : 0 ≤ n) :
    (⟨visit.context, ⟨phrase, visit.call.frame.more n, s⟩⟩ : Visit).Separates entities := by
  have hsize : visit.call.frame.size ≤ visit.call.frame.size + n := by omega
  refine ⟨fun item hmem words hwords => ?_, h.separate, h.exact, Int.le_trans h.base hsize⟩
  obtain ⟨storage, hstorage, hwords', hlevel, hlies⟩ := h.stored item hmem words hwords
  refine ⟨storage, hstorage, hwords', hlevel, fun hsame => ?_⟩
  cases item with
  | parameter formal => exact hlies hsame
  | declared declaration => exact (hlies hsame).mono (Int.le_refl _) hsize
  | standard declaration id => exact (hlies hsame).mono (Int.le_refl _) hsize

/-- An item in scope is apart from what is kept above the frame. -/
theorem separate_kept (h : visit.Separates entities) {items : List Item} {hi : Int}
    (hkept : Item.Kept entities visit.call.frame.level visit.call.frame.size hi items)
    {item' : Item} (hmem : item ∈ items) (hmem' : item' ∈ visit.context.items) :
    item.Separate entities item' := by
  intro a b ha hb hlevel
  obtain ⟨ha', hwithin⟩ := hkept.within hmem ha
  obtain ⟨-, hlies⟩ := h.lies hmem' hb
  have hbase := h.base
  have hb' : b.level = visit.call.frame.level := hlevel.symm.trans ha'
  -- a parameter lies below the base, every other item below the end of the frame
  have hbelow : b.Within (min (-visit.context.arguments) visit.call.frame.base)
      visit.call.frame.size := by
    have hzero : 0 ≤ visit.call.frame.base := by
      unfold Frame.base
      split <;> decide
    cases item' with
    | parameter formal => exact (hlies hb').mono (by omega) (by omega)
    | declared declaration => exact (hlies hb').mono (by omega) (by omega)
    | standard declaration id => exact (hlies hb').mono (by omega) (by omega)
  exact hwithin.apart hbelow hlevel

/-- What a declaration stores is apart from what was there before it. -/
theorem after (h : visit.Separates π.entity) {declaration : Declaration} {extra : Int}
    (hstores : declaration.Stores π visit.call.frame extra) :
    (⟨(Opening.after declaration).context visit.context,
      ⟨phrase, visit.call.frame.more extra, s⟩⟩ : Visit).Separates π.entity := by
  have hextra := hstores.extra_nonneg
  have hkept := hstores.kept
  have hmore : (⟨visit.context, ⟨phrase, visit.call.frame.more extra, s⟩⟩ : Visit).Separates
      π.entity := h.more hextra
  refine ⟨fun item hmem words hwords => ?_, ?_, fun item hmem => ?_, hmore.base⟩
  · rcases List.mem_append.1 hmem with hnew | hold
    · obtain ⟨storage, hstorage, hlevel, hwithin⟩ := hkept.stored item hnew words hwords
      have hsize : storage.words = words := by
        have := Item.words?_of_storage? hstorage
        rw [hwords] at this
        exact (Option.some.inj this).symm
      refine ⟨storage, hstorage, hsize, Nat.le_of_eq hlevel, fun _ => ?_⟩
      obtain ⟨declared, rfl⟩ := Declaration.eq_declared_of_mem_items hnew
      exact hwithin.mono h.base (Int.le_refl _)
    · exact hmore.stored item hold words hwords
  · refine List.pairwise_append.2 ⟨hkept.separate, h.separate, ?_⟩
    intro item hnew item' hold
    exact h.separate_kept hkept hnew hold
  · rcases List.mem_append.1 hmem with hnew | hold
    · exact hkept.exact item hnew
    · exact h.exact item hold

/-- The body of a routine has its parameters alone at its level. -/
theorem body (h : visit.Separates π.entity) {routine : Declaration} {parameters : Formals}
    (hroutine : routine.IsRoutine)
    (hplaced : parameters.Placed π (visit.call.frame.level + 1) 0) :
    (⟨(Opening.body routine parameters).context visit.context,
      ⟨phrase, visit.call.frame.push Machine.linkDataSize, s⟩⟩ : Visit).Separates π.entity := by
  have hparameters := hplaced.kept
  rw [Int.zero_add, Int.neg_zero] at hparameters
  have hkept : Item.Kept π.entity (visit.call.frame.level + 1) (-parameters.words) 0
      (parameters.items ++ [.declared routine]) :=
    hparameters.append (hroutine.kept (-parameters.words) (-parameters.words)) (Int.le_refl _)
      (Int.neg_nonpos_of_nonneg hplaced.words_nonneg)
  -- what was in scope before belongs to the levels outside
  have houter {item : Item} (hold : item ∈ visit.context.items) {storage : Storage}
      (hstorage : item.storage? π.entity = some storage) :
      storage.level < visit.call.frame.level + 1 :=
    Nat.lt_succ_of_le (h.lies hold hstorage).1
  refine ⟨fun item hmem words hwords => ?_, ?_, fun item hmem => ?_, ?_⟩
  · rcases List.mem_append.1 hmem with hnew | hold
    · obtain ⟨storage, hstorage, hlevel, hwithin⟩ := hkept.stored item hnew words hwords
      have hsize := Item.words?_of_storage? hstorage
      rw [hwords] at hsize
      refine ⟨storage, hstorage, (Option.some.inj hsize).symm, Nat.le_of_eq hlevel, fun _ => ?_⟩
      rcases List.mem_append.1 hnew with hparameter | hself
      · obtain ⟨formal, rfl⟩ := parameters.eq_parameter_of_mem_items hparameter
        exact hwithin
      · obtain rfl := List.mem_singleton.1 hself
        rw [hroutine.words?_eq] at hwords
        cases hwords
    · obtain ⟨storage, hstorage, hsize, -, -⟩ := h.stored item hold words hwords
      have hlt := houter hold hstorage
      exact ⟨storage, hstorage, hsize, Nat.le_of_lt hlt, fun heq => absurd heq (Nat.ne_of_lt hlt)⟩
  · refine List.pairwise_append.2 ⟨hkept.separate, h.separate, ?_⟩
    intro item hnew item' hold a b ha hb hlevel
    have hlt := houter hold hb
    rw [← hlevel, (hkept.within hnew ha).1] at hlt
    exact absurd hlt (Nat.lt_irrefl _)
  · rcases List.mem_append.1 hmem with hnew | hold
    · exact hkept.exact item hnew
    · exact h.exact item hold
  · exact Int.le_refl _

end Visit.Separates

/-- From the items being separate at a visit it follows at the next one. -/
theorem Visit.Separates.step {visit : Visit} (h : visit.Separates π.entity) {part : Part}
    {frame : Frame} {s : Encoder} (hframes : part.opening.Frames π visit.call.frame frame) :
    (⟨part.opening.context visit.context, ⟨part.phrase, frame, s⟩⟩ : Visit).Separates π.entity := by
  obtain ⟨phrase, opening, reach, meets⟩ := part
  cases opening with
  | same =>
    obtain ⟨n, hn, rfl⟩ := hframes
    exact h.more hn
  | after declaration =>
    obtain ⟨extra, hstores, rfl⟩ := hframes
    exact h.after hstores
  | body routine parameters =>
    obtain ⟨hroutine, rfl, hplaced⟩ := hframes
    exact h.body hroutine hplaced

/-- Items are separate wherever the encoder comes to. -/
theorem Visit.Separates.leads {start visit : Visit} (h : start.Separates π.entity)
    (hsound : start.Sound made π) (hleads : start.Leads visit) : visit.Separates π.entity := by
  induction hleads with
  | refl => exact h
  | part hbefore hpart _ hrun ih => exact ih.step ((hsound.leads hbefore).part hpart hrun).1

end TriangleTam
