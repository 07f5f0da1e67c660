import TriangleTam.Proofs.Coding.Paths
import TriangleTam.Proofs.Visited

/-! # Separation of storage in accepted texts

  Wherever the encoder comes to in a text that is accepted, the variables,
  computed constants and parameters in scope have words of their own, and no
  two of them at one level share a word. A vname whose subscripts are literals
  in bounds denotes words of its base alone, and two such vnames that part ways
  denote words that are apart.
-/

namespace TriangleTam

variable {made : List TypeDenoter} {π : Plan}

/-! ## Entities at a visit -/

/-- How bindings are represented at the visit. -/
def Visit.entities (visit : Visit) (id : BindingId) : Option Entity :=
  visit.call.encoder.entities.lookup id

/-- What is represented where a sound call starts is represented as planned. -/
theorem Call.Sound.final {Γ : Env} {call : Call} (h : call.Sound made π Γ) :
    call.encoder.Final π := by
  obtain ⟨⟨p, p', hchecked, hready⟩, words, s', hrun, hfinal⟩ := h
  obtain ⟨words', s'', hrun', hbefore, -⟩ := hchecked.opens call.frame call.encoder hready
  obtain rfl : s' = s'' := congrArg Prod.snd (hrun.symm.trans hrun')
  exact hbefore.final hfinal

/-- The entry of an item whose name stands for a type. -/
theorem Item.words?_of_type {item : Item} {entry : Env.Entry} {type : TypeDenoter}
    (h : item.entered? = some entry) (htype : entry.2.2 = .type type) : item.words? = none := by
  cases item with
  | standard => rfl
  | parameter formal =>
    obtain ⟨_, -, rfl⟩ := Option.map_eq_some_iff.1 h
    cases formal <;> cases htype
  | declared declaration =>
    obtain ⟨name, kind, hmade, -, hkind⟩ := Item.introduced_of_entered? h
    cases declaration with
    | const _ _ _ value =>
      obtain ⟨denoter, -, heq⟩ := Option.map_eq_some_iff.1 hmade
      obtain ⟨-, rfl⟩ := Prod.mk.inj heq
      rw [← hkind] at htype
      cases htype
    | var =>
      obtain ⟨-, rfl⟩ := Prod.mk.inj (Option.some.inj hmade)
      rw [← hkind] at htype
      cases htype
    | _ => rfl

/-- What a name in scope stands for has been represented as planned, unless it is a type. -/
theorem Visit.Sound.entities_eq {visit : Visit} (h : visit.Sound made π) {item : Item}
    {entry : Env.Entry} (hmem : item ∈ visit.context.items) (hentry : item.entered? = some entry)
    (hno : ∀ type, entry.2.2 ≠ .type type) :
    visit.entities entry.2.1 = π.entity entry.2.1 := by
  obtain ⟨Γ, hentries, hsound⟩ := h
  have hmem' : some entry ∈ Γ.entries.map some := by
    rw [← hentries, ← hentry]
    exact List.mem_map_of_mem hmem
  obtain ⟨_, hmade, heq⟩ := List.mem_map.1 hmem'
  obtain rfl := Option.some.inj heq
  obtain ⟨⟨_, _, -, hready⟩, -⟩ := id hsound
  rcases hready.fits _ hmade with ⟨type, htype⟩ | ⟨entity, hat, -⟩
  · exact absurd htype (hno type)
  · exact Eq.trans hat (hsound.final.entities hat).symm

/-- An item in scope that needs words has been represented as planned. -/
theorem Visit.Sound.storage?_eq {visit : Visit} (h : visit.Sound made π) {item : Item}
    (hmem : item ∈ visit.context.items) :
    item.storage? visit.entities = item.storage? π.entity := by
  have hsame (entry : Env.Entry) (hentry : item.entered? = some entry)
      (hwords : item.words? ≠ none) : visit.entities entry.2.1 = π.entity entry.2.1 :=
    h.entities_eq hmem hentry fun _ htype => hwords (Item.words?_of_type hentry htype)
  unfold Item.storage?
  cases hwords : item.words? with
  | none => rfl
  | some words =>
    cases hentry : item.entered? with
    | none =>
      rw [Item.binding?, hentry]
      rfl
    | some entry =>
      rw [Item.binding?, hentry]
      show ((visit.entities entry.2.1).bind _) = ((π.entity entry.2.1).bind _)
      rw [hsame entry hentry (by rw [hwords]; exact Option.some_ne_none words)]

/-- Only the entities of the items in scope matter. -/
theorem Visit.Separates.congr {visit : Visit} {entities entities' : BindingId → Option Entity}
    (h : visit.Separates entities)
    (hsame : ∀ item ∈ visit.context.items, item.storage? entities' = item.storage? entities) :
    visit.Separates entities' := by
  refine ⟨fun item hmem words hwords => ?_, ?_, h.exact, h.base⟩
  · rw [hsame item hmem]
    exact h.stored item hmem words hwords
  · refine h.separate.imp_of_mem ?_
    intro first second hfirst hsecond hseparate a b ha hb
    rw [hsame first hfirst] at ha
    rw [hsame second hsecond] at hb
    exact hseparate a b ha hb

/-! ## Words of vnames -/

/-- Where displacements in an entity are counted from. In a variable parameter they are counted
    from the variable whose address it holds. -/
def Entity.origin : Entity → Int
  | unknownValue _ address | knownAddress _ address => address.displacement
  | typeRepresentation _ | knownValue .. | unknownAddress .. | knownRoutine .. | unknownRoutine ..
  | primitiveRoutine _ | equalityRoutine _ | barRoutine | field .. => 0

/-- The `n` words at a place in an entity. -/
def Entity.words (entity : Entity) (access : Access) (n : Int) : Set Int :=
  Set.Ico (entity.origin + access.offset) (entity.origin + access.offset + n)

/-- The item is a variable parameter. -/
def Item.IsReference : Item → Prop
  | .parameter (.var ..) => True
  | _ => False

/-- The encoder gave the vname of the visit a place. -/
structure Visit.Accesses (visit : Visit) (vname : Vname) (entity : Entity) (access : Access)
    (type : TypeDenoter) : Prop where
  phrase : visit.call.phrase = .vname vname
  run    : ∃ s', (Encode.place vname visit.call.frame).exec visit.call.encoder =
    (.ok (entity, access), s')
  type   : vname.type = some type

/-- The place of the vname is inside of an item that is in scope, in the words of its value. -/
structure Visit.Inside (visit : Visit) (vname : Vname) (entity : Entity) (access : Access)
    (type : TypeDenoter) (item : Item) (base : TypeDenoter) : Prop where
  scope   : item ∈ visit.context.items ∧
    ∃ entry, item.entered? = some entry ∧ vname.base.binding = some entry.2.1 ∧
      visit.entities entry.2.1 = some entity ∧ entry.2.2.Values base
  /-- The item's own words are those of its value, unless it only refers to a variable. -/
  storage : ¬ item.IsReference → ∀ storage, item.storage? visit.entities = some storage →
    storage.range = entity.words {} base.size
  /-- Nothing outside of the value of the base is reached in bounds. -/
  inside  : vname.InBounds →
    access.indexed = false ∧ entity.words access type.size ⊆ entity.words {} base.size

theorem BindingKind.Values.unique {kind : BindingKind} {type type' : TypeDenoter}
    (h : kind.Values type) (h' : kind.Values type') : type = type' := by
  rcases h with rfl | rfl
  · rcases h' with heq | heq
    · exact BindingKind.const.inj heq
    · cases heq
  · rcases h' with heq | heq
    · cases heq
    · exact BindingKind.var.inj heq

theorem BindingKind.Values.ne_type {kind : BindingKind} {type : TypeDenoter}
    (h : kind.Values type) (denoter : TypeDenoter) : kind ≠ .type denoter := by
  rcases h with rfl | rfl
  · exact BindingKind.noConfusion
  · exact BindingKind.noConfusion

/-- An item needs as many words as the value has that its name stands for. -/
theorem Item.words_eq {item : Item} {entry : Env.Entry} {base : TypeDenoter} {words : Int}
    (hentry : item.entered? = some entry) (hvalues : entry.2.2.Values base)
    (hreference : ¬ item.IsReference) (hwords : item.words? = some words) : words = base.size := by
  cases item with
  | standard => cases hwords
  | parameter formal =>
    obtain ⟨_, -, rfl⟩ := Option.map_eq_some_iff.1 hentry
    cases formal with
    | const _ _ _ type =>
      obtain rfl := hvalues.unique (.inl rfl)
      exact (Option.some.inj hwords).symm
    -- a variable parameter is a reference
    | var => exact absurd trivial hreference
    -- and a routine has no value
    | proc | func => rcases hvalues with h | h <;> cases h
  | declared declaration =>
    obtain ⟨_, kind, hmade, -, hkind⟩ := Item.introduced_of_entered? hentry
    rw [← hkind] at hvalues
    cases declaration with
    | const _ _ _ value =>
      obtain ⟨type, htype, heq⟩ := Option.map_eq_some_iff.1 hmade
      obtain ⟨-, rfl⟩ := Prod.mk.inj heq
      obtain rfl := hvalues.unique (.inl rfl)
      rw [Item.words?, htype] at hwords
      -- a constant that is a literal takes no words
      split at hwords
      · cases hwords
      · exact (Option.some.inj hwords).symm
    | var =>
      obtain ⟨-, rfl⟩ := Prod.mk.inj (Option.some.inj hmade)
      obtain rfl := hvalues.unique (.inr rfl)
      exact (Option.some.inj hwords).symm
    | _ => cases hwords

/-- The words of an item are those of the value that its name stands for. -/
theorem Item.range_eq {entities : BindingId → Option Entity} {item : Item} {entry : Env.Entry}
    {base : TypeDenoter} {entity : Entity} {storage : Storage} (hentry : item.entered? = some entry)
    (hvalues : entry.2.2.Values base) (hat : entities entry.2.1 = some entity)
    (hreference : ¬ item.IsReference) (hstorage : item.storage? entities = some storage) :
    storage.range = entity.words {} base.size := by
  obtain ⟨id, entity', address, hwords, hbinding, hat', haddress, -, hstart⟩ :=
    Item.of_storage? hstorage
  have hid : item.binding? = some entry.2.1 := by
    rw [Item.binding?, hentry]
    rfl
  obtain rfl := Option.some.inj (hbinding.symm.trans hid)
  obtain rfl := Option.some.inj (hat.symm.trans hat')
  -- each kind of item starts where its entity says
  have horigin : entity.origin = address.displacement := by
    unfold Item.address? at haddress
    split at haddress
    · exact congrArg Address.displacement (Option.some.inj haddress)
    · exact congrArg Address.displacement (Option.some.inj haddress)
    · exact congrArg Address.displacement (Option.some.inj haddress)
    · exact absurd trivial hreference
    · -- the name of a routine parameter stands for no value
      obtain ⟨_, -, rfl⟩ := Option.map_eq_some_iff.1 hentry
      rcases hvalues with h | h <;> cases h
    · obtain ⟨_, -, rfl⟩ := Option.map_eq_some_iff.1 hentry
      rcases hvalues with h | h <;> cases h
    · cases haddress
  unfold Storage.range Entity.words
  rw [hstart, horigin, Item.words_eq hentry hvalues hreference hwords, Int.add_zero]

/-- The encoder has a place for every vname that it comes to. -/
theorem Visit.Sound.accesses {visit : Visit} (h : visit.Sound made π) {vname : Vname}
    (hphrase : visit.call.phrase = .vname vname) :
    ∃ Γ : Env, visit.context.items.map Item.entered? = Γ.entries.map some ∧
      ∃ entity access type base, visit.Accesses vname entity access type ∧
        vname.Reaches made π Γ entity access base type := by
  obtain ⟨context, phrase, frame, s⟩ := visit
  obtain rfl : phrase = .vname vname := hphrase
  obtain ⟨Γ, hentries, ⟨p, p', ⟨⟨source, type, htyped⟩, hknown, hplan⟩, hready⟩, words, s', hrun,
    hfinal⟩ := h
  obtain ⟨⟨entity, access⟩, s'', hplace, -, -, -, hyields⟩ :=
    htyped.encodes hknown hplan frame s hready
  have hsame : ((Phrase.vname vname).encode frame).exec s = (.ok access.pending, s'') :=
    Encode.exec_bind hplace
  obtain rfl : s' = s'' := congrArg Prod.snd (hrun.symm.trans hsame)
  obtain ⟨lines, hcode, -⟩ := hyields hfinal
  obtain ⟨base, hreaches⟩ := htyped.reaches hcode hknown
  exact ⟨Γ, hentries, entity, access, type, base, ⟨rfl, ⟨s', hplace⟩, htyped.type_eq⟩, hreaches⟩

/-- The place of a vname is what its run says. -/
theorem Visit.Accesses.unique {visit : Visit} {vname : Vname} {entity entity' : Entity}
    {access access' : Access} {type type' : TypeDenoter}
    (h : visit.Accesses vname entity access type) (h' : visit.Accesses vname entity' access' type') :
    entity = entity' ∧ access = access' ∧ type = type' := by
  obtain ⟨s', hrun⟩ := h.run
  obtain ⟨s'', hrun'⟩ := h'.run
  have hplace := Except.ok.inj (congrArg Prod.fst (hrun.symm.trans hrun'))
  obtain ⟨rfl, rfl⟩ := Prod.mk.inj hplace
  exact ⟨rfl, rfl, Option.some.inj (h.type.symm.trans h'.type)⟩

namespace Vname.Reaches

variable {Γ : Env} {vname : Vname} {entity : Entity} {access : Access} {base type : TypeDenoter}

/-- In bounds a vname reaches words of its base alone. -/
theorem words_subset (h : vname.Reaches made π Γ entity access base type) (hexact : base.Exact)
    (hbounds : vname.InBounds) :
    entity.words access type.size ⊆ entity.words {} base.size := by
  have hcontains := h.known.contains_part (h.selects hbounds).2
  have hlower := hcontains.lower
  have hupper := hcontains.upper
  rw [hexact.size_eq, (hcontains.exact hexact).size_eq]
  refine Set.Ico_subset_Ico ?_ ?_
  · show entity.origin + 0 ≤ entity.origin + access.offset
    omega
  · show entity.origin + access.offset + type.width ≤ entity.origin + 0 + base.width
    omega

/-- Vnames in bounds that begin at one entity and part ways reach words that are apart. -/
theorem disjoint {Γ' : Env} {vname' : Vname} {access' : Access} {type' : TypeDenoter}
    (h : vname.Reaches made π Γ entity access base type)
    (h' : vname'.Reaches made π Γ' entity access' base type') (hexact : base.Exact)
    (hbounds : vname.InBounds) (hbounds' : vname'.InBounds) (hno : ¬ vname.path <+: vname'.path)
    (hno' : ¬ vname'.path <+: vname.path) :
    Disjoint (entity.words access type.size) (entity.words access' type'.size) := by
  have hpart := (h.selects hbounds).2
  have hpart' := (h'.selects hbounds').2
  have hapart := h.known.apart_part hno hno' hpart hpart'
  have hsize := ((h.known.contains_part hpart).exact hexact).size_eq
  have hsize' := ((h.known.contains_part hpart').exact hexact).size_eq
  rw [hsize, hsize']
  refine Set.disjoint_left.2 fun word hword hword' => ?_
  have hlo : entity.origin + access.offset ≤ word := hword.1
  have hhi : word < entity.origin + access.offset + type.width := hword.2
  have hlo' : entity.origin + access'.offset ≤ word := hword'.1
  have hhi' : word < entity.origin + access'.offset + type'.width := hword'.2
  unfold WordsApart at hapart
  omega

end Vname.Reaches

/-- The item that the base of a vname is about. -/
theorem Vname.Reaches.item {visit : Visit} {Γ : Env} {vname : Vname} {entity : Entity}
    {access : Access} {base type : TypeDenoter}
    (h : vname.Reaches made π Γ entity access base type)
    (hentries : visit.context.items.map Item.entered? = Γ.entries.map some) :
    ∃ item ∈ visit.context.items, ∃ entry, item.entered? = some entry ∧
      vname.base.binding = some entry.2.1 ∧ entry.2.2.Values base ∧
      π.entity entry.2.1 = some entity := by
  obtain ⟨entry, hentry, hbinding, hvalues, hat⟩ := h.base
  have hmem : some entry ∈ visit.context.items.map Item.entered? := by
    rw [hentries]
    exact List.mem_map_of_mem hentry
  obtain ⟨item, hitem, hmade⟩ := List.mem_map.1 hmem
  exact ⟨item, hitem, entry, hmade, hbinding, hvalues, hat⟩

theorem BindingKind.Exact.of_values {kind : BindingKind} {type : TypeDenoter} (h : kind.Exact)
    (hvalues : kind.Values type) : type.Exact := by
  rcases hvalues with rfl | rfl
  · exact h
  · exact h

/-- Every vname has a place inside of an item in scope. -/
theorem Visit.Sound.inside {visit : Visit} (h : visit.Sound made π)
    (hseparates : visit.Separates π.entity) {vname : Vname}
    (hphrase : visit.call.phrase = .vname vname) :
    ∃ entity access type item base, visit.Accesses vname entity access type ∧
      visit.Inside vname entity access type item base := by
  obtain ⟨Γ, hentries, entity, access, type, base, haccesses, hreaches⟩ := h.accesses hphrase
  obtain ⟨item, hitem, entry, hentry, hbinding, hvalues, hat⟩ := hreaches.item hentries
  have hexact : base.Exact := (hseparates.exact item hitem entry hentry).of_values hvalues
  have hat' : visit.entities entry.2.1 = some entity :=
    (h.entities_eq hitem hentry hvalues.ne_type).trans hat
  refine ⟨entity, access, type, item, base, haccesses, ⟨hitem, entry, hentry, hbinding, hat',
    hvalues⟩, ?_, fun hbounds => ?_⟩
  · intro hreference storage hstorage
    exact Item.range_eq hentry hvalues hat' hreference hstorage
  · exact ⟨(hreaches.selects hbounds).1, hreaches.words_subset hexact hbounds⟩

/-- Two vnames in bounds that begin at one binding and part ways have places that are apart. -/
theorem Visit.Binds.disjoint {start first second : Visit} (hbinds : start.Binds)
    (hfirst : start.Leads first) (hsecond : start.Leads second) (h : first.Sound made π)
    (h' : second.Sound made π) (hseparates : first.Separates π.entity) {vname vname' : Vname}
    {entity entity' : Entity} {access access' : Access} {type type' : TypeDenoter}
    (haccesses : first.Accesses vname entity access type)
    (haccesses' : second.Accesses vname' entity' access' type')
    (hbase : vname.base.binding = vname'.base.binding) (hbounds : vname.InBounds)
    (hbounds' : vname'.InBounds) (hno : ¬ vname.path <+: vname'.path)
    (hno' : ¬ vname'.path <+: vname.path) :
    Disjoint (entity.words access type.size) (entity'.words access' type'.size) := by
  obtain ⟨Γ, hentries, _, _, _, base, hplace, hreaches⟩ := h.accesses haccesses.phrase
  obtain ⟨Γ', hentries', _, _, _, base', hplace', hreaches'⟩ := h'.accesses haccesses'.phrase
  obtain ⟨rfl, rfl, rfl⟩ := haccesses.unique hplace
  obtain ⟨rfl, rfl, rfl⟩ := haccesses'.unique hplace'
  obtain ⟨item, hitem, entry, hentry, hbinding, hvalues, hat⟩ := hreaches.item hentries
  obtain ⟨item', hitem', entry', hentry', hbinding', hvalues', hat'⟩ := hreaches'.item hentries'
  -- one binding, so one item, one entity and one type of the base
  have hid : entry.2.1 = entry'.2.1 :=
    Option.some.inj (hbinding.symm.trans (hbase.trans hbinding'))
  have hsame : item = item' := by
    refine hbinds first second hfirst hsecond item hitem item' hitem' ?_
    rw [Item.binding?, Item.binding?, hentry, hentry']
    exact congrArg some hid
  subst hsame
  obtain rfl := Option.some.inj (hentry.symm.trans hentry')
  obtain rfl := hvalues.unique hvalues'
  obtain rfl := Option.some.inj (hat.symm.trans hat')
  have hexact : base.Exact := (hseparates.exact item hitem entry hentry).of_values hvalues
  exact hreaches.disjoint hreaches' hexact hbounds hbounds' hno hno'

/-! ## Accepted texts -/

/-- Standard constants are exact. -/
theorem Standard.exact : ∀ declaration ∈ Standard.declarations, declaration.shape.kind.Exact := by
  intro declaration hmem
  fin_cases hmem <;> exact trivial

/-- In the frame of a program nothing is stored yet. -/
theorem Context.standard_separates {call : Call} (hframe : call.frame = Frame.initial)
    (entities : BindingId → Option Entity) :
    (⟨.standard, call⟩ : Visit).Separates entities := by
  have hstandard : ∀ item ∈ Context.standard.items, ∃ declaration id,
      declaration ∈ Standard.declarations ∧ item = .standard declaration id := by
    intro item hmem
    obtain ⟨numbered, hnumbered, rfl⟩ := List.mem_map.1 (List.mem_reverse.1 hmem)
    have hat := List.mem_zipIdx_iff_getElem?.1 hnumbered
    exact ⟨numbered.1, numbered.2, List.mem_of_getElem? hat, rfl⟩
  refine ⟨fun item hmem words hwords => ?_, ?_, fun item hmem entry hentry => ?_, ?_⟩
  · obtain ⟨declaration, id, -, rfl⟩ := hstandard item hmem
    cases hwords
  · refine List.pairwise_of_forall_mem_list ?_
    intro first hfirst second _ a b ha _
    obtain ⟨declaration, id, -, rfl⟩ := hstandard first hfirst
    cases ha
  · obtain ⟨declaration, id, hdeclaration, rfl⟩ := hstandard item hmem
    obtain rfl := Option.some.inj hentry
    exact Standard.exact declaration hdeclaration
  · rw [hframe]
    exact Int.le_refl 0

/-- In every text that is accepted, storage is never shared. Wherever the encoder comes to, each
    variable, computed constant and parameter in scope has words of its own, and no two at one
    level share a word: those of the level of the frame lie between its base and its end, or
    among the arguments. A vname whose subscripts are literals in bounds has its words inside of
    those of its base, and two such vnames of one base, neither of which goes on from the other,
    share no word. -/
theorem compile_storage_separate {text : String} {options : Options} {object : ObjectProgram}
    (h : compile text options = .ok object) :
    ∃ start s', Compilation text options object start s' ∧
      (∀ visit, start.Leads visit → visit.Separates visit.entities) ∧
      (∀ visit vname, start.Leads visit → visit.call.phrase = .vname vname →
        ∃ entity access type item base, visit.Accesses vname entity access type ∧
          visit.Inside vname entity access type item base) ∧
      ∀ first second, start.Leads first → start.Leads second →
        ∀ vname vname' entity entity' access access' type type',
          first.Accesses vname entity access type →
          second.Accesses vname' entity' access' type' →
          vname.base.binding = vname'.base.binding → vname.InBounds → vname'.InBounds →
          ¬ vname.path <+: vname'.path → ¬ vname'.path <+: vname.path →
          Disjoint (entity.words access type.size) (entity'.words access' type'.size) := by
  obtain ⟨start, s', hcompilation, hbinds, made, routines, hsound⟩ := compile_visits h
  have hseparates : start.Separates (s'.plan routines).entity := by
    obtain ⟨program, journal, -, rfl⟩ := hcompilation.tree
    exact Context.standard_separates rfl _
  refine ⟨start, s', hcompilation, ?_, ?_, ?_⟩
  · intro visit hleads
    have hvisit := hsound.leads hleads
    exact (hseparates.leads hsound hleads).congr fun item hmem => hvisit.storage?_eq hmem
  · intro visit vname hleads hphrase
    exact (hsound.leads hleads).inside (hseparates.leads hsound hleads) hphrase
  · intro first second hfirst hsecond _ _ _ _ _ _ _ _ haccesses haccesses' hbase hbounds hbounds'
      hno hno'
    exact hbinds.disjoint hfirst hsecond (hsound.leads hfirst) (hsound.leads hsecond)
      (hseparates.leads hsound hfirst) haccesses haccesses' hbase hbounds hbounds' hno hno'

/-- A text with a block inside of an expression, a routine inside of a routine, and paths of fields
    and elements. -/
private def nestedText : String :=
  "let type T ~ array 2 of record x: Integer, y: array 3 of Char end;
       var a: T; const c ~ 1 + 2;
       func two(): Integer ~ 2;
       func f(n: Integer, var v: Integer, func g(): Integer): Integer ~
         let var k: Integer; func h(): Integer ~ let var l: Char in k + n in h() + v
   in begin
     a[1].x := let const d ~ c + 1 in d + f(d, var a[0].x, func two);
     a[0].y[2] := 'z'; put(a[1].y[0])
   end"

set_option maxRecDepth 2000 in
/-- The text compiles to 40 instructions, and shares no storage. -/
theorem compile_storage_separate_sample :
    ∃ object, compile nestedText {} = .ok object ∧ object.instructions.size = 40 ∧
      ∃ start s', Compilation nestedText {} object start s' ∧
        ∀ visit, start.Leads visit → visit.Separates visit.entities := by
  have hsize : (match compile nestedText {} with
    | .ok object => object.instructions.size
    | .error _ => 0) = 40 := by
    have hchars : nestedText = String.ofList _ := rfl
    rw [compile, Compiler.parse, Program.parse, Stream.ofText, tokenize_of_chars hchars]
    decide +kernel
  cases hcompile : compile nestedText {} with
  | error diagnostics =>
    rw [hcompile] at hsize
    cases hsize
  | ok object =>
    rw [hcompile] at hsize
    obtain ⟨start, s', hcompilation, hseparates, -⟩ := compile_storage_separate hcompile
    exact ⟨object, rfl, hsize, start, s', hcompilation, hseparates⟩

end TriangleTam
