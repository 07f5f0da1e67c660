import TriangleTam.Proofs.Coding.Walk
import TriangleTam.Proofs.Visited

/-! # Passing of routines

  What a caller knows of a routine is its **profile**: for each parameter how
  it is passed and how many words that takes, and the words of the result. A
  routine that is passed for a parameter **flows** to it, and so does whatever
  flowed before to the name that is passed. Signatures are compared wherever
  something is passed, so everything that flows to a name has the profile that
  the name says.
-/

namespace TriangleTam

/-! ## Profiles -/

/-- How many words something that is passed takes, and of a routine what it takes and gives in
    turn. -/
inductive Profile
  | value (words : Int)
  | reference
  | routine (parameters : List Profile) (result : Int)

/-- The words in which it is passed. -/
def Profile.words : Profile → Int
  | value n => n
  | reference => Machine.addressSize
  | routine .. => Machine.closureSize

mutual

def FormalShape.profile : FormalShape → Profile
  | .const type => .value type.size
  | .var _ => .reference
  | .proc formals => .routine (Signature.profiles formals) 0
  | .func formals result => .routine (Signature.profiles formals) result.size

def Signature.profiles : List FormalShape → List Profile
  | [] => []
  | formal :: others => formal.profile :: Signature.profiles others

end

theorem Signature.profiles_eq_map : ∀ shapes : Signature,
    profiles shapes = shapes.map FormalShape.profile
  | [] => rfl
  | shape :: others => congrArg (shape.profile :: ·) (profiles_eq_map others)

@[simp] theorem FormalShape.words_profile (shape : FormalShape) :
    shape.profile.words = shape.words := by
  cases shape <;> rfl

theorem Signature.words_eq_sum : ∀ shapes : Signature,
    words shapes = (shapes.map FormalShape.words).sum
  | [] => rfl
  | shape :: others => by
    rw [words, words_eq_sum others, List.map_cons, List.sum_cons]

mutual

/-- Equivalent parameters have the same profile. -/
theorem FormalShape.profile_eq_of_equivalent : ∀ {a b : FormalShape},
    a.equivalent b = true → a.profile = b.profile
  | .const type, b, h => by
    cases b with
    | const type' => exact congrArg Profile.value (TypeDenoter.size_eq_of_equivalent h)
    | _ => cases h
  | .var type, b, h => by
    cases b with
    | var type' => rfl
    | _ => cases h
  | .proc formals, b, h => by
    cases b with
    | proc formals' =>
      exact congrArg (Profile.routine · 0) (Signature.profiles_eq_of_equivalent h)
    | _ => cases h
  | .func formals result, b, h => by
    cases b with
    | func formals' result' =>
      obtain ⟨hformals, hresult⟩ := Bool.and_eq_true_iff.1 h
      rw [FormalShape.profile, FormalShape.profile,
        Signature.profiles_eq_of_equivalent hformals, TypeDenoter.size_eq_of_equivalent hresult]
    | _ => cases h

theorem Signature.profiles_eq_of_equivalent : ∀ {a b : List FormalShape},
    Signature.equivalent a b = true → Signature.profiles a = Signature.profiles b
  | [], [], _ => rfl
  | [], _ :: _, h | _ :: _, [], h => nomatch h
  | formal :: others, formal' :: others', h => by
    obtain ⟨hformal, hothers⟩ := Bool.and_eq_true_iff.1 h
    rw [Signature.profiles, Signature.profiles, formal.profile_eq_of_equivalent hformal,
      Signature.profiles_eq_of_equivalent hothers]

end

/-- The profile of a routine that a name stands for. -/
def BindingKind.profile? : BindingKind → Option Profile
  | .proc formals => some (.routine (Signature.profiles formals) 0)
  | .func formals result => some (.routine (Signature.profiles formals) result.size)
  | .const _ | .var _ | .type _ | .unary .. | .binary .. => none

/-- A parameter that is passed like a routine stands for one. -/
theorem FormalShape.profile?_kind {shape : FormalShape} {parameters : List Profile} {result : Int}
    (h : shape.profile = .routine parameters result) :
    shape.kind.profile? = some shape.profile := by
  cases shape with
  | const | var => cases h
  | proc | func => rfl

/-! ## Lists of parameters -/

/-- The parameters in order. -/
def Formals.list : Formals → List Formal
  | .empty _ => []
  | .one _ first => [first]
  | .more _ first rest => first :: rest.list

theorem Formals.shapes_eq_map (formals : Formals) :
    formals.shapes = formals.list.map Formal.shape := by
  cases formals with
  | empty | one => rfl
  | more _ first rest => exact congrArg (first.shape :: ·) rest.shapes_eq_map

theorem Formals.profiles_shapes (formals : Formals) :
    Signature.profiles formals.shapes = formals.list.map fun formal => formal.shape.profile := by
  rw [Signature.profiles_eq_map, formals.shapes_eq_map, List.map_map]
  rfl

theorem Formals.items_eq_reverse (formals : Formals) :
    formals.items = (formals.list.map Item.parameter).reverse := by
  cases formals with
  | empty | one => rfl
  | more _ first rest =>
    rw [items, rest.items_eq_reverse, list, List.map_cons, List.reverse_cons]

theorem Formals.mem_items {formals : Formals} {formal : Formal} (h : formal ∈ formals.list) :
    .parameter formal ∈ formals.items := by
  rw [formals.items_eq_reverse, List.mem_reverse]
  exact List.mem_map_of_mem h

/-- The arguments in order. -/
def Actuals.list : Actuals → List Actual
  | .empty _ => []
  | .one _ first => [first]
  | .more _ first rest => first :: rest.list

/-- The name of the routine that is passed, if one is. -/
def Actual.routine? : Actual → Option Name
  | .const .. | .var .. => none
  | .proc _ name | .func _ name => some name

variable {Γ : Env} {p p' : Supply}

/-- Each argument is one for its parameter. -/
theorem Actuals.Typed.at {source args : Actuals} {shapes : Signature} :
    ∀ {p p' : Supply}, Actuals.Typed Γ p source shapes args p' →
      args.list.length = shapes.length ∧ ∀ {i : Nat} {actual : Actual},
        args.list[i]? = some actual → ∃ shape, shapes[i]? = some shape ∧
          ∃ source p p', Actual.Typed Γ p source shape actual p'
  | _, _, .empty => ⟨rfl, fun h => by cases h⟩
  | _, _, .one hfirst => by
    refine ⟨rfl, fun {i actual} h => ?_⟩
    cases i with
    | zero =>
      obtain rfl := Option.some.inj h
      exact ⟨_, rfl, _, _, _, hfirst⟩
    | succ i => cases h
  | _, _, .more hfirst hrest => by
    obtain ⟨hlength, hat⟩ := hrest.at
    refine ⟨congrArg (· + 1) hlength, fun {i actual} h => ?_⟩
    cases i with
    | zero =>
      obtain rfl := Option.some.inj h
      exact ⟨_, rfl, _, _, _, hfirst⟩
    | succ i => exact hat h

/-- The name of a routine that is passed stands for a routine with the profile of the
    parameter. -/
theorem Actual.Typed.passes {source actual : Actual} {shape : FormalShape} {name : Name}
    (h : Actual.Typed Γ p source shape actual p') (hpasses : actual.routine? = some name) :
    ∃ spelling id kind, name.binding = some id ∧ Γ.find? spelling = some (id, kind) ∧
      kind.profile? = some shape.profile ∧
      ∃ parameters result, shape.profile = .routine parameters result := by
  cases h with
  | const | var => cases hpasses
  | proc hfind hequivalent =>
    obtain rfl := Option.some.inj hpasses
    refine ⟨_, _, _, rfl, hfind, ?_, _, _, rfl⟩
    rw [BindingKind.profile?, FormalShape.profile, Signature.profiles_eq_of_equivalent hequivalent]
  | func hfind hequivalent hresult =>
    obtain rfl := Option.some.inj hpasses
    refine ⟨_, _, _, rfl, hfind, ?_, _, _, rfl⟩
    rw [BindingKind.profile?, FormalShape.profile, Signature.profiles_eq_of_equivalent hequivalent,
      TypeDenoter.size_eq_of_equivalent hresult]

/-! ## Items -/

namespace Item

/-- The profile of the routine that the name of the item stands for. -/
def profile? : Item → Option Profile
  | .standard declaration _ => declaration.shape.kind.profile?
  | .declared declaration => declaration.introduces.bind fun introduced => introduced.2.profile?
  | .parameter formal => formal.shape.kind.profile?

/-- The parameters of a routine that the item declares. -/
def formals : Item → List Formal
  | .declared (.proc _ _ _ parameters _) => parameters.list
  | .declared (.func _ _ _ parameters _ _) => parameters.list
  | .declared (.const ..) | .declared (.var ..) | .declared (.type ..)
  | .declared (.sequence ..) => []
  | .standard .. | .parameter _ => []

def IsParameter : Item → Prop
  | .parameter _ => True
  | .standard .. | .declared _ => False

variable {item : Item}

theorem profile?_of_entered? {entry : Env.Entry} (h : item.entered? = some entry) :
    item.profile? = entry.2.2.profile? := by
  cases item with
  | standard =>
    obtain rfl := Option.some.inj h
    rfl
  | declared declaration =>
    obtain ⟨name, kind, hmade, -, rfl⟩ := introduced_of_entered? h
    rw [profile?, hmade]
    rfl
  | parameter formal =>
    obtain ⟨_, -, rfl⟩ := Option.map_eq_some_iff.1 h
    rfl

/-- Each parameter has its place in the profile. -/
theorem profile_of_formal {parameters : List Profile} {result : Int} {i : Nat} {formal : Formal}
    (h : item.profile? = some (.routine parameters result)) (hat : item.formals[i]? = some formal) :
    parameters[i]? = some formal.shape.profile := by
  unfold formals at hat
  split at hat
  case h_1 parameters' _ | h_2 parameters' _ _ =>
    have hprofiles : Signature.profiles parameters'.shapes = parameters :=
      (Profile.routine.inj (Option.some.inj h)).1
    rw [← hprofiles, Formals.profiles_shapes, List.getElem?_map, hat]
    rfl
  all_goals cases hat

end Item

/-! ## Names at a visit -/

/-- In the context of the visit the name stands for what the item introduces. -/
structure Visit.Denotes (visit : Visit) (name : Name) (item : Item) : Prop where
  scope   : item ∈ visit.context.items
  binding : ∃ id, name.binding = some id ∧ item.binding? = some id

/-- Something that stands in the environment of a sound visit was introduced by an item. -/
theorem Visit.exists_denoted {visit : Visit} {spelling : String} {name : Name} {id : BindingId}
    {kind : BindingKind} (hentries : visit.context.items.map Item.entered? = Γ.entries.map some)
    (hfind : Γ.find? spelling = some (id, kind)) (hname : name.binding = some id) :
    ∃ item, visit.Denotes name item ∧ item.entered? = some (spelling, id, kind) := by
  have hmem : some (spelling, id, kind) ∈ visit.context.items.map Item.entered? := by
    rw [hentries]
    exact List.mem_map_of_mem (Env.mem_entries_of_find? hfind)
  obtain ⟨item, hitem, hentered⟩ := List.mem_map.1 hmem
  refine ⟨item, ⟨hitem, id, hname, ?_⟩, hentered⟩
  rw [Item.binding?, hentered]
  rfl

/-- A name stands for one item. -/
theorem Visit.Denotes.unique {start visit : Visit} {name : Name} {item item' : Item}
    (h : visit.Denotes name item) (hbinds : start.Binds) (hleads : start.Leads visit)
    (h' : visit.Denotes name item') : item = item' := by
  obtain ⟨id, hname, hid⟩ := h.binding
  obtain ⟨id', hname', hid'⟩ := h'.binding
  obtain rfl := Option.some.inj (hname.symm.trans hname')
  exact hbinds visit visit hleads hleads item h.scope item' h'.scope (hid.trans hid'.symm)

theorem Visit.Denotes.profile?_eq {start visit : Visit} {spelling : String} {name : Name}
    {id : BindingId} {kind : BindingKind} {item : Item} (h : visit.Denotes name item)
    (hbinds : start.Binds) (hleads : start.Leads visit)
    (hentries : visit.context.items.map Item.entered? = Γ.entries.map some)
    (hfind : Γ.find? spelling = some (id, kind)) (hname : name.binding = some id) :
    item.profile? = kind.profile? := by
  obtain ⟨item', hdenotes, hentered⟩ := Visit.exists_denoted hentries hfind hname
  obtain rfl := h.unique hbinds hleads hdenotes
  exact Item.profile?_of_entered? hentered

/-! ## Calls of routines -/

/-- The phrase is a call by the name, and its value has so many words: none, if it is a
    command. -/
inductive Phrase.Calls (callee : Name) (args : Actuals) : Phrase → Int → Prop
  | command {span} : Calls callee args (.command (.call span callee args)) 0
  | expression {span type} :
      Calls callee args (.expression (.call span (some type) callee args)) type.size

/-- A call at a sound visit: the arguments are encoded first, and they are typed by the parameters
    of what the name of the routine stands for. -/
structure Visit.Prepares (made : List TypeDenoter) (π : Plan) (visit : Visit) (callee : Name)
    (args : Actuals) (result : Int) (Γ : Env) (shapes : Signature) (s : Encoder) : Prop where
  entries : visit.context.items.map Item.entered? = Γ.entries.map some
  callee  : ∃ spelling id kind, callee.binding = some id ∧ Γ.find? spelling = some (id, kind) ∧
    kind.profile? = some (.routine (Signature.profiles shapes) result)
  leads   : visit.Leads ⟨visit.context, ⟨.actuals args, visit.call.frame, s⟩⟩
  typed   : ∃ source p p', Actuals.Typed Γ p source shapes args p' ∧
    (Phrase.actuals args).Known made ∧ args.routines ⊆ π.routines ∧
    s.Ready made π Γ (Set.Ico p.bindings p'.bindings)

theorem Visit.leads_part {visit : Visit} (part : Part) {frame : Frame} {s : Encoder}
    (hpart : part ∈ visit.call.phrase.parts) (hmeets : part.meets visit.call.frame)
    (hrun : (part.reach visit.call.frame).exec visit.call.encoder = (.ok frame, s)) :
    visit.Leads ⟨part.opening.context visit.context, ⟨part.phrase, frame, s⟩⟩ :=
  .part .refl hpart hmeets hrun

theorem Visit.Sound.prepares {made : List TypeDenoter} {π : Plan} {visit : Visit}
    (h : visit.Sound made π) {callee : Name} {args : Actuals} {result : Int}
    (hcalls : Phrase.Calls callee args visit.call.phrase result) :
    ∃ Γ shapes s, visit.Prepares made π callee args result Γ shapes s := by
  obtain ⟨context, phrase, frame, s⟩ := visit
  obtain ⟨Γ, hentries, hsound⟩ := h
  cases hcalls with
  | command =>
    obtain ⟨⟨p, p', ⟨⟨source, htyped⟩, hknown, hplan⟩, hready⟩, -⟩ := hsound
    cases htyped with
    | call hfind hargs =>
      refine ⟨Γ, _, s, hentries, ⟨_, _, _, rfl, hfind, rfl⟩, ?_, _, p, p', hargs, hknown, hplan,
        hready⟩
      exact Visit.leads_part (.first (.actuals args)) (List.mem_singleton_self _) trivial rfl
  | @expression span type =>
    obtain ⟨⟨p, p', ⟨⟨source, result, htyped⟩, hknown, hplan⟩, hready⟩, -⟩ := hsound
    cases htyped with
    | call hfind hargs =>
      obtain ⟨⟨_, htype, hresult⟩, hknown⟩ := hknown
      obtain rfl := Option.some.inj htype
      obtain ⟨_, s₁, hrun, hbefore, -⟩ := Encode.sizeOf?_does hresult hready.laid span
      refine ⟨Γ, _, s₁, hentries, ⟨_, _, _, rfl, hfind, rfl⟩, ?_, _, p, p', hargs, hknown, hplan,
        hready.step hbefore⟩
      exact Visit.leads_part ((Part.first (.actuals args)).sized (some type) span)
        (List.mem_singleton_self _) trivial (Encode.exec_bind hrun)

/-! ## Flows -/

/-- The routine may be what is called by the name of the item: it is the routine itself, or it may
    have been passed, at some call of a routine, for the parameter that the item is. -/
inductive Visit.Flows (start : Visit) : Item → Item → Prop
  | self {routine} : ¬ routine.IsParameter → Flows start routine routine
  | passed {visit callee args result target called formal name item routine} {i : Nat}
        {actual : Actual} :
      start.Leads visit →
      Phrase.Calls callee args visit.call.phrase result →
      visit.Denotes callee target →
      Flows start called target →
      called.formals[i]? = some formal →
      args.list[i]? = some actual →
      actual.routine? = some name →
      visit.Denotes name item →
      Flows start routine item →
      Flows start routine (.parameter formal)

/-- Whatever flows to a name is a routine with the profile that the name says. -/
theorem Visit.Flows.profile?_eq {made : List TypeDenoter} {π : Plan} {start : Visit}
    {routine item : Item} (h : start.Flows routine item) (hsound : start.Sound made π)
    (hbinds : start.Binds) : routine.profile? = item.profile? ∧ ¬ routine.IsParameter := by
  induction h with
  | self hno => exact ⟨rfl, hno⟩
  | @passed visit callee args result target called formal name item routine i actual hleads hcalls
      hcallee _ hformal hactual hname hitem _ ih ih' =>
    obtain ⟨Γ, shapes, s, hentries, ⟨_, _, _, hbinding, hfind, hkind⟩, -, source, p, p', htyped,
      -⟩ := (hsound.leads hleads).prepares hcalls
    -- the routine that is called has the parameters that the arguments were typed by
    have hcalled : called.profile? = some (.routine (Signature.profiles shapes) result) := by
      rw [ih.1, hcallee.profile?_eq hbinds hleads hentries hfind hbinding, hkind]
    have hprofile := Item.profile_of_formal hcalled hformal
    obtain ⟨shape, hshape, _, _, _, hpassed⟩ := htyped.at.2 hactual
    rw [Signature.profiles_eq_map, List.getElem?_map, hshape] at hprofile
    have hsame : shape.profile = formal.shape.profile := Option.some.inj hprofile
    -- what is passed has the profile of its parameter
    obtain ⟨_, _, _, hbinding', hfind', hkind', parameters, result', hroutine⟩ :=
      hpassed.passes hname
    have hitem' := hitem.profile?_eq hbinds hleads hentries hfind' hbinding'
    refine ⟨?_, ih'.2⟩
    rw [ih'.1, hitem', hkind', hsame]
    exact (FormalShape.profile?_kind (hsame.symm.trans hroutine)).symm

end TriangleTam
