import TriangleTam.Proofs.Coding.Arguments
import TriangleTam.Proofs.Coding.Listed
import TriangleTam.Proofs.StackDiscipline
import TriangleTam.Proofs.StorageSeparation

/-! # Agreement of callers and callees

  The sizes of the arguments of a call are found by the encoder as it pushes
  them, from the left to the right. The routine that is called found the places
  of its parameters from the right to the left, and neither has seen the
  other's types. In a text that is accepted they agree all the same, whether a
  routine is called by its own name or by that of a parameter that it was
  passed for.
-/

namespace TriangleTam

variable {made : List TypeDenoter} {π : Plan}

/-! ## Callers -/

/-- The code of the arguments leaves each of them above those before it: from the visit the encoder
    comes to each argument in a frame that has the words of those before it, and on every way
    through its code the stack grows by its size. -/
structure Visit.Hands (visit : Visit) (lines : List Line) (args : Actuals) (sizes : List Int) :
    Prop where
  whole : ∃ s s', visit.Leads ⟨visit.context, ⟨.actuals args, visit.call.frame, s⟩⟩ ∧
    (⟨.actuals args, visit.call.frame, s⟩ : Call).Disciplined lines sizes.sum s'
  count : args.list.length = sizes.length
  each  : ∀ {i : Nat} {actual : Actual}, args.list[i]? = some actual → ∃ n s s',
    sizes[i]? = some n ∧
    visit.Leads ⟨visit.context, ⟨.actual actual, visit.call.frame.more (sizes.take i).sum, s⟩⟩ ∧
    (⟨.actual actual, visit.call.frame.more (sizes.take i).sum, s⟩ : Call).Disciplined lines n s'

/-- Every visit keeps the depth of the stack, if the calls of the start do. -/
theorem Visit.Leads.disciplined {start visit : Visit} (h : start.Leads visit) {lines : List Line}
    (hcalls : ∀ call ∈ start.call.phrase.listed start.call.frame start.call.encoder,
      ∃ words s', call.Disciplined lines words s')
    {words : Int} {s' : Encoder}
    (hrun : (visit.call.phrase.encode visit.call.frame).exec visit.call.encoder =
      (.ok words, s')) : visit.call.Disciplined lines words s' := by
  obtain ⟨words', s'', hdisciplined⟩ := hcalls _ h.mem_listed
  obtain ⟨hwords, rfl⟩ := Prod.mk.inj (hrun.symm.trans hdisciplined.returns)
  obtain rfl := Except.ok.inj hwords
  exact hdisciplined

/-- A call at a sound visit hands over as many words for each argument as its parameter says. -/
theorem Visit.Prepares.hands {start visit : Visit} {callee : Name} {args : Actuals} {result : Int}
    {Γ : Env} {shapes : Signature} {s : Encoder}
    (h : visit.Prepares made π callee args result Γ shapes s) (hsound : start.Sound made π)
    (hleads : start.Leads visit) {lines : List Line}
    (hcalls : ∀ call ∈ start.call.phrase.listed start.call.frame start.call.encoder,
      ∃ words s', call.Disciplined lines words s') :
    visit.Hands lines args (shapes.map FormalShape.words) := by
  obtain ⟨source, p, p', htyped, hknown, hplan, hready⟩ := h.typed
  have hargs := hleads.trans h.leads
  obtain ⟨_, -, -, words, s', hrun, hfinal⟩ := hsound.leads hargs
  have hrun : (Encode.actuals args visit.call.frame).exec s = (.ok words, s') := hrun
  obtain ⟨_, ⟨hwords, -⟩, -⟩ :=
    (htyped.encodes hknown hplan visit.call.frame s hready).ends hrun hfinal
  have hpushes := (htyped.pushes hknown hplan visit.context visit.call.frame s hready).ends hrun
    hfinal
  refine ⟨⟨s, s', h.leads, ?_⟩, hpushes.count, fun hat => ?_⟩
  · rw [← Signature.words_eq_sum, ← hwords]
    exact hargs.disciplined hcalls hrun
  · obtain ⟨n, s₁, s₂, hsize, hactual, hrun'⟩ := hpushes.each hat
    exact ⟨n, s₁, s₂, hsize, h.leads.trans hactual,
      (hargs.trans hactual).disciplined hcalls hrun'⟩

/-! ## Callees -/

/-- A routine that is declared at a level receives arguments of the sizes. Its code goes from
    `entry` to `finish`: control that starts at its entry comes out at its return alone, which
    gives up the words of all arguments and leaves the result. Below the link data each parameter
    has the words of its argument. -/
structure Declaration.Receives (start : Visit) (entities : BindingId → Option Entity)
    (lines : List Line) (declaration : Declaration) (sizes : List Int) (result : Int)
    (level entry finish : Nat) : Prop where
  entity  : ∃ id, (Item.declared declaration).binding? = some id ∧
    entities id = some (.knownRoutine Machine.closureSize ⟨level, entry⟩)
  returns : lines[finish]? = some (.ret result sizes.sum (Machine.linkDataSize + result))
  ends    : ∀ p, Path lines entry finish ⟨entry, Machine.linkDataSize⟩ p →
    (entry ≤ p.address ∧ p.address ≤ finish) ∧
      (p.address = finish → p.depth = Machine.linkDataSize + result)
  count   : (Item.declared declaration).formals.length = sizes.length
  /-- An argument goes where the words of those before it end, and the link data where all of them
      end. -/
  places  : ∀ {i : Nat} {formal : Formal}, (Item.declared declaration).formals[i]? = some formal →
    ∃ n, sizes[i]? = some n ∧ (Item.parameter formal).storage? entities =
      some ⟨level + 1, (sizes.take i).sum - sizes.sum, n⟩
  /-- No word of the arguments is left over, and none belongs to two parameters. -/
  tiles   : ∀ word, -sizes.sum ≤ word → word < 0 →
    ∃! i : Nat, ∃ formal storage, (Item.declared declaration).formals[i]? = some formal ∧
      (Item.parameter formal).storage? entities = some storage ∧ word ∈ storage.range
  /-- The body sees its parameters, and they have these places wherever they are seen. -/
  scope   : ∃ visit, start.Leads visit ∧ visit.call.frame.level = level + 1 ∧
    ∀ formal ∈ (Item.declared declaration).formals, .parameter formal ∈ visit.context.items
  sees    : ∀ visit, start.Leads visit → ∀ formal, .parameter formal ∈ visit.context.items →
    (Item.parameter formal).storage? visit.entities = (Item.parameter formal).storage? entities

/-- The routine receives arguments of the sizes, and leaves a result. A standard routine is a
    primitive, which takes and leaves these words. -/
def Item.Receives (start : Visit) (entities : BindingId → Option Entity) (lines : List Line)
    (sizes : List Int) (result : Int) : Item → Prop
  | .standard declaration _ => ∃ p, declaration.representation = .primitive p ∧
      p.transfer = ⟨sizes.sum, result⟩
  | .declared declaration => ∃ level entry finish,
      declaration.Receives start entities lines sizes result level entry finish
  | .parameter _ => False

/-- Words in a row tile what they take together. -/
theorem existsUnique_take_sum {sizes : List Int} (hsizes : ∀ n ∈ sizes, 0 ≤ n) {offset : Int}
    (hlo : 0 ≤ offset) (hhi : offset < sizes.sum) :
    ∃! i : Nat, ∃ n, sizes[i]? = some n ∧ (sizes.take i).sum ≤ offset ∧
      offset < (sizes.take i).sum + n := by
  induction sizes generalizing offset with
  | nil =>
    rw [List.sum_nil] at hhi
    omega
  | cons size sizes ih =>
    rw [List.sum_cons] at hhi
    have hrest (n : Int) (hmem : n ∈ sizes) : 0 ≤ n := hsizes n (List.mem_cons_of_mem _ hmem)
    have hnonneg (i : Nat) : 0 ≤ (sizes.take i).sum :=
      List.sum_nonneg fun n hmem => hrest n (List.mem_of_mem_take hmem)
    by_cases hfirst : offset < size
    · refine ⟨0, ⟨size, rfl, by simpa using hlo, by simpa using hfirst⟩, ?_⟩
      rintro (_ | i) ⟨n, -, hle, -⟩
      · rfl
      · -- what comes later lies above the first size
        rw [List.take_succ_cons, List.sum_cons] at hle
        have := hnonneg i
        omega
    · obtain ⟨i, ⟨n, hat, hle, hlt⟩, hunique⟩ :=
        ih hrest (show 0 ≤ offset - size by omega) (by omega)
      refine ⟨i + 1, ⟨n, hat, ?_, ?_⟩, ?_⟩
      · rw [List.take_succ_cons, List.sum_cons]
        omega
      · rw [List.take_succ_cons, List.sum_cons]
        omega
      · -- the first size ends at or below the offset
        rintro (_ | j) ⟨m, hat', hle', hlt'⟩
        · obtain rfl := Option.some.inj hat'
          rw [List.take_zero, List.sum_nil] at hlt'
          omega
        · rw [List.take_succ_cons, List.sum_cons] at hle' hlt'
          exact congrArg (· + 1) (hunique j ⟨m, hat', by omega, by omega⟩)

/-- A routine that may be called was in scope somewhere. -/
theorem Visit.Flows.scoped {start : Visit} {routine item : Item} (h : start.Flows routine item)
    (hitem : ∃ visit, start.Leads visit ∧ item ∈ visit.context.items) :
    ∃ visit, start.Leads visit ∧ routine ∈ visit.context.items := by
  induction h with
  | self => exact hitem
  | passed hleads _ _ _ _ _ _ hdenotes _ _ ih => exact ih ⟨_, hleads, hdenotes.scope⟩

/-- A declaration that has the profile of a routine is one. -/
theorem Declaration.exists_routine {declaration : Declaration} {parameters : List Profile}
    {result : Int} (h : (Item.declared declaration).profile? = some (.routine parameters result)) :
    ∃ name formals kind, declaration.routine? = some (name, formals, result) ∧
      declaration.introduces = some (name, kind) ∧
      (Item.declared declaration).formals = formals.list ∧
      parameters = formals.list.map fun formal => formal.shape.profile := by
  cases declaration with
  | proc span duplicated name formals body =>
    obtain ⟨hparameters, rfl⟩ := Profile.routine.inj (Option.some.inj h)
    exact ⟨name, formals, _, rfl, rfl, rfl, hparameters.symm.trans formals.profiles_shapes⟩
  | func span duplicated name formals type body =>
    obtain ⟨hparameters, rfl⟩ := Profile.routine.inj (Option.some.inj h)
    exact ⟨name, formals, _, rfl, rfl, rfl, hparameters.symm.trans formals.profiles_shapes⟩
  | const span duplicated name value =>
    obtain ⟨introduced, hmade, hkind⟩ := Option.bind_eq_some_iff.1 h
    obtain ⟨denoter, -, rfl⟩ := Option.map_eq_some_iff.1 hmade
    cases hkind
  | _ => cases h

theorem Formal.words_profile (formal : Formal) : formal.shape.profile.words = formal.words := by
  cases formal <;> rfl

/-- A routine that is declared receives what its profile says. -/
theorem Visit.Sound.receives {start visit : Visit} (hsound : start.Sound made π)
    (hstart : start.context = .standard) {lines : List Line}
    (hroutines : ∀ routine ∈ π.routines, routine.declared = true → routine.Disciplined π lines)
    (hleads : start.Leads visit) {declaration : Declaration}
    (hmem : .declared declaration ∈ visit.context.items) {parameters : List Profile}
    {result : Int}
    (hprofile : (Item.declared declaration).profile? = some (.routine parameters result)) :
    ∃ level entry finish, declaration.Receives start π.entity lines
      (parameters.map Profile.words) result level entry finish := by
  obtain ⟨name, formals, kind, hroutine, hintroduces, hformals, rfl⟩ :=
    Declaration.exists_routine hprofile
  have hsizes : (formals.list.map fun formal => formal.shape.profile).map Profile.words =
      formals.list.map Formal.words := by
    rw [List.map_map]
    exact List.map_congr_left fun formal _ => formal.words_profile
  rw [hsizes]
  obtain ⟨visit', hleads', hphrase⟩ := hleads.comes_declared hsound hstart hmem
  obtain ⟨⟨id, hname, hplanned, hentity⟩, hplaced, body, hbody, hlevel, hscope⟩ :=
    (hsound.leads hleads').routine hphrase hroutine
  obtain ⟨level, entry, finish, hentity', -, hret, hends⟩ := hroutines _ hplanned rfl
  obtain rfl : visit'.call.frame.level = level := by
    have hsame := Option.some.inj (hentity.symm.trans hentity')
    exact congrArg Address.level (Entity.knownRoutine.inj hsame).2
  have hplaces {i : Nat} {formal : Formal} (hat : formals.list[i]? = some formal) :
      (formals.list.map Formal.words)[i]? = some formal.words ∧
        (Item.parameter formal).storage? π.entity = some ⟨visit'.call.frame.level + 1,
          ((formals.list.map Formal.words).take i).sum - (formals.list.map Formal.words).sum,
          formal.words⟩ := by
    refine ⟨?_, hplaced.storage?_eq hat⟩
    rw [List.getElem?_map, hat]
    rfl
  refine ⟨visit'.call.frame.level, entry, finish, ⟨id, ?_, hentity'⟩, ?_, hends, ?_, ?_, ?_, ?_,
    ?_⟩
  · exact Item.binding?_declared hintroduces hname
  · rw [← formals.words_eq_sum]
    exact hret
  · rw [hformals, List.length_map]
  · intro i formal hat
    rw [hformals] at hat
    exact ⟨formal.words, hplaces hat⟩
  · intro word hlo hhi
    have hnonneg : ∀ n ∈ formals.list.map Formal.words, 0 ≤ n := by
      intro n hmem
      obtain ⟨formal, hformal, rfl⟩ := List.mem_map.1 hmem
      obtain ⟨i, hi, hat⟩ := List.getElem_of_mem hformal
      exact (hplaced.at (List.getElem?_eq_some_iff.2 ⟨hi, hat⟩)).1.words_nonneg
    -- counted from the lowest word instead of the link data
    refine (existsUnique_congr fun i => ?_).2 (existsUnique_take_sum hnonneg
      (show 0 ≤ word + (formals.list.map Formal.words).sum by omega) (by omega))
    rw [hformals]
    constructor
    · rintro ⟨formal, storage, hat, hstorage, hword⟩
      obtain ⟨hsize, hplace⟩ := hplaces hat
      obtain rfl := Option.some.inj (hplace.symm.trans hstorage)
      obtain ⟨hle, hlt⟩ := hword
      exact ⟨formal.words, hsize, by dsimp only at hle; omega, by dsimp only at hlt; omega⟩
    · rintro ⟨n, hsize, hle, hlt⟩
      rw [List.getElem?_map] at hsize
      obtain ⟨formal, hat, rfl⟩ := Option.map_eq_some_iff.1 hsize
      exact ⟨formal, _, hat, (hplaces hat).2, by dsimp only; omega, by dsimp only; omega⟩
  · refine ⟨body, hleads'.trans hbody, hlevel, fun formal hmem => hscope _ ?_⟩
    rw [hformals] at hmem
    exact Formals.mem_items hmem
  · intro visit hleads formal hmem
    exact (hsound.leads hleads).storage?_eq hmem

/-- A standard routine takes and leaves what its profile says. -/
theorem Standard.receives : ∀ declaration ∈ Standard.declarations,
    ∀ {parameters : List Profile} {result : Int},
      declaration.shape.kind.profile? = some (.routine parameters result) →
      ∃ p, declaration.representation = .primitive p ∧
        p.transfer = ⟨(parameters.map Profile.words).sum, result⟩ := by
  intro declaration hmem parameters result hprofile
  fin_cases hmem
  -- types, constants and operators are no routines
  iterate 21 cases hprofile
  all_goals
    obtain ⟨rfl, rfl⟩ := Profile.routine.inj (Option.some.inj hprofile)
    exact ⟨_, rfl, rfl⟩

/-- Whatever may be called receives what the name that it is called by says. -/
theorem Visit.Flows.receives {start visit : Visit} {routine target : Item}
    (h : start.Flows routine target) (hsound : start.Sound made π) (hbinds : start.Binds)
    (hstart : start.context = .standard) {lines : List Line}
    (hroutines : ∀ routine ∈ π.routines, routine.declared = true → routine.Disciplined π lines)
    (hleads : start.Leads visit) (htarget : target ∈ visit.context.items)
    {parameters : List Profile} {result : Int}
    (hprofile : target.profile? = some (.routine parameters result)) :
    routine.Receives start π.entity lines (parameters.map Profile.words) result := by
  obtain ⟨heq, hno⟩ := h.profile?_eq hsound hbinds
  obtain ⟨visit', hleads', hmem⟩ := h.scoped ⟨visit, hleads, htarget⟩
  rw [hprofile] at heq
  cases routine with
  | standard declaration id =>
    exact Standard.receives declaration (hleads'.mem_standard hstart hmem) heq
  | declared declaration => exact hsound.receives hstart hroutines hleads' hmem heq
  | parameter formal => exact absurd trivial hno

/-! ## Accepted texts -/

/-- The lines of an accepted text: its calls and its routines keep the depth of the stack. -/
theorem Compilation.lines {text : String} {options : Options} {object : ObjectProgram}
    {start : Visit} {s' : Encoder} (h : Compilation text options object start s')
    (hsound : start.Sound made (s'.plan start.call.phrase.routines)) :
    ∃ lines, object.instructions.toList = codeOf lines ∧
      (∀ call ∈ start.call.phrase.listed start.call.frame start.call.encoder,
        ∃ words s', call.Disciplined lines words s') ∧
      ∀ routine ∈ start.call.phrase.routines, routine.declared = true →
        routine.Disciplined (s'.plan start.call.phrase.routines) lines := by
  obtain ⟨program, journal, -, rfl⟩ := h.tree
  obtain ⟨Γ, -, ⟨p, p', ⟨⟨source, htyped⟩, hknown, hplan⟩, hready⟩, words, s'', hrun, hfinal⟩ :=
    hsound
  obtain rfl : s' = s'' := congrArg Prod.snd (h.run.symm.trans hrun)
  -- the encoder is a function, so the run that the typing gives is the run of the compilation
  obtain ⟨_, s'', hencoded, -, hyields⟩ := htyped.encodes hknown hplan Frame.initial _ hready
  have hsame : ((Phrase.command _).encode Frame.initial).exec _ = (.ok 0, s'') :=
    Encode.exec_bind hencoded
  obtain rfl : s' = s'' := congrArg Prod.snd (hrun.symm.trans hsame)
  obtain ⟨lines, hcode, hwrote⟩ := hyields hfinal
  have hclosed : Line.Closed 0 lines 0 0 := hcode.closed
  refine ⟨lines ++ [.halt], ?_, ?_, ?_⟩
  · have hstart : s'.emitter.code.toList = codeOf lines := hwrote.code
    rw [h.wrote, hstart, codeOf_append]
    rfl
  · intro call hmem
    exact (hwrote.calls call hmem).disciplined hclosed
  · intro routine hmem hdeclared
    exact (hcode.hold routine hmem hdeclared).disciplined hclosed

/-- In every text that is accepted, callers and callees agree. At a call the name stands for one
    item in scope, and the code of the arguments leaves one after the other, from the left to the
    right, in certain sizes. Any routine that may be called there, be it the one that was declared
    by the name or one that was passed for it along any chain of parameters, receives arguments
    of just these sizes: its code ends with a return that gives up their sum, each parameter lies
    where its argument was pushed, the parameters fill the arguments without gap or overlap, and
    what is left is a result of the size of the call's type, and nothing for a command. -/
theorem compile_calls_agree {text : String} {options : Options} {object : ObjectProgram}
    (h : compile text options = .ok object) :
    ∃ start s' lines, Compilation text options object start s' ∧
      object.instructions.toList = codeOf lines ∧
      ∀ visit callee args result, start.Leads visit →
        Phrase.Calls callee args visit.call.phrase result →
        ∃ target sizes, visit.Denotes callee target ∧ visit.Hands lines args sizes ∧
          ∀ routine, start.Flows routine target →
            routine.Receives start (fun id => s'.entities.lookup id) lines sizes result := by
  obtain ⟨start, s', hcompilation, hbinds, made, hsound⟩ := compile_sound h
  have hstart : start.context = .standard := by
    obtain ⟨program, journal, -, rfl⟩ := hcompilation.tree
    rfl
  obtain ⟨lines, hobject, hcalls, hroutines⟩ := hcompilation.lines hsound
  refine ⟨start, s', lines, hcompilation, hobject, ?_⟩
  intro visit callee args result hleads hphrase
  obtain ⟨Γ, shapes, s, hprepares⟩ := (hsound.leads hleads).prepares hphrase
  obtain ⟨spelling, id, kind, hname, hfind, hkind⟩ := hprepares.callee
  obtain ⟨target, hdenotes, hentered⟩ := Visit.exists_denoted hprepares.entries hfind hname
  refine ⟨target, _, hdenotes, hprepares.hands hsound hleads hcalls, fun routine hflows => ?_⟩
  have hprofile : target.profile? = some (.routine (Signature.profiles shapes) result) :=
    (Item.profile?_of_entered? hentered).trans hkind
  -- along a chain of parameters the profile stays, so the routine is sized as the target is
  have hreceives := hflows.receives hsound hbinds hstart hroutines hleads hdenotes.scope hprofile
  have hsizes : (Signature.profiles shapes).map Profile.words = shapes.map FormalShape.words := by
    rw [Signature.profiles_eq_map, List.map_map]
    exact List.map_congr_left fun shape _ => shape.words_profile
  rwa [hsizes] at hreceives

/-- A text that passes a function on from one routine to another. -/
private def passingText : String :=
  "let func f(func g(n: Char): Integer, c: Char): Integer ~ g(c);
       proc p(var v: Integer, func h(m: Char): Integer) ~ v := f(func h, 'a');
       var w: Integer
   in p(var w, func ord)"

set_option maxRecDepth 2000 in
/-- The text compiles to 19 instructions, whose callers and callees agree. -/
theorem compile_calls_agree_sample :
    ∃ object, compile passingText {} = .ok object ∧ object.instructions.size = 19 ∧
      ∃ start s' lines, Compilation passingText {} object start s' ∧
        object.instructions.toList = codeOf lines ∧
        ∀ visit callee args result, start.Leads visit →
          Phrase.Calls callee args visit.call.phrase result →
          ∃ target sizes, visit.Denotes callee target ∧ visit.Hands lines args sizes ∧
            ∀ routine, start.Flows routine target →
              routine.Receives start (fun id => s'.entities.lookup id) lines sizes result := by
  have hsize : (match compile passingText {} with
    | .ok object => object.instructions.size
    | .error _ => 0) = 19 := by
    have hchars : passingText = String.ofList _ := rfl
    rw [compile, Compiler.parse, Program.parse, Stream.ofText, tokenize_of_chars hchars]
    decide +kernel
  cases hcompile : compile passingText {} with
  | error diagnostics =>
    rw [hcompile] at hsize
    cases hsize
  | ok object =>
    rw [hcompile] at hsize
    exact ⟨object, rfl, hsize, compile_calls_agree hcompile⟩

end TriangleTam
