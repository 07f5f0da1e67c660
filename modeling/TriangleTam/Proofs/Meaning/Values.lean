import TriangleTam.Proofs.Meaning.Routines
import TriangleTam.Proofs.Typing.Known

/-! # The meaning of code: expressions and declarations

  Code **means** the phrase that it belongs to: if the phrase has a value in
  the source, the machine goes through the code and has pushed this value; if
  a vname stands for a place, the code reaches it; and what declarations
  allocate is on the stack behind their code. The scene of the source is staged
  on the stack all the while.

  There is a lemma for each rule of the code scheme. Lines of code have fixed
  addresses, because of the jumps in them.
-/

namespace TriangleTam

/-! ## Results -/

theorem exists_of_bind_ok {α β : Type} {x : Except Stop α} {f : α → Except Stop β} {b : β}
    (h : x >>= f = .ok b) : ∃ a, x = .ok a ∧ f a = .ok b := by
  cases x with
  | error => cases h
  | ok a => exact ⟨a, rfl, h⟩

theorem eq_some_of_orFault {α : Type} {x : Option α} {a : α} (h : orFault x = .ok a) :
    x = some a := by
  cases x with
  | none => cases h
  | some a' => exact congrArg some (Except.ok.inj h)

theorem Machine.eq_truth {word : Int} {holds : Bool} (h : truth? word = some holds) :
    word = truth holds := by
  unfold truth? at h
  split at h
  · next hword =>
    obtain rfl := Option.some.inj h
    exact hword
  · split at h
    · next hword =>
      obtain rfl := Option.some.inj h
      exact hword
    · cases h

theorem Value.eq_of_truth {value : Value} {holds : Bool} (h : value.truth = .ok holds) :
    value = [some (Machine.truth holds)] := by
  obtain ⟨word, hword, htruth⟩ := Option.bind_eq_some_iff.1 (eq_some_of_orFault h)
  rw [eq_of_word? hword, Machine.eq_truth htruth]

/-- The value of a literal. -/
theorem Expression.eval_of_literalValue? {e : Expression} {word : Int}
    (h : e.literalValue? = some word) (I : Interpretation) (application : Application)
    (scene : Scene) (w : World) : e.eval I application scene w = .ok [some word] := by
  cases e with
  | integer | character =>
    obtain rfl := Option.some.inj h
    rfl
  | _ => cases h

/-! ## Code that means a phrase -/

section

variable (I : Interpretation) (application : Application) (π : Plan) (F : Frame) (a : Nat)

/-- The code pushes the value that an evaluation gives, which has `n` words. -/
structure Pushes (eval : Scene → World → Except Stop Value) (lines : List Line) (n : Int) :
    Prop where
  runs : ∀ {code σ scene w value}, Installed code a (codeOf lines) → scene.Staged π σ F w →
    eval scene w = .ok value →
    (value.length : Int) = n ∧
      (Snapshot.main a (Shape.render σ w.blocks) w.trace).Runs I code
        (.main (a + lines.length) (Shape.render σ w.blocks ++ value) w.trace)

/-- The code of the expression pushes its value. -/
def Expression.Means (e : Expression) (lines : List Line) (n : Int) : Prop :=
  Pushes I π F a (e.eval I application) lines n

def ArrayAggregate.Means (elements : ArrayAggregate) (lines : List Line) (n : Int) : Prop :=
  Pushes I π F a (elements.eval I application) lines n

def RecordAggregate.Means (fields : RecordAggregate) (lines : List Line) (n : Int) : Prop :=
  Pushes I π F a (fields.eval I application) lines n

/-- The code of the vname pushes the index that the place needs. -/
structure Vname.Means (vname : Vname) (lines : List Line) (entity : Entity) (access : Access) :
    Prop where
  runs : ∀ {code σ scene w place}, Installed code a (codeOf lines) → scene.Staged π σ F w →
    vname.locate I application scene w = .ok place →
    ∃ index, place.Reached σ entity access index ∧
      (Snapshot.main a (Shape.render σ w.blocks) w.trace).Runs I code
        (.main (a + lines.length) (Shape.render σ w.blocks ++ access.indexWords index) w.trace)

/-- The code of the declaration leaves what it allocates on the stack, and the scene that it makes
    is staged there. -/
structure Declaration.Means (declaration : Declaration) (lines : List Line) (extra : Int) :
    Prop where
  runs : ∀ {code σ scene w scene' w'}, Installed code a (codeOf lines) → scene.Staged π σ F w →
    declaration.elaborate I application scene w = .ok (scene', w') →
    ∃ τ blocks, Shape.Fits τ blocks ∧ (Shape.size τ : Int) = extra ∧
      w'.blocks = w.blocks ++ blocks ∧ w'.trace = w.trace ∧
      scene'.Staged π (σ ++ τ) (F.more extra) w' ∧
      (Snapshot.main a (Shape.render σ w.blocks) w.trace).Runs I code
        (.main (a + lines.length) (Shape.render (σ ++ τ) w'.blocks) w'.trace)

/-- The code pushes what is passed for the arguments that an evaluation gives. -/
structure Passes (eval : Scene → World → Except Stop (List Meaning)) (shapes : Signature)
    (lines : List Line) (n : Int) : Prop where
  runs : ∀ {code σ scene w arguments}, Installed code a (codeOf lines) → scene.Staged π σ F w →
    eval scene w = .ok arguments →
    ∃ value, Passed σ shapes arguments value ∧ (value.length : Int) = n ∧
      (Snapshot.main a (Shape.render σ w.blocks) w.trace).Runs I code
        (.main (a + lines.length) (Shape.render σ w.blocks ++ value) w.trace)

/-- The code of the argument passes it alone. -/
def Actual.Means (shape : FormalShape) (actual : Actual) (lines : List Line) (n : Int) : Prop :=
  Passes I π F a (fun scene w => do return [← actual.eval I application scene w]) [shape] lines n

def Actuals.Means (shapes : Signature) (args : Actuals) (lines : List Line) (n : Int) : Prop :=
  Passes I π F a (args.eval I application) shapes lines n

end

section

variable {I : Interpretation} {application : Application} {π : Plan} {F : Frame} {a : Nat}
  {span : Span} {l l₁ l₂ l₃ : List Line} {n n₁ n₂ extra : Int} {id : BindingId} {entity : Entity}
  {access : Access} {t : Transfer} {declaration : StandardDeclaration}

/-! ## Expressions -/

namespace Expression.Means

/-- A literal pushes its word. -/
theorem literal {e : Expression} {word depth : Int} (h : e.literalValue? = some word) :
    e.Means I application π F a (Line.straight depth [.plain .loadL 0 word]) 1 := by
  refine ⟨fun hcode hstaged heval => ?_⟩
  rw [e.eval_of_literalValue? h] at heval
  obtain rfl := Except.ok.inj heval
  exact ⟨rfl, Turns.loadL.straight hcode⟩

theorem vname (hI : I.Calculates) {type : TypeDenoter} {found : Vname}
    (hfound : found.Means I application π F a l entity access)
    (hsuits : entity.Suits access type.width) {depth : Int} :
    (Expression.vname span (some type) found).Means I application π F a
      (l ++ Line.straight depth (entity.fetchCode F type.width access)) type.width := by
  refine ⟨fun {code σ scene w value} hcode hstaged heval => ?_⟩
  obtain ⟨place, hplace, heval⟩ := exists_of_bind_ok heval
  have hfetch : w.fetch? place type.width = some value := eq_some_of_orFault heval
  obtain ⟨index, hreached, hruns⟩ := hfound.runs hcode.front hstaged hplace
  obtain ⟨_, -, hslice⟩ := Option.bind_eq_some_iff.1 hfetch
  refine ⟨Value.length_of_slice? hslice, hruns.append (Turns.straight ?_ hcode.back)⟩
  exact Entity.fetchCode_turns hI hreached hsuits hstaged.fits hfetch

theorem ifElse {type : Option TypeDenoter} {condition thenBranch elseBranch : Expression}
    (hcondition : condition.Means I application π F a l₁ 1)
    (hthen : thenBranch.Means I application π F (a + l₁.length + 1) l₂ n)
    (helse : elseBranch.Means I application π F (a + l₁.length + 1 + l₂.length + 1) l₃ n) :
    (Expression.ifElse span type condition thenBranch elseBranch).Means I application π F a
      (l₁ ++ Line.jumpIf Machine.falseRep (a + l₁.length + 1 + l₂.length + 1) (F.size + 1) ::
        (l₂ ++ Line.jump (a + l₁.length + 1 + l₂.length + 1 + l₃.length) (F.size + n) :: l₃))
      n := by
  refine ⟨fun {code σ scene w value} hcode hstaged heval => ?_⟩
  obtain ⟨value', hvalue, heval⟩ := exists_of_bind_ok heval
  obtain ⟨holds, hholds, heval⟩ := exists_of_bind_ok heval
  obtain rfl := Value.eq_of_truth hholds
  have hbranches := hcode.back.rest
  -- the size does not depend on the branch, so it is settled before the branches are run
  have hlength : (value.length : Int) = n := by
    cases holds with
    | true => exact (hthen.runs hbranches.front hstaged heval).1
    | false => exact (helse.runs hbranches.back.rest hstaged heval).1
  refine ⟨hlength, .branch holds hcode ?_ ?_ ?_⟩
  · exact fun hcode => (hcondition.runs hcode hstaged hvalue).2
  · rintro rfl hcode
    exact (hthen.runs hcode hstaged heval).2
  · rintro rfl hcode
    exact (helse.runs hcode hstaged heval).2

/-- What the declarations left is given up under the value. -/
theorem letIn {type : Option TypeDenoter} {declared : Declaration} {body : Expression}
    (hdeclared : declared.Means I application π F a l₁ extra)
    (hbody : body.Means I application π (F.more extra) (a + l₁.length) l₂ n) {depth : Int} :
    (Expression.letIn span type declared body).Means I application π F a
      (l₁ ++ (l₂ ++ Line.release depth n extra)) n := by
  refine ⟨fun {code σ scene w value} hcode hstaged heval => ?_⟩
  obtain ⟨⟨scene', w'⟩, helaborate, heval⟩ := exists_of_bind_ok heval
  obtain ⟨τ, blocks, hfits, hextra, hblocks, htrace, hstaged', hruns⟩ :=
    hdeclared.runs hcode.front hstaged helaborate
  obtain ⟨hlength, hruns'⟩ := hbody.runs hcode.back.front hstaged' heval
  refine ⟨hlength, hruns.append (hruns'.append ?_)⟩
  rw [hblocks, hstaged.fits.render_append, htrace]
  refine Turns.lines (.release ?_ hlength) hcode.back.back
  rw [hfits.length_render, hextra]

theorem unary (hI : I.Calculates) {type : Option TypeDenoter} {operator : Name}
    {operand : Expression} {operandType resultType : TypeDenoter}
    (hoperand : operand.Means I application π F a l t.takes)
    (hbinding : operator.binding = some id) (hat : Standard.declaration? id = some declaration)
    (hkind : declaration.shape.kind = .unary operandType resultType)
    (hperforms : declaration.entity.Performs π id t) :
    (Expression.unary span type operator operand).Means I application π F a
      (l ++ declaration.entity.callLines F t) t.leaves := by
  refine ⟨fun {code σ scene w value} hcode hstaged heval => ?_⟩
  obtain ⟨left, hleft, heval⟩ := exists_of_bind_ok heval
  obtain ⟨-, hruns⟩ := hoperand.runs hcode.front hstaged hleft
  obtain ⟨hlength, hturns⟩ := StandardDeclaration.unary_turns hI hkind hat hbinding hperforms
    (eq_some_of_orFault heval)
  exact ⟨hlength, hruns.append (hturns.callLines hcode.back)⟩

/-- The left operand lies under the code of the right one. -/
theorem binary {type : Option TypeDenoter} {operator : Name} {left right : Expression}
    {leftType rightType resultType : TypeDenoter}
    (hleft : left.Means I application π F a l₁ n₁)
    (hright : right.Means I application π (F.more n₁) (a + l₁.length) l₂ n₂)
    (hbinding : operator.binding = some id) (hat : Standard.declaration? id = some declaration)
    (hkind : declaration.shape.kind = .binary leftType rightType resultType)
    (hperforms : declaration.entity.Performs π id t) (htakes : t.takes = n₁ + n₂) :
    (Expression.binary span type left operator right).Means I application π F a
      (l₁ ++ (l₂ ++ declaration.entity.callLines F t)) t.leaves := by
  refine ⟨fun {code σ scene w value} hcode hstaged heval => ?_⟩
  obtain ⟨leftValue, hleftValue, heval⟩ := exists_of_bind_ok heval
  obtain ⟨rightValue, hrightValue, heval⟩ := exists_of_bind_ok heval
  obtain ⟨hn₁, hruns⟩ := hleft.runs hcode.front hstaged hleftValue
  obtain ⟨hn₂, hruns'⟩ := hright.runs hcode.back.front (hstaged.push hn₁) hrightValue
  rw [Shape.render_push] at hruns'
  obtain ⟨hlength, hturns⟩ := StandardDeclaration.binary_turns hkind hat hbinding hperforms
    (eq_some_of_orFault heval) (by omega)
  exact ⟨hlength, hruns.append (hruns'.append (hturns.callLines hcode.back.back))⟩

/-- A function of the machine finds its arguments on the stack and leaves its value there. -/
theorem call (hπ : π.KeepsStandard) {type : Option TypeDenoter} {callee : Name} {args : Actuals}
    {shapes : Signature} {resultType : TypeDenoter}
    (hargs : args.Means I application π F a shapes l t.takes)
    (hbinding : callee.binding = some id) (hat : Standard.declaration? id = some declaration)
    (hkind : declaration.shape.kind = .func shapes resultType)
    (hperforms : declaration.entity.Performs π id t) :
    (Expression.call span type callee args).Means I application π F a
      (l ++ declaration.entity.callLines F t) t.leaves := by
  refine ⟨fun {code σ scene w value} hcode hstaged heval => ?_⟩
  obtain ⟨arguments, hvalues, heval⟩ := exists_of_bind_ok heval
  obtain ⟨meaning, hmeaning, heval⟩ := exists_of_bind_ok heval
  obtain ⟨p, hrep, hp⟩ :=
    Standard.function_of_kind declaration (List.mem_of_getElem? hat) hkind
  obtain rfl := hstaged.eq_primitive hπ hat hrep hbinding (eq_some_of_orFault hmeaning)
  obtain ⟨passed, hpassed, hn, hruns⟩ := hargs.runs hcode.front hstaged hvalues
  unfold StandardDeclaration.entity at hcode hperforms ⊢
  rw [hrep] at hcode hperforms ⊢
  cases hperforms
  obtain ⟨hlength, hexecute⟩ := hp.execute hpassed hn (eq_some_of_orFault heval)
  exact ⟨hlength, hruns.append ((Primitive.callCode_turns hexecute).callLines hcode.back)⟩

theorem array {type : Option TypeDenoter} {elements : ArrayAggregate}
    (h : elements.Means I application π F a l n) :
    (Expression.array span type elements).Means I application π F a l n := h

theorem record {type : Option TypeDenoter} {fields : RecordAggregate}
    (h : fields.Means I application π F a l n) :
    (Expression.record span type fields).Means I application π F a l n := h

end Expression.Means

/-! ## Aggregates -/

/-- The second value lies above the first one. -/
theorem Pushes.append {first rest : Scene → World → Except Stop Value}
    (hfirst : Pushes I π F a first l₁ n₁)
    (hrest : Pushes I π (F.more n₁) (a + l₁.length) rest l₂ n₂) :
    Pushes I π F a (fun scene w => do return (← first scene w) ++ (← rest scene w)) (l₁ ++ l₂)
      (n₁ + n₂) := by
  refine ⟨fun {code σ scene w value} hcode hstaged heval => ?_⟩
  obtain ⟨value₁, hvalue₁, heval⟩ := exists_of_bind_ok heval
  obtain ⟨value₂, hvalue₂, heval⟩ := exists_of_bind_ok heval
  obtain rfl := Except.ok.inj heval
  obtain ⟨hn₁, hruns⟩ := hfirst.runs hcode.front hstaged hvalue₁
  obtain ⟨hn₂, hruns'⟩ := hrest.runs hcode.back (hstaged.push hn₁) hvalue₂
  rw [Shape.render_push, List.append_assoc] at hruns'
  refine ⟨?_, hruns.append hruns'⟩
  rw [List.length_append]
  omega

theorem ArrayAggregate.Means.one {element : Expression}
    (h : element.Means I application π F a l n) :
    (ArrayAggregate.one span element).Means I application π F a l n := h

theorem ArrayAggregate.Means.more {element : Expression} {rest : ArrayAggregate}
    (helement : element.Means I application π F a l₁ n₁)
    (hrest : rest.Means I application π (F.more n₁) (a + l₁.length) l₂ n₂) :
    (ArrayAggregate.more span element rest).Means I application π F a (l₁ ++ l₂) (n₁ + n₂) :=
  Pushes.append helement hrest

theorem RecordAggregate.Means.one {field : Name} {value : Expression}
    (h : value.Means I application π F a l n) :
    (RecordAggregate.one span field value).Means I application π F a l n := h

theorem RecordAggregate.Means.more {field : Name} {value : Expression} {rest : RecordAggregate}
    (hvalue : value.Means I application π F a l₁ n₁)
    (hrest : rest.Means I application π (F.more n₁) (a + l₁.length) l₂ n₂) :
    (RecordAggregate.more span field value rest).Means I application π F a (l₁ ++ l₂)
      (n₁ + n₂) := Pushes.append hvalue hrest

/-! ## Vnames -/

namespace Vname.Means

theorem simple {type : Option TypeDenoter} {isVariable : Bool} {name : Name}
    (hbinding : name.binding = some id) (hentity : π.entity id = some entity) :
    (Vname.simple span type isVariable name).Means I application π F a [] entity {} := by
  refine ⟨fun {code σ scene w place} hcode hstaged hlocate => ?_⟩
  unfold Vname.locate at hlocate
  split at hlocate
  · next place' hmeaning =>
    obtain rfl := Except.ok.inj hlocate
    unfold Scene.meaning? at hmeaning
    rw [hbinding] at hmeaning
    obtain ⟨entity', hentity', hrepresented⟩ := hstaged.names hmeaning
    obtain rfl := Option.some.inj (hentity.symm.trans hentity')
    cases hrepresented with
    | place hbase =>
      refine ⟨0, ⟨hbase, rfl, fun _ => rfl⟩, ?_⟩
      simp only [Access.indexWords, Bool.false_eq_true, if_false, List.append_nil]
      exact .refl _
  · cases hlocate

/-- A field adds its position to what is known. -/
theorem dot {type : Option TypeDenoter} {isVariable : Bool} {record : Vname} {field : Name}
    {serial : Nat} {recordSpan : Span} {fields : Fields} {position : Int}
    (h : record.Means I application π F a l entity access)
    (htype : record.type = some (.record serial recordSpan fields))
    (hposition : fields.position? field.spelling = some position) :
    (Vname.dot span type isVariable record field).Means I application π F a l entity
      { access with offset := access.offset + position } := by
  refine ⟨fun {code σ scene w place} hcode hstaged hlocate => ?_⟩
  obtain ⟨place', hplace', hlocate⟩ := exists_of_bind_ok hlocate
  simp only [htype, hposition] at hlocate
  obtain rfl := Except.ok.inj hlocate
  obtain ⟨index, ⟨hbase, hoffset, hdirect⟩, hruns⟩ := h.runs hcode hstaged hplace'
  refine ⟨index, ⟨hbase, ?_, hdirect⟩, hruns⟩
  dsimp only
  omega

/-- A subscript that is located is in the bounds of its array. -/
theorem of_subscript {type : Option TypeDenoter} {isVariable : Bool} {array : Vname}
    {index : Expression} {serial : Nat} {arraySpan : Span} {length : IntegerLiteral}
    {element : TypeDenoter} (htype : array.type = some (.array serial arraySpan length element))
    {scene : Scene} {w : World} {place : Place}
    (h : (Vname.subscript span type isVariable array index).locate I application scene w =
      .ok place) :
    ∃ place' i, array.locate I application scene w = .ok place' ∧
      index.eval I application scene w = .ok [some i] ∧
      place = { place' with offset := place'.offset + i * element.width } := by
  obtain ⟨place', hplace', h⟩ := exists_of_bind_ok h
  obtain ⟨value, hvalue, h⟩ := exists_of_bind_ok h
  obtain ⟨i, hi, h⟩ := exists_of_bind_ok h
  simp only [htype] at h
  split at h
  · rw [Value.eq_of_word? (eq_some_of_orFault hi)] at hvalue
    exact ⟨place', i, hplace', hvalue, (Except.ok.inj h).symm⟩
  · cases h

/-- A subscript that is known adds to what is known. -/
theorem known {type : TypeDenoter} {isVariable : Bool} {array : Vname} {index : Expression}
    {value : Int} {serial : Nat} {arraySpan : Span} {length : IntegerLiteral}
    (h : array.Means I application π F a l entity access)
    (htype : array.type = some (.array serial arraySpan length type))
    (hvalue : index.integerValue? = some value) :
    (Vname.subscript span (some type) isVariable array index).Means I application π F a l entity
      { access with offset := access.offset + value * type.width } := by
  refine ⟨fun {code σ scene w place} hcode hstaged hlocate => ?_⟩
  obtain ⟨place', i, hplace', hi, rfl⟩ := of_subscript htype hlocate
  -- the subscript is a literal, which the source evaluates to the value in the code
  rw [index.eval_of_literalValue? (Expression.literalValue?_of_integerValue? hvalue)] at hi
  obtain rfl := Option.some.inj (List.cons.inj (Except.ok.inj hi)).1
  obtain ⟨index, ⟨hbase, hoffset, hdirect⟩, hruns⟩ := h.runs hcode hstaged hplace'
  refine ⟨index, ⟨hbase, ?_, hdirect⟩, hruns⟩
  dsimp only
  omega

/-- A subscript that is not known is added to the index that waits. -/
theorem unknown (hI : I.Calculates) {type : TypeDenoter} {isVariable : Bool} {array : Vname}
    {index : Expression} {serial : Nat} {arraySpan : Span} {length : IntegerLiteral}
    (harray : array.Means I application π F a l₁ entity access)
    (htype : array.type = some (.array serial arraySpan length type))
    (hindex : index.Means I application π (F.more access.pending) (a + l₁.length) l₂ 1)
    {depth : Int} :
    (Vname.subscript span (some type) isVariable array index).Means I application π F a
      (l₁ ++ (l₂ ++ Line.straight depth (scaleCode type.width ++ access.indexCode))) entity
      { access with indexed := true } := by
  refine ⟨fun {code σ scene w place} hcode hstaged hlocate => ?_⟩
  obtain ⟨place', i, hplace', hi, rfl⟩ := of_subscript htype hlocate
  obtain ⟨before, ⟨hbase, hoffset, hdirect⟩, hruns⟩ := harray.runs hcode.front hstaged hplace'
  obtain ⟨-, hruns'⟩ :=
    hindex.runs hcode.back.front (hstaged.push (access.length_indexWords before)) hi
  rw [Shape.render_push] at hruns'
  refine ⟨before + i * type.width, ⟨hbase, ?_, nofun⟩, hruns.append (hruns'.append ?_)⟩
  · dsimp only
    omega
  · exact (scaleCode_turns hI hdirect type.width i).straight hcode.back.back

end Vname.Means

/-! ## Arguments -/

theorem Actual.Means.const {value : Expression} {type : TypeDenoter}
    (h : value.Means I application π F a l n) :
    (Actual.const span value).Means I application π F a (.const type) l n := by
  refine ⟨fun {code σ scene w arguments} hcode hstaged heval => ?_⟩
  obtain ⟨argument, hargument, heval⟩ := exists_of_bind_ok heval
  obtain rfl := Except.ok.inj heval
  obtain ⟨value', hvalue, hargument⟩ := exists_of_bind_ok hargument
  obtain rfl := Except.ok.inj hargument
  obtain ⟨hn, hruns⟩ := h.runs hcode hstaged hvalue
  exact ⟨value', .value, hn, hruns⟩

/-- Where the variable starts and where in it the place is add up to the address. -/
theorem Actual.Means.var (hI : I.Calculates) {found : Vname} {type : TypeDenoter}
    (h : found.Means I application π F a l entity access) (hvariable : entity.IsVariable)
    {depth : Int} :
    (Actual.var span found).Means I application π F a (.var type)
      (l ++ Line.straight depth (entity.addressCode F access)) Machine.addressSize := by
  refine ⟨fun {code σ scene w arguments} hcode hstaged heval => ?_⟩
  obtain ⟨argument, hargument, heval⟩ := exists_of_bind_ok heval
  obtain rfl := Except.ok.inj heval
  obtain ⟨place, hplace, hargument⟩ := exists_of_bind_ok hargument
  obtain rfl := Except.ok.inj hargument
  obtain ⟨index, hreached, hruns⟩ := h.runs hcode.front hstaged hplace
  obtain ⟨address, hlies, hturns⟩ := Entity.addressCode_turns hI hreached hvariable
  exact ⟨_, .address hlies, rfl, hruns.append (hturns.straight hcode.back)⟩

theorem Actuals.Means.empty : (Actuals.empty span).Means I application π F a [] [] 0 := by
  refine ⟨fun hcode hstaged heval => ?_⟩
  obtain rfl := Except.ok.inj heval
  refine ⟨[], .none, rfl, ?_⟩
  rw [List.append_nil]
  exact .refl _

theorem Actuals.Means.one {first : Actual} {shape : FormalShape}
    (h : first.Means I application π F a shape l n) :
    (Actuals.one span first).Means I application π F a [shape] l n := h

/-! ## Declarations -/

namespace Declaration.Means

variable {duplicated : Bool} {name : Name}

/-- A constant that is a literal is not stored. -/
theorem literal {value : Expression} {size known : Int} (hvalue : value.literalValue? = some known)
    (hbinding : name.binding = some id) (hentity : π.entity id = some (.knownValue size known)) :
    (Declaration.const span duplicated name value).Means I application π F a [] 0 := by
  refine ⟨fun {code σ scene w scene' w'} hcode hstaged helaborate => ?_⟩
  obtain ⟨value', heval, helaborate⟩ := exists_of_bind_ok helaborate
  rw [value.eval_of_literalValue? hvalue] at heval
  obtain rfl := Except.ok.inj heval
  simp only [Scene.bind?, hbinding] at helaborate
  obtain ⟨rfl, rfl⟩ := Prod.mk.inj (Except.ok.inj helaborate)
  have hstaged' : scene.Staged π (σ ++ []) (F.more 0) w :=
    hstaged.append .nil (List.append_nil _).symm
  refine ⟨[], [], .nil, rfl, (List.append_nil _).symm, rfl, ?_, ?_⟩
  · exact hstaged'.more hentity (.place .literal)
  · rw [List.append_nil]
    exact .refl _

/-- The value of a constant stays where it was pushed. -/
theorem const {value : Expression} (hvalue : value.Means I application π F a l n)
    (hbinding : name.binding = some id)
    (hentity : π.entity id = some (.unknownValue n F.address)) :
    (Declaration.const span duplicated name value).Means I application π F a l n := by
  refine ⟨fun {code σ scene w scene' w'} hcode hstaged helaborate => ?_⟩
  obtain ⟨value', heval, helaborate⟩ := exists_of_bind_ok helaborate
  simp only [Scene.bind?, hbinding] at helaborate
  obtain ⟨rfl, rfl⟩ := Prod.mk.inj (Except.ok.inj helaborate)
  obtain ⟨hn, hruns⟩ := hvalue.runs hcode hstaged heval
  -- its words start where the frame ended before
  rw [hstaged.size_eq] at hentity
  refine ⟨[.fixed value'], [], .fixed .nil, hn, (List.append_nil _).symm, rfl, ?_, ?_⟩
  · exact (hstaged.push hn).more hentity (.place (.constant (.constant rfl)))
  · rw [Shape.render_push]
    exact hruns

/-- A variable has nothing stored in it yet. -/
theorem var {type : TypeDenoter} {size : Int} (hwidth : 0 ≤ type.width)
    (hbinding : name.binding = some id)
    (hentity : π.entity id = some (.knownAddress size F.address)) {depth : Int} :
    (Declaration.var span duplicated name type).Means I application π F a
      (Line.straight depth [.plain .push 0 type.width]) type.width := by
  refine ⟨fun {code σ scene w scene' w'} hcode hstaged helaborate => ?_⟩
  simp only [Declaration.elaborate, Scene.bind?, hbinding] at helaborate
  obtain ⟨rfl, rfl⟩ := Prod.mk.inj (Except.ok.inj helaborate)
  have hfits : Shape.Fits [.block (List.replicate type.width.toNat (none : Cell)).length]
      [List.replicate type.width.toNat none] := .block .nil
  have hsize : (Shape.size
      [.block (List.replicate type.width.toNat (none : Cell)).length] : Int) = type.width := by
    simp only [Shape.size, Segment.size, List.length_replicate, Nat.add_zero]
    exact Int.toNat_of_nonneg hwidth
  have hstaged' : scene.Staged π _ (F.more (Shape.size _)) (w.allocate type.width) :=
    hstaged.append hfits rfl
  rw [hsize] at hstaged'
  rw [hstaged.size_eq] at hentity
  refine ⟨_, _, hfits, hsize, rfl, rfl, hstaged'.more hentity (.place ?_), ?_⟩
  -- the new block has the number of the blocks before it
  · rw [hstaged.fits.length_eq]
    exact .block (.block rfl)
  · unfold World.allocate
    rw [hstaged.fits.render_append, Shape.render, Shape.render, List.append_nil]
    exact (Turns.push hwidth).straight hcode

theorem type {denoter : TypeDenoter} :
    (Declaration.type span duplicated name denoter).Means I application π F a [] 0 := by
  refine ⟨fun {code σ scene w scene' w'} hcode hstaged helaborate => ?_⟩
  obtain ⟨rfl, rfl⟩ := Prod.mk.inj (Except.ok.inj helaborate)
  refine ⟨[], [], .nil, rfl, (List.append_nil _).symm, rfl,
    hstaged.append .nil (List.append_nil _).symm, ?_⟩
  rw [List.append_nil]
  exact .refl _

theorem sequence {first second : Declaration}
    (hfirst : first.Means I application π F a l₁ n₁)
    (hsecond : second.Means I application π (F.more n₁) (a + l₁.length) l₂ n₂) :
    (Declaration.sequence span first second).Means I application π F a (l₁ ++ l₂) (n₁ + n₂) := by
  refine ⟨fun {code σ scene w scene' w'} hcode hstaged helaborate => ?_⟩
  obtain ⟨⟨scene₁, w₁⟩, helaborate₁, helaborate₂⟩ := exists_of_bind_ok helaborate
  obtain ⟨τ₁, blocks₁, hfits₁, hsize₁, hblocks₁, htrace₁, hstaged₁, hruns₁⟩ :=
    hfirst.runs hcode.front hstaged helaborate₁
  obtain ⟨τ₂, blocks₂, hfits₂, hsize₂, hblocks₂, htrace₂, hstaged₂, hruns₂⟩ :=
    hsecond.runs hcode.back hstaged₁ helaborate₂
  have hsum : (Shape.size (τ₁ ++ τ₂) : Int) = n₁ + n₂ := by
    rw [Shape.size_append, Int.natCast_add, hsize₁, hsize₂]
  have hframe : (F.more n₁).more n₂ = F.more (n₁ + n₂) := by
    simp only [Frame.more, Int.add_assoc]
  rw [List.append_assoc, hframe] at hstaged₂
  rw [List.append_assoc] at hruns₂
  refine ⟨τ₁ ++ τ₂, blocks₁ ++ blocks₂, hfits₁.append hfits₂, hsum, ?_, htrace₂.trans htrace₁,
    hstaged₂, hruns₁.append hruns₂⟩
  rw [hblocks₂, hblocks₁, List.append_assoc]

end Declaration.Means

end

end TriangleTam
