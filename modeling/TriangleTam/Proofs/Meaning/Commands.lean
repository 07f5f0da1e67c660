import TriangleTam.Proofs.Meaning.Fuel
import TriangleTam.Proofs.Meaning.Values

/-! # The meaning of code: commands

  Code means the command that it belongs to: if the command ends in the source,
  the machine goes through the code, exchanges the same with the outside, and
  its stack has the variables that the command leaves. Loops go round as often
  as in the source, which is an induction on the fuel that they use up there.
-/

namespace TriangleTam

/-! ## Results -/

namespace Run

variable {α β : Type} {w w' : World}

theorem exists_of_bind_ok {m : Run α} {f : α → Run β} {b : β}
    (h : (m >>= f).exec w = (.ok b, w')) :
    ∃ a w₁, m.exec w = (.ok a, w₁) ∧ (f a).exec w₁ = (.ok b, w') := by
  rw [exec_bind] at h
  cases hm : m.exec w with
  | mk outcome w₁ =>
    rw [hm] at h
    cases outcome with
    | error => cases (Prod.mk.inj h).1
    | ok a => exact ⟨a, w₁, rfl, h⟩

/-- What is lifted leaves the world as it is. -/
theorem of_lift_ok {x : Except Stop α} {a : α} (h : (liftM x : Run α).exec w = (.ok a, w')) :
    x = .ok a ∧ w' = w := by
  cases x with
  | error => cases (Prod.mk.inj h).1
  | ok a' =>
    obtain ⟨ha, rfl⟩ := Prod.mk.inj h
    exact ⟨ha, rfl⟩

theorem of_ask_ok {question : World → Except Stop α} {a : α}
    (h : (ask question).exec w = (.ok a, w')) : question w = .ok a ∧ w' = w := of_lift_ok h

theorem of_change_ok {f : World → Option World} (h : (change f).exec w = (.ok (), w')) :
    f w = some w' := by
  obtain ⟨w₁, w₂, hask, hset⟩ := exists_of_bind_ok h
  obtain ⟨hw₁, rfl⟩ := of_ask_ok hask
  obtain rfl : w₁ = w' := (Prod.mk.inj hset).2
  exact eq_some_of_orFault hw₁

end Run

/-! ## Loops -/

/-- The machine at an address, with the variables of a world on its stack. -/
def World.snapshot (w : World) (σ : Shape) (a : Nat) : Snapshot :=
  .main a (Shape.render σ w.blocks) w.trace

/-- A loop that ends is run through, if its test and its body are. The machine comes to `start`
    before each test, to `enter` if the body follows, and to `leave` if not. -/
theorem Run.iterate_runs {I : Interpretation} {code : List Instruction} {test : Run Bool}
    {body : Run Unit} {σ : Shape} {start enter leave : Nat}
    (htest : ∀ {w holds w'}, Shape.Fits σ w.blocks → test.exec w = (.ok holds, w') →
      w' = w ∧ (w.snapshot σ start).Runs I code (w.snapshot σ (if holds then enter else leave)))
    (hbody : ∀ {w w'}, Shape.Fits σ w.blocks → body.exec w = (.ok (), w') →
      Shape.Fits σ w'.blocks ∧ (w.snapshot σ enter).Runs I code (w'.snapshot σ start))
    {fuel : Nat} {w w' : World} (hfits : Shape.Fits σ w.blocks)
    (h : (iterate test body fuel).exec w = (.ok (), w')) :
    Shape.Fits σ w'.blocks ∧ (w.snapshot σ start).Runs I code (w'.snapshot σ leave) := by
  -- each round takes some fuel and starts in the world that the one before left
  induction fuel generalizing w with
  | zero => cases (Prod.mk.inj h).1
  | succ fuel ih =>
    obtain ⟨holds, w₁, hholds, hrest⟩ := exists_of_bind_ok h
    obtain ⟨rfl, hruns⟩ := htest hfits hholds
    cases holds with
    | false =>
      obtain rfl : w₁ = w' := (Prod.mk.inj hrest).2
      exact ⟨hfits, hruns⟩
    | true =>
      obtain ⟨_, w₂, hperform, hagain⟩ := exists_of_bind_ok hrest
      obtain ⟨hfits₂, hruns₂⟩ := hbody hfits hperform
      obtain ⟨hfits', hruns'⟩ := ih hfits₂ hagain
      exact ⟨hfits', hruns.trans (hruns₂.trans hruns')⟩

/-! ## Commands -/

/-- The code of the command does to the stack what the command does to the world. -/
structure Command.Means (I : Interpretation) (callees : Callees) (π : Plan) (F : Frame) (a : Nat)
    (c : Command) (lines : List Line) : Prop where
  runs : ∀ {code σ scene w w'}, Installed code a (codeOf lines) → scene.Staged π σ F w →
    (c.perform I callees scene).exec w = (.ok (), w') →
    Shape.Fits σ w'.blocks ∧
      (w.snapshot σ a).Runs I code (w'.snapshot σ (a + lines.length))

section

variable {I : Interpretation} {callees : Callees} {π : Plan} {F : Frame} {a : Nat} {span : Span}
  {l l₁ l₂ l₃ : List Line} {n extra : Int} {id : BindingId} {entity : Entity} {access : Access}
  {t : Transfer} {declaration : StandardDeclaration} {depth : Int}

/-- A test leaves its truth value on the stack. -/
theorem Expression.Means.test {condition : Expression}
    (h : condition.Means I callees.apply π F a l 1) {code : List Instruction} {σ : Shape}
    {scene : Scene} {w w' : World} {holds : Bool} (hcode : Installed code a (codeOf l))
    (hstaged : scene.Staged π σ F w)
    (htest : (condition.test I callees scene).exec w = (.ok holds, w')) :
    w' = w ∧ (Snapshot.main a (Shape.render σ w.blocks) w.trace).Runs I code
      (.main (a + l.length) (Shape.render σ w.blocks ++ [some (Machine.truth holds)]) w.trace) := by
  obtain ⟨htest, rfl⟩ := Run.of_ask_ok htest
  obtain ⟨value, hvalue, hholds⟩ := exists_of_bind_ok htest
  obtain rfl := Value.eq_of_truth hholds
  exact ⟨rfl, (h.runs hcode hstaged hvalue).2⟩

/-- A test and a jump on its truth value. -/
theorem Expression.Means.jumps {condition : Expression}
    (h : condition.Means I callees.apply π F a l 1) (b : Bool) {target : Nat}
    {code : List Instruction} {σ : Shape} {scene : Scene} {w w' : World} {holds : Bool}
    {lines : List Line}
    (hcode : Installed code a
      (codeOf (l ++ Line.jumpIf (Machine.truth b) target depth :: lines)))
    (hstaged : scene.Staged π σ F w)
    (htest : (condition.test I callees scene).exec w = (.ok holds, w')) :
    w' = w ∧ (w.snapshot σ a).Runs I code
      (w.snapshot σ (if holds = b then target else a + l.length + 1)) := by
  obtain ⟨rfl, hruns⟩ := h.test hcode.front hstaged htest
  exact ⟨rfl, hruns.trans (.jumpIf b holds hcode.back.first)⟩

namespace Command.Means

theorem empty : (Command.empty span).Means I callees π F a [] := by
  refine ⟨fun hcode hstaged h => ?_⟩
  obtain rfl := (Prod.mk.inj h).2
  exact ⟨hstaged.fits, .refl _⟩

/-- The value lies under the index of the target, which the source finds first. -/
theorem assign (hI : I.Calculates) {target : Vname} {value : Expression}
    (hvalue : value.Means I callees.apply π F a l₁ n)
    (htarget : target.Means I callees.apply π (F.more n) (a + l₁.length) l₂ entity access)
    (hvariable : entity.IsVariable) :
    (Command.assign span target value).Means I callees π F a
      (l₁ ++ (l₂ ++ Line.straight depth (entity.storeCode (F.more n) n access))) := by
  refine ⟨fun {code σ scene w w'} hcode hstaged hperform => ?_⟩
  -- neither the place nor the value changes the world, so their order does not matter
  obtain ⟨place, w₁, hask, hrest⟩ := Run.exists_of_bind_ok hperform
  obtain ⟨hplace, rfl⟩ := Run.of_ask_ok hask
  obtain ⟨words, w₂, hask', hchange⟩ := Run.exists_of_bind_ok hrest
  obtain ⟨hwords, rfl⟩ := Run.of_ask_ok hask'
  have hstore := Run.of_change_ok hchange
  obtain ⟨hn, hruns⟩ := hvalue.runs hcode.front hstaged hwords
  obtain ⟨index, hreached, hruns'⟩ := htarget.runs hcode.back.front (hstaged.push hn) hplace
  rw [Shape.render_push] at hruns'
  obtain ⟨hfits, htrace, hturns⟩ := Entity.storeCode_turns hI (hreached.of_push hvariable)
    hvariable hn hstaged.fits hstore
  unfold World.snapshot
  rw [htrace]
  exact ⟨hfits, hruns.append (hruns'.append (hturns.straight hcode.back.back))⟩

/-- A procedure of the machine finds its arguments on the stack. -/
theorem call (hπ : π.KeepsStandard) {callee : Name} {args : Actuals} {shapes : Signature}
    (hargs : args.Means I callees.apply π F a shapes l t.takes)
    (hbinding : callee.binding = some id) (hat : Standard.declaration? id = some declaration)
    (hkind : declaration.shape.kind = .proc shapes)
    (hperforms : declaration.entity.Performs π id t) :
    (Command.call span callee args).Means I callees π F a
      (l ++ declaration.entity.callLines F t) := by
  refine ⟨fun {code σ scene w w'} hcode hstaged hperform => ?_⟩
  obtain ⟨arguments, w₁, hask, hrest⟩ := Run.exists_of_bind_ok hperform
  obtain ⟨hvalues, rfl⟩ := Run.of_ask_ok hask
  obtain ⟨meaning, w₂, hlift, hchange⟩ := Run.exists_of_bind_ok hrest
  obtain ⟨hmeaning, rfl⟩ := Run.of_lift_ok hlift
  obtain ⟨p, hrep, hp⟩ :=
    Standard.procedure_of_kind declaration (List.mem_of_getElem? hat) hkind
  obtain rfl := hstaged.eq_primitive hπ hat hrep hbinding (eq_some_of_orFault hmeaning)
  obtain ⟨passed, hpassed, hn, hruns⟩ := hargs.runs hcode.front hstaged hvalues
  unfold StandardDeclaration.entity at hcode hperforms ⊢
  rw [hrep] at hcode hperforms ⊢
  cases hperforms
  obtain ⟨hfits, hexecute⟩ := hp.execute hpassed hn hstaged.fits (Run.of_change_ok hchange)
  exact ⟨hfits, hruns.append ((Primitive.callCode_turns hexecute).callLines hcode.back)⟩

theorem sequence {first second : Command} (hfirst : first.Means I callees π F a l₁)
    (hsecond : second.Means I callees π F (a + l₁.length) l₂) :
    (Command.sequence span first second).Means I callees π F a (l₁ ++ l₂) := by
  refine ⟨fun hcode hstaged h => ?_⟩
  obtain ⟨_, w₁, h₁, h₂⟩ := Run.exists_of_bind_ok h
  obtain ⟨hfits, hruns⟩ := hfirst.runs hcode.front hstaged h₁
  obtain ⟨hfits', hruns'⟩ := hsecond.runs hcode.back (hstaged.world hfits) h₂
  exact ⟨hfits', hruns.append hruns'⟩

/-- How a block is performed. -/
theorem of_letIn {declared : Declaration} {body : Command} {scene : Scene} {w w' : World}
    (h : ((Command.letIn span declared body).perform I callees scene).exec w = (.ok (), w')) :
    ∃ scene' w₁ w₂, declared.elaborate I callees.apply scene w = .ok (scene', w₁) ∧
      (body.perform I callees scene').exec w₁ = (.ok (), w₂) ∧
      w' = w₂.release w.blocks.length := by
  obtain ⟨before, w₀, hget, h₀⟩ := Run.exists_of_bind_ok h
  obtain ⟨hbefore, rfl⟩ := Prod.mk.inj hget
  obtain rfl := Except.ok.inj hbefore
  obtain ⟨⟨scene', w₁⟩, w₂, hlift, h₁⟩ := Run.exists_of_bind_ok h₀
  obtain ⟨helaborate, rfl⟩ := Run.of_lift_ok hlift
  obtain ⟨_, w₃, hset, h₂⟩ := Run.exists_of_bind_ok h₁
  obtain rfl : w₁ = w₃ := (Prod.mk.inj hset).2
  obtain ⟨_, w₄, hperform, h₃⟩ := Run.exists_of_bind_ok h₂
  exact ⟨scene', w₁, w₄, helaborate, hperform, (Prod.mk.inj h₃).2.symm⟩

/-- What the declarations left is given up, and the blocks below it are as the body left them. -/
theorem letIn {declared : Declaration} {body : Command}
    (hdeclared : declared.Means I callees.apply π F a l₁ extra)
    (hbody : body.Means I callees π (F.more extra) (a + l₁.length) l₂) :
    (Command.letIn span declared body).Means I callees π F a
      (l₁ ++ (l₂ ++ Line.release depth 0 extra)) := by
  refine ⟨fun {code σ scene w w'} hcode hstaged h => ?_⟩
  obtain ⟨scene', w₁, w₂, helaborate, hperform, rfl⟩ := of_letIn h
  obtain ⟨τ, blocks, hfits, hextra, hblocks, htrace, hstaged', hruns⟩ :=
    hdeclared.runs hcode.front hstaged helaborate
  obtain ⟨hfits', hruns'⟩ := hbody.runs hcode.back.front hstaged' hperform
  -- the body may change words everywhere, but not how many blocks there are
  obtain ⟨front, back, hsplit, hfront, hback⟩ := hfits'.split
  have hrelease : (w₂.release w.blocks.length).blocks = front := by
    unfold World.release
    rw [hsplit, hstaged.fits.length_eq, ← hfront.length_eq, List.take_left]
  unfold World.snapshot
  rw [hrelease]
  refine ⟨hfront, hruns.append (hruns'.append ?_)⟩
  have hturns : Turns I (codeOf (Line.release depth 0 extra))
      (Shape.render σ front ++ Shape.render τ back ++ []) w₂.trace (Shape.render σ front ++ [])
      w₂.trace := .release (by rw [hback.length_render, hextra]) rfl
  rw [List.append_nil, List.append_nil] at hturns
  rw [hsplit, hfront.render_append]
  exact hturns.lines hcode.back.back

theorem ifElse {condition : Expression} {thenBranch elseBranch : Command}
    (hcondition : condition.Means I callees.apply π F a l₁ 1)
    (hthen : thenBranch.Means I callees π F (a + l₁.length + 1) l₂)
    (helse : elseBranch.Means I callees π F (a + l₁.length + 1 + l₂.length + 1) l₃) :
    (Command.ifElse span condition thenBranch elseBranch).Means I callees π F a
      (l₁ ++ Line.jumpIf Machine.falseRep (a + l₁.length + 1 + l₂.length + 1) (F.size + 1) ::
        (l₂ ++ Line.jump (a + l₁.length + 1 + l₂.length + 1 + l₃.length) F.size :: l₃)) := by
  refine ⟨fun {code σ scene w w'} hcode hstaged h => ?_⟩
  obtain ⟨holds, w₁, htest, hbranch⟩ := Run.exists_of_bind_ok h
  have hcode' := hcode.back.rest
  obtain ⟨rfl, -⟩ := hcondition.test hcode.front hstaged htest
  have hfits : Shape.Fits σ w'.blocks := by
    cases holds with
    | true => exact (hthen.runs hcode'.front hstaged hbranch).1
    | false => exact (helse.runs hcode'.back.rest hstaged hbranch).1
  refine ⟨hfits, .branch holds hcode ?_ ?_ ?_⟩
  · exact fun hcode => (hcondition.test hcode hstaged htest).2
  · rintro rfl hcode
    exact (hthen.runs hcode hstaged hbranch).2
  · rintro rfl hcode
    exact (helse.runs hcode hstaged hbranch).2

/-- The machine jumps to the test, and goes back to the body while the test holds. -/
theorem whileDo {condition : Expression} {body : Command}
    (hbody : body.Means I callees π F (a + 1) l₁)
    (hcondition : condition.Means I callees.apply π F (a + 1 + l₁.length) l₂ 1) :
    (Command.whileDo span condition body).Means I callees π F a
      (Line.jump (a + 1 + l₁.length) F.size ::
        (l₁ ++ (l₂ ++ [Line.jumpIf Machine.trueRep (a + 1) (F.size + 1)]))) := by
  refine ⟨fun {code σ scene w w'} hcode hstaged h => ?_⟩
  have hend : a + (Line.jump (a + 1 + l₁.length) F.size ::
      (l₁ ++ (l₂ ++ [Line.jumpIf Machine.trueRep (a + 1) (F.size + 1)]))).length =
        a + 1 + l₁.length + l₂.length + 1 := by
    simp only [List.length_append, List.length_cons, List.length_nil]
    omega
  have htest {w₁ w₂ : World} {holds : Bool} (hfits : Shape.Fits σ w₁.blocks)
      (htest : (condition.test I callees scene).exec w₁ = (.ok holds, w₂)) :=
    hcondition.jumps true hcode.rest.back (hstaged.world hfits) htest
  have hperform {w₁ w₂ : World} (hfits : Shape.Fits σ w₁.blocks)
      (h : (body.perform I callees scene).exec w₁ = (.ok (), w₂)) :=
    hbody.runs hcode.rest.front (hstaged.world hfits) h
  obtain ⟨hfits, hruns⟩ := Run.iterate_runs htest hperform hstaged.fits h
  rw [hend]
  exact ⟨hfits, (Snapshot.Runs.jump hcode.first).trans hruns⟩

/-- The machine goes back to the body until the test holds. -/
theorem repeatUntil {condition : Expression} {body : Command}
    (hbody : body.Means I callees π F a l₁)
    (hcondition : condition.Means I callees.apply π F (a + l₁.length) l₂ 1) :
    (Command.repeatUntil span body condition).Means I callees π F a
      (l₁ ++ (l₂ ++ [Line.jumpIf Machine.falseRep a (F.size + 1)])) := by
  refine ⟨fun {code σ scene w w'} hcode hstaged h => ?_⟩
  have hend : a + (l₁ ++ (l₂ ++ [Line.jumpIf Machine.falseRep a (F.size + 1)])).length =
      a + l₁.length + l₂.length + 1 := by
    simp only [List.length_append, List.length_cons, List.length_nil]
    omega
  have htest {w₁ w₂ : World} {again : Bool} (hfits : Shape.Fits σ w₁.blocks)
      (htest : (do return !(← condition.test I callees scene) : Run Bool).exec w₁ =
        (.ok again, w₂)) :
      w₂ = w₁ ∧ (w₁.snapshot σ (a + l₁.length)).Runs I code
        (w₁.snapshot σ (if again then a else a + l₁.length + l₂.length + 1)) := by
    -- the source goes on while the test fails
    obtain ⟨holds, w₃, hholds, hreturn⟩ := Run.exists_of_bind_ok htest
    obtain ⟨hagain, rfl⟩ := Prod.mk.inj hreturn
    obtain rfl := Except.ok.inj hagain
    obtain ⟨hworld, hruns⟩ := hcondition.jumps false hcode.back (hstaged.world hfits) hholds
    refine ⟨hworld, ?_⟩
    cases holds <;> exact hruns
  have hperform {w₁ w₂ : World} (hfits : Shape.Fits σ w₁.blocks)
      (h : (body.perform I callees scene).exec w₁ = (.ok (), w₂)) :=
    hbody.runs hcode.front (hstaged.world hfits) h
  obtain ⟨_, w₁, hfirst, hloop⟩ := Run.exists_of_bind_ok h
  obtain ⟨hfits₁, hruns₁⟩ := hperform hstaged.fits hfirst
  obtain ⟨hfits, hruns⟩ := Run.iterate_runs htest hperform hfits₁ hloop
  rw [hend]
  exact ⟨hfits, hruns₁.trans hruns⟩

/-- The machine goes round through the body, the test and the tail, and leaves behind the test. -/
theorem loopWhile {condition : Expression} {body tail : Command}
    (hbody : body.Means I callees π F a l₁)
    (hcondition : condition.Means I callees.apply π F (a + l₁.length) l₂ 1)
    (htail : tail.Means I callees π F (a + l₁.length + l₂.length + 1) l₃) :
    (Command.loopWhile span body condition tail).Means I callees π F a
      (l₁ ++ (l₂ ++ Line.jumpIf Machine.falseRep
          (a + l₁.length + l₂.length + 1 + l₃.length + 1) (F.size + 1) ::
        (l₃ ++ [Line.jump a F.size]))) := by
  refine ⟨fun {code σ scene w w'} hcode hstaged h => ?_⟩
  have hend : a + (l₁ ++ (l₂ ++ Line.jumpIf Machine.falseRep
      (a + l₁.length + l₂.length + 1 + l₃.length + 1) (F.size + 1) ::
        (l₃ ++ [Line.jump a F.size]))).length =
      a + l₁.length + l₂.length + 1 + l₃.length + 1 := by
    simp only [List.length_append, List.length_cons, List.length_nil]
    omega
  have hcode' := hcode.back.back.rest
  have htest {w₁ w₂ : World} {holds : Bool} (hfits : Shape.Fits σ w₁.blocks)
      (htest : (condition.test I callees scene).exec w₁ = (.ok holds, w₂)) :
      w₂ = w₁ ∧ (w₁.snapshot σ (a + l₁.length)).Runs I code
        (w₁.snapshot σ (if holds then a + l₁.length + l₂.length + 1
          else a + l₁.length + l₂.length + 1 + l₃.length + 1)) := by
    obtain ⟨hworld, hruns⟩ := hcondition.jumps false hcode.back (hstaged.world hfits) htest
    refine ⟨hworld, ?_⟩
    cases holds <;> exact hruns
  have hperform {w₁ w₂ : World} (hfits : Shape.Fits σ w₁.blocks)
      (h : (body.perform I callees scene).exec w₁ = (.ok (), w₂)) :=
    hbody.runs hcode.front (hstaged.world hfits) h
  -- the source has the tail before the body in its rounds, once the first body is done
  have hround {w₁ w₂ : World} (hfits : Shape.Fits σ w₁.blocks)
      (h : (do tail.perform I callees scene; body.perform I callees scene : Run Unit).exec w₁ =
        (.ok (), w₂)) :
      Shape.Fits σ w₂.blocks ∧ (w₁.snapshot σ (a + l₁.length + l₂.length + 1)).Runs I code
        (w₂.snapshot σ (a + l₁.length)) := by
    obtain ⟨_, w₃, htail', hbody'⟩ := Run.exists_of_bind_ok h
    obtain ⟨hfits₃, hruns₃⟩ := htail.runs hcode'.front (hstaged.world hfits) htail'
    obtain ⟨hfits₂, hruns₂⟩ := hperform hfits₃ hbody'
    exact ⟨hfits₂, hruns₃.trans ((Snapshot.Runs.jump hcode'.back.first).trans hruns₂)⟩
  obtain ⟨_, w₁, hfirst, hloop⟩ := Run.exists_of_bind_ok h
  obtain ⟨hfits₁, hruns₁⟩ := hperform hstaged.fits hfirst
  obtain ⟨hfits, hruns⟩ := Run.iterate_runs htest hround hfits₁ hloop
  rw [hend]
  exact ⟨hfits, hruns₁.trans hruns⟩

end Command.Means

end

end TriangleTam
