import TriangleTam.Proofs.Recast.Checking
import TriangleTam.Proofs.Recast.Folding
import TriangleTam.Proofs.Recast.Parsing
import TriangleTam.Proofs.RepeatedEncoding

/-! # Renaming programs

  A compilation depends on a text by its tokens alone, and on its identifiers
  by which of them are the same. If the tokens of one text are those of
  another, renamed, then both compile to the same object program, or both are
  rejected for the same reasons. Blanks, comments and line breaks do not
  matter, and neither does whether the table is shown.

  Each pass is followed on the two texts side by side. After parsing there is
  a tree between the two: the one renamed, which is the other, both without
  places.
-/

namespace TriangleTam

/-! ## Layouts -/

/-- The same is on record, and the same was found out of range. What was laid out on the way may
    be spelled in another way. -/
structure LayingOut.Twin (s s' : LayingOut) : Prop where
  layouts    : s'.layouts = s.layouts
  outOfRange : s'.outOfRange = s.outOfRange

namespace LayingOut.Twin

variable {s s' : LayingOut}

theorem meet (h : s.Twin s') (n : Int) : (s.meet n).Twin (s'.meet n) := by
  unfold LayingOut.meet
  split
  · exact h
  · exact ⟨h.layouts, rfl⟩

theorem add (h : s.Twin s') (key : LayoutKey) (type type' : TypeDenoter) :
    (s.add key type).Twin (s'.add key type') :=
  ⟨congrArg (·.insert key) h.layouts, h.outOfRange⟩

/-- What is on record is left alone in both. -/
theorem unlessRecorded (h : s.Twin s') (key : LayoutKey) {t t' : LayingOut} (ht : t.Twin t') :
    (if s.layouts.contains key = true then s else t).Twin
      (if s'.layouts.contains key = true then s' else t') := by
  rw [h.layouts]
  split
  · exact h
  · exact ht

end LayingOut.Twin

mutual

/-- A type recast is laid out like the type, if it has the same serial. -/
theorem TypeDenoter.layOut_recast {f : Recast} (hserial : f.KeepsSerials) :
    ∀ (type : TypeDenoter) {s s' : LayingOut}, s.Twin s' →
      (type.layOut s).Twin ((type.recast f).layOut s')
  | .boolean, s, s', h | .character, s, s', h | .integer, s, s', h => by
    unfold TypeDenoter.layOut
    exact h.unlessRecorded _ (h.add ..)
  | .any, s, s', h | .error, s, s', h | .named .., s, s', h => h
  | .array serial span length element, s, s', h => by
    rw [TypeDenoter.recast, hserial serial]
    unfold TypeDenoter.layOut
    refine h.unlessRecorded _ (.add ?_ _ _ _)
    rw [TypeDenoter.size_recast, IntegerLiteral.value_recast]
    exact (element.layOut_recast hserial h).meet _
  | .record serial span fields, s, s', h => by
    rw [TypeDenoter.recast, hserial serial]
    unfold TypeDenoter.layOut
    exact h.unlessRecorded _ ((fields.layOut_recast hserial 0 h).add ..)

theorem Fields.layOut_recast {f : Recast} (hserial : f.KeepsSerials) :
    ∀ (fields : Fields) (offset : Int) {s s' : LayingOut}, s.Twin s' →
      (fields.layOut offset s).Twin ((fields.recast f).layOut offset s')
  | .one span name type, offset, s, s', h => by
    unfold Fields.recast Fields.layOut
    rw [TypeDenoter.size_recast]
    exact (type.layOut_recast hserial h).meet _
  | .more span name type rest, offset, s, s', h => by
    unfold Fields.recast Fields.layOut
    rw [TypeDenoter.size_recast]
    exact rest.layOut_recast hserial _ ((type.layOut_recast hserial h).meet _)

end

/-- Encoding keeps tallies the same where serials stay as they are. -/
theorem Recast.KeepsSerials.keeps {f : Recast} (hserial : f.KeepsSerials) :
    f.Keeps (fun _ => True) fun t t' => t' = t where
  meet n h := congrArg (·.meet n) h
  layOut {t t' type} _ h := by
    have hstart : LayingOut.Twin { layouts := t.layouts } { layouts := t.layouts } := ⟨rfl, rfl⟩
    obtain ⟨hlayouts, hrange⟩ := type.layOut_recast hserial hstart
    rw [h]
    unfold Tally.layOut
    rw [hlayouts, hrange]

/-! ## Encoding -/

/-- A decorated program and the program recast have the same code, and encoding them reports the
    same restrictions. -/
theorem Program.Typed.encode_recast {program decorated tree : Program}
    (h : program.Typed decorated) {f : Recast} (hserial : f.KeepsSerials)
    (htree : tree.command = decorated.command.recast f) (layouts : Layouts)
    (showTable showTable' : Bool) (journal journal' : Journal) :
    let encoded := decorated.encode layouts.standard showTable journal
    let encoded' := tree.encode layouts.standard showTable' journal'
    encoded'.object = encoded.object ∧
      encoded.journal.Twin journal.diagnostics journal'.diagnostics encoded'.journal := by
  obtain ⟨s, hencoded⟩ := h.encoded (Layouts.fresh_standard layouts) showTable journal
  have hall : decorated.command.All (fun _ => True) fun type => ∀ found ∈ type, True :=
    h.resolved.mono (fun _ _ => trivial) fun _ _ _ _ => trivial
  have hinitial : Encoder.Twin journal.diagnostics journal'.diagnostics (fun t t' => t' = t)
      (.initial layouts.standard showTable journal)
      (.initial layouts.standard showTable' journal') :=
    Encoder.initial_twin (K := fun t t' => t' = t) rfl showTable showTable' journal journal'
  obtain ⟨s', hexec, htwin, -⟩ :=
    Encode.Twins.command hserial.keeps hall (Nat.zero_le _) hencoded.exec hinitial
  rw [← htree] at hexec
  obtain ⟨hobject, -, hdiagnostics⟩ := encode_of_exec hencoded.exec
  obtain ⟨hobject', -, hdiagnostics'⟩ := encode_of_exec hexec
  refine ⟨?_, ?_⟩
  · rw [hobject, hobject', htwin.code_finish]
  · have hrange : s'.outOfRange = s.outOfRange := congrArg Tally.outOfRange htwin.tally
    exact (htwin.journal_finish hrange).logged hdiagnostics hdiagnostics'

/-! ## Compilations -/

/-- The compilations end with the same object program, or with as many diagnostics, each of which
    is of the same kind and has the same template, and is about the token renamed. -/
def Renaming.Agree (ρ : Renaming) :
    Except (Array Diagnostic) ObjectProgram → Except (Array Diagnostic) ObjectProgram → Prop
  | .ok object, .ok object' => object' = object
  | .error diagnostics, .error diagnostics' =>
    List.Forall₂ (Diagnostic.Renamed ρ) diagnostics.toList diagnostics'.toList
  | _, _ => False

namespace Renaming

variable (ρ : Renaming)

theorem keepsSerials_recast : ρ.recast.KeepsSerials := fun _ => rfl

theorem keepsSerials_unplaced : Recast.unplaced.KeepsSerials := fun _ => rfl

/-- Diagnostics that are the same once the first are renamed and all are without places. -/
theorem diagnostics_of_recast {diagnostics diagnostics' : Array Diagnostic}
    (h : diagnostics'.map (Diagnostic.recast .unplaced) =
      diagnostics.map (Diagnostic.recast ρ.recast)) :
    List.Forall₂ (Diagnostic.Renamed ρ) diagnostics.toList diagnostics'.toList := by
  have hlists : diagnostics.toList.map (Diagnostic.recast ρ.recast) =
      diagnostics'.toList.map (Diagnostic.recast .unplaced) := by
    rw [← Array.toList_map, ← Array.toList_map, h]
  have hpairs := List.forall₂_map_right_iff.1 (List.forall₂_map_left_iff.1
    (List.forall₂_eq_eq_eq ▸ hlists :
      List.Forall₂ (· = ·) (diagnostics.toList.map (Diagnostic.recast ρ.recast))
        (diagnostics'.toList.map (Diagnostic.recast .unplaced))))
  refine hpairs.imp fun d d' hsame => ?_
  obtain ⟨hkind, htemplate, htoken, -⟩ := (Diagnostic.mk.injEq ..).mp hsame
  exact ⟨hkind.symm, htemplate.symm, htoken.symm⟩

/-- Restrictions name no token. -/
theorem diagnostics_restrictions (messages : Array String) :
    List.Forall₂ (Diagnostic.Renamed ρ) (messages.map Diagnostic.ofRestriction).toList
      (messages.map Diagnostic.ofRestriction).toList :=
  List.forall₂_same.2 fun d hmem => by
    obtain ⟨message, -, rfl⟩ := Array.mem_map.1 (Array.mem_toList_iff.1 hmem)
    exact ⟨rfl, rfl, ρ.apply_empty.symm⟩

end Renaming

/-- Checking two programs, one of which is the other renamed. -/
theorem Program.check_renamed {ρ : Renaming} {program program' : Program}
    (h : ρ.Relates recast program program') {journal : Journal}
    (hempty : journal.diagnostics = #[]) :
    ρ.Relates recast (program.check journal).program (program'.check journal).program ∧
      (program'.check journal).journal.diagnostics.map (Diagnostic.recast .unplaced) =
        (program.check journal).journal.diagnostics.map (Diagnostic.recast ρ.recast) := by
  have hjournal (f : Recast) : journal.diagnostics = journal.diagnostics.map (.recast f) := by
    rw [hempty, Array.map_empty]
  obtain ⟨hprogram, hdiagnostics⟩ := check_recast ρ.keepsSerials_recast
    (fun _ => ρ.apply_standard) program (hjournal _)
  obtain ⟨hprogram', hdiagnostics'⟩ := check_recast Renaming.keepsSerials_unplaced
    (fun _ _ => rfl) program' (hjournal _)
  rw [h] at hprogram' hdiagnostics'
  exact ⟨hprogram'.symm.trans hprogram, hdiagnostics'.symm.trans hdiagnostics⟩

/-- Folding keeps which program is the other renamed. -/
theorem Program.prepared_renamed {ρ : Renaming} {program program' : Program}
    (h : ρ.Relates recast program program') {options options' : Options}
    (hfolding : options'.folding = options.folding) :
    ρ.Relates recast (program.prepared options) (program'.prepared options') := by
  unfold prepared
  rw [hfolding]
  split
  · have hfolded := fold_recast ρ.recast program .empty .empty
    have hfolded' := fold_recast .unplaced program' .empty .empty
    rw [h] at hfolded'
    exact hfolded'.symm.trans hfolded
  · exact h

/-- Two decorated programs, one of which is the other renamed, have the same code and are reported
    the same restrictions. -/
theorem Program.Typed.encode_renamed {ρ : Renaming} {source source' tree tree' : Program}
    (htyped : source.Typed tree) (htyped' : source'.Typed tree')
    (h : ρ.Relates Program.recast tree tree') (layouts : Layouts) (showTable showTable' : Bool)
    {journal journal' : Journal} (hempty : journal.diagnostics = #[])
    (hempty' : journal'.diagnostics = #[]) :
    let encoded := tree.encode layouts.standard showTable journal
    let encoded' := tree'.encode layouts.standard showTable' journal'
    encoded'.object = encoded.object ∧ ∃ messages : Array String,
      encoded.journal.diagnostics = messages.map .ofRestriction ∧
      encoded'.journal.diagnostics = messages.map .ofRestriction := by
  -- the program between the two is encoded like the one and like the other
  have hmiddle : (tree.recast ρ.recast).command = tree.command.recast ρ.recast := rfl
  have hmiddle' : (tree.recast ρ.recast).command = tree'.command.recast .unplaced :=
    (congrArg Program.command (show tree'.recast .unplaced = tree.recast ρ.recast from h)).symm
  obtain ⟨hobject, messages, hmade, hmiddle⟩ := htyped.encode_recast ρ.keepsSerials_recast
    hmiddle layouts showTable showTable journal .empty
  obtain ⟨hobject', messages', hmade', hmiddle'⟩ := htyped'.encode_recast
    Renaming.keepsSerials_unplaced hmiddle' layouts showTable' showTable journal' .empty
  have hsame : messages'.map Diagnostic.ofRestriction = messages.map .ofRestriction :=
    (Array.append_right_inj _).1 (hmiddle'.symm.trans hmiddle)
  refine ⟨hobject'.symm.trans hobject, messages, ?_, ?_⟩
  · rw [hmade, hempty, Array.empty_append]
  · rw [hmade', hempty', Array.empty_append, hsame]

/-- If the tokens of one text are those of the other, renamed, then compiling the two gives the
    same, whether constants are folded or not, and whether the table is shown for the one or for
    the other. -/
theorem compile_renamed (ρ : Renaming) {text text' : String}
    (h : List.Forall₂ (Token.Renamed ρ) (tokenize text) (tokenize text'))
    (folding showTable showTable' : Bool) :
    ρ.Agree (compile text ⟨folding, showTable⟩) (compile text' ⟨folding, showTable'⟩) := by
  rcases Program.parse_renamed h with ⟨d, d', hparse, hparse', hrenamed⟩ |
    ⟨program, program', hparse, hparse', hprogram⟩
  · rw [compile_of_parse_error hparse, compile_of_parse_error hparse']
    exact .cons hrenamed .nil
  · have hempty : Journal.beforeCheck.diagnostics = #[] := rfl
    obtain ⟨hchecked, hdiagnostics⟩ := Program.check_renamed hprogram hempty
    have hsize : (program'.check .beforeCheck).journal.diagnostics.size =
        (program.check .beforeCheck).journal.diagnostics.size := by
      simpa using congrArg Array.size hdiagnostics
    have hsame : (program'.check .beforeCheck).journal.clean =
        (program.check .beforeCheck).journal.clean := by
      unfold Journal.clean Array.isEmpty
      rw [hsize]
    cases hclean : (program.check .beforeCheck).journal.clean with
    | false =>
      rw [compile_of_check_error hparse hclean,
        compile_of_check_error hparse' (hsame.trans hclean)]
      exact ρ.diagnostics_of_recast hdiagnostics
    | true =>
      obtain ⟨journal, hempty, hcompile⟩ := compile_of_check hparse hclean ⟨folding, showTable⟩
      obtain ⟨journal', hempty', hcompile'⟩ :=
        compile_of_check hparse' (hsame.trans hclean) ⟨folding, showTable'⟩
      have hquiet : (program.check .beforeCheck).journal.diagnostics =
          Journal.beforeCheck.diagnostics := Array.isEmpty_iff.1 hclean
      have hquiet' : (program'.check .beforeCheck).journal.diagnostics =
          Journal.beforeCheck.diagnostics := Array.isEmpty_iff.1 (hsame.trans hclean)
      have htyped := Program.typed_of_check (Program.proper_of_parse hparse) hquiet
      have htyped' := Program.typed_of_check (Program.proper_of_parse hparse') hquiet'
      obtain ⟨source, hsource⟩ := htyped.prepared ⟨folding, showTable⟩
      obtain ⟨source', hsource'⟩ := htyped'.prepared ⟨folding, showTable'⟩
      have htree := Program.prepared_renamed hchecked
        (show (⟨folding, showTable'⟩ : Options).folding =
          (⟨folding, showTable⟩ : Options).folding from rfl)
      obtain ⟨hobject, messages, hmade, hmade'⟩ :=
        hsource.encode_renamed hsource' htree .empty showTable showTable' hempty hempty'
      dsimp only at hcompile hcompile'
      rw [hcompile, hcompile']
      unfold Journal.clean
      rw [hobject, hmade, hmade']
      split
      · exact rfl
      · exact ρ.diagnostics_restrictions messages

/-- The identifiers `x` and `y` change places. -/
private def swapped (word : String) : String :=
  if word = "x" then "y" else if word = "y" then "x" else word

private theorem swapped_swapped (word : String) : swapped (swapped word) = word := by
  unfold swapped
  by_cases hx : word = "x"
  · simp [hx]
  · by_cases hy : word = "y" <;> simp [hx, hy]

private def swap : Renaming where
  map := swapped
  identifier {word} h := by
    unfold swapped
    split
    · decide
    · split
      · decide
      · exact h
  injective {a b} _ _ h := by rw [← swapped_swapped a, h, swapped_swapped]
  standard := by decide

private def sourceText : String := "let var x: Integer in begin x := 1 + 2; putint(x) end"

/-- The same with `y` for `x`, other blanks and a comment. -/
private def renamedText : String :=
  "let ! a variable\n  var y : Integer\nin begin y:=1+2 ; putint ( y ) end"

/-- The two texts compile to one program, with the table shown for one of them. -/
theorem compile_renamed_sample :
    List.Forall₂ (Token.Renamed swap) (tokenize sourceText) (tokenize renamedText) ∧
      ∃ object, compile sourceText ⟨true, true⟩ = .ok object ∧
        compile renamedText ⟨true, false⟩ = .ok object := by
  have htokens : List.Forall₂ (Token.Renamed swap) (tokenize sourceText)
      (tokenize renamedText) := by
    decide +kernel
  have hagree := compile_renamed swap htokens true true false
  have hok : (compile sourceText ⟨true, true⟩).isOk = true := by decide +kernel
  cases hfirst : compile sourceText ⟨true, true⟩ with
  | error diagnostics =>
    rw [hfirst] at hok
    cases hok
  | ok object =>
    cases hsecond : compile renamedText ⟨true, false⟩ with
    | error diagnostics =>
      rw [hfirst, hsecond] at hagree
      exact hagree.elim
    | ok object' =>
      rw [hfirst, hsecond] at hagree
      obtain rfl : object' = object := hagree
      exact ⟨htokens, object', rfl, rfl⟩

end TriangleTam
