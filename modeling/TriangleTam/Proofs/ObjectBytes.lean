import TriangleTam.Code.Object
import TriangleTam.Proofs.CodeStore

/-! # Object files read back

  An object file has sixteen bytes for an instruction, and they say all about
  it: read as four words in two's complement, the most significant byte first,
  they are its operation, `r`, `n` and `d`. So there is one program at most for
  a file, and a patch touches the last four bytes of the instruction it
  changes.
-/

namespace TriangleTam

/-! ## Reading -/

/-- The word of four bytes in two's complement, the most significant first. -/
def Word.ofBytes (a b c d : UInt8) : Int :=
  let u := ((a.toNat * 256 + b.toNat) * 256 + c.toNat) * 256 + d.toNat
  if u < 2147483648 then u else u - 4294967296

/-- The words of bytes, of which there have to be four for each. -/
def Word.ofBytes? : List UInt8 → Option (List Int)
  | [] => some []
  | a :: b :: c :: d :: rest => (ofBytes? rest).map (ofBytes a b c d :: ·)
  | [_] | [_, _] | [_, _, _] => none

/-- The operation of a number. -/
def OpCode.ofNumber? (number : Int) : Option OpCode :=
  OpCode.all.find? fun op => op.number = number

/-- The instructions of words, of which there have to be four for each: `op`, `r`, `n` and `d`. -/
def Instruction.ofWords? : List Int → Option (List Instruction)
  | [] => some []
  | op :: r :: n :: d :: rest => do
    let op ← OpCode.ofNumber? op
    let others ← ofWords? rest
    return ⟨op, r, n, d⟩ :: others
  | [_] | [_, _] | [_, _, _] => none

/-- The program of an object file. -/
def ObjectProgram.ofBytes? (bytes : List UInt8) : Option ObjectProgram := do
  let words ← Word.ofBytes? bytes
  let instructions ← Instruction.ofWords? words
  return ⟨instructions.toArray⟩

/-! ## Words -/

/-- The fields of the instruction are words. -/
structure Instruction.Fits (i : Instruction) : Prop where
  r : Word.Fits i.r
  n : Word.Fits i.n
  d : Word.Fits i.d

namespace Instruction

@[simp] theorem length_wordBytes (n : Int) : (wordBytes n).length = 4 := rfl

/-- A number below `2 ^ 32` has its digits to the base 256 in its four bytes. -/
theorem ofBytes_of_lt {u : Nat} (h : u < 4294967296) :
    Word.ofBytes (.ofNat (u / 16777216)) (.ofNat (u / 65536)) (.ofNat (u / 256)) (.ofNat u) =
      if u < 2147483648 then (u : Int) else u - 4294967296 := by
  have hdigits : ((u / 16777216 % 256 * 256 + u / 65536 % 256) * 256 + u / 256 % 256) * 256 +
      u % 256 = u := by
    omega
  simp only [Word.ofBytes, UInt8.toNat_ofNat', hdigits]

/-- The bytes of a word are read as the word, whatever comes behind them. -/
theorem ofBytes?_wordBytes {n : Int} (h : Word.Fits n) (rest : List UInt8) :
    Word.ofBytes? (wordBytes n ++ rest) = (Word.ofBytes? rest).map (n :: ·) := by
  obtain ⟨hleast, hgreatest⟩ := h
  simp only [Word.least, Word.greatest] at hleast hgreatest
  have hlt : (n % 4294967296).toNat < 4294967296 := by omega
  have hword : (if (n % 4294967296).toNat < 2147483648 then ((n % 4294967296).toNat : Int)
      else (n % 4294967296).toNat - 4294967296) = n := by
    split <;> omega
  rw [← ofBytes_of_lt hlt] at hword
  exact congrArg (fun word => (Word.ofBytes? rest).map (word :: ·)) hword

theorem fits_number (op : OpCode) : Word.Fits op.number := by
  cases op <;> decide

theorem ofNumber?_number (op : OpCode) : OpCode.ofNumber? op.number = some op := by
  cases op <;> rfl

/-! ## Instructions -/

@[simp] theorem length_bytes (i : Instruction) : i.bytes.length = 16 := rfl

/-- The fields of an instruction in the order of object code. -/
def words (i : Instruction) : List Int := [i.op.number, i.r, i.n, i.d]

theorem ofBytes?_bytes {i : Instruction} (h : i.Fits) (rest : List UInt8) :
    Word.ofBytes? (i.bytes ++ rest) = (Word.ofBytes? rest).map (i.words ++ ·) := by
  unfold bytes
  simp only [List.append_assoc]
  rw [ofBytes?_wordBytes (fits_number i.op), ofBytes?_wordBytes h.r, ofBytes?_wordBytes h.n,
    ofBytes?_wordBytes h.d]
  simp only [Option.map_map]
  rfl

/-- The bytes of instructions are read as their words. -/
theorem ofBytes?_flatMap_bytes {instructions : List Instruction}
    (h : ∀ i ∈ instructions, i.Fits) :
    Word.ofBytes? (instructions.flatMap bytes) = some (instructions.flatMap words) := by
  induction instructions with
  | nil => rfl
  | cons i others ih =>
    obtain ⟨hi, hothers⟩ := List.forall_mem_cons.1 h
    rw [List.flatMap_cons, ofBytes?_bytes hi, ih hothers]
    rfl

/-- The words of instructions are read as these. -/
theorem ofWords?_flatMap_words (instructions : List Instruction) :
    ofWords? (instructions.flatMap words) = some instructions := by
  induction instructions with
  | nil => rfl
  | cons i others ih =>
    show (OpCode.ofNumber? i.op.number).bind (fun op => (ofWords? (others.flatMap words)).bind
      fun others => some (⟨op, i.r, i.n, i.d⟩ :: others)) = some (i :: others)
    rw [ofNumber?_number, ih]
    rfl

theorem length_flatMap_bytes (instructions : List Instruction) :
    (instructions.flatMap bytes).length = 16 * instructions.length := by
  induction instructions with
  | nil => rfl
  | cons i others ih =>
    rw [List.flatMap_cons, List.length_append, length_bytes, ih, List.length_cons]
    omega

/-- The bytes in front of an instruction, its own, and those behind it. -/
theorem flatMap_bytes_eq {instructions : List Instruction} {k : Nat} {i : Instruction}
    (h : instructions[k]? = some i) :
    instructions.flatMap bytes = (instructions.take k).flatMap bytes ++ (i.bytes ++
      (instructions.drop (k + 1)).flatMap bytes) ∧
    ((instructions.take k).flatMap bytes).length = 16 * k := by
  obtain ⟨hlt, rfl⟩ := List.getElem?_eq_some_iff.1 h
  refine ⟨?_, ?_⟩
  · conv_lhs => rw [← List.take_append_drop k instructions, List.drop_eq_getElem_cons hlt]
    rw [List.flatMap_append, List.flatMap_cons]
  · rw [length_flatMap_bytes, List.length_take, Nat.min_eq_left (Nat.le_of_lt hlt)]

/-- Another displacement changes the last four bytes of its instruction. -/
theorem flatMap_bytes_modify {instructions : List Instruction} {k : Nat}
    (h : k < instructions.length) (d : Int) :
    (instructions.modify k fun i => { i with d }).flatMap bytes =
      (instructions.flatMap bytes).take (16 * k + 12) ++ wordBytes d ++
        (instructions.flatMap bytes).drop (16 * k + 16) := by
  obtain ⟨hbytes, hfront⟩ := flatMap_bytes_eq (List.getElem?_eq_getElem h)
  rw [List.modify_eq_take_cons_drop h, List.flatMap_append, List.flatMap_cons]
  generalize (instructions.take k).flatMap bytes = front at hbytes hfront ⊢
  rw [hbytes, ← hfront, List.take_length_add_append, List.drop_length_add_append,
    List.append_assoc, List.append_assoc]
  rfl

end Instruction

/-! ## Object files -/

namespace ObjectProgram

variable {object : ObjectProgram}

/-- The fields of all instructions are words. -/
def Fits (object : ObjectProgram) : Prop := ∀ i ∈ object.instructions, i.Fits

theorem length_bytes (object : ObjectProgram) : object.bytes.length = 16 * object.size := by
  rw [bytes, Instruction.length_flatMap_bytes]
  rfl

/-- The program is read off its object file. -/
theorem Fits.ofBytes?_bytes (h : object.Fits) : ofBytes? object.bytes = some object := by
  have hwords := Instruction.ofBytes?_flatMap_bytes fun i hmem =>
    h i (Array.mem_toList_iff.1 hmem)
  unfold ofBytes? bytes
  rw [hwords]
  show (Instruction.ofWords? (object.instructions.toList.flatMap Instruction.words)).bind
    (fun instructions => some ⟨instructions.toArray⟩) = some object
  rw [Instruction.ofWords?_flatMap_words]
  rfl

/-- The sixteen bytes of an instruction are read as its words. -/
theorem Fits.ofBytes?_group (h : object.Fits) {k : Nat} {i : Instruction}
    (hat : object.instructions[k]? = some i) :
    Word.ofBytes? ((object.bytes.drop (16 * k)).take 16) = some [i.op.number, i.r, i.n, i.d] := by
  have hmem : i ∈ object.instructions := Array.mem_of_getElem? hat
  rw [← Array.getElem?_toList] at hat
  obtain ⟨hbytes, hfront⟩ := Instruction.flatMap_bytes_eq hat
  have hgroup : (object.bytes.drop (16 * k)).take 16 = i.bytes := by
    rw [bytes, hbytes, List.drop_left' hfront]
    exact List.take_left' i.length_bytes
  rw [hgroup, ← List.append_nil i.bytes, Instruction.ofBytes?_bytes (h i hmem)]
  rfl

end ObjectProgram

/-- The object file of the code so far. -/
def Emitter.bytes (e : Emitter) : List UInt8 := (ObjectProgram.mk e.code).bytes

namespace Emitter

/-- A patch of a stored instruction changes its last four bytes. -/
theorem bytes_patch {e : Emitter} {k : Nat} (h : k < e.code.size) :
    (e.patch k).bytes =
      e.bytes.take (16 * k + 12) ++ Instruction.wordBytes e.next ++ e.bytes.drop (16 * k + 16) := by
  have hcode :
      (e.patch k).code.toList = e.code.toList.modify k fun i => { i with d := e.next } := by
    rw [patch, if_neg (by omega)]
    exact Array.toList_modify
  rw [bytes, ObjectProgram.bytes, hcode]
  exact Instruction.flatMap_bytes_modify h e.next

end Emitter

/-- Object files are read back. A file has sixteen bytes for an instruction, and each group of
    sixteen is the words `op`, `r`, `n` and `d` of its instruction, whatever words these are. So
    reading the file gives back the program, and different programs have different files. A patch
    replaces the last four bytes of the instruction that it changes by the address of the next one,
    and all others stay; a patch of no stored instruction changes no byte. -/
theorem ObjectProgram.read_back {object : ObjectProgram} (h : object.Fits) :
    object.bytes.length = 16 * object.size ∧
    (∀ k i, object.instructions[k]? = some i →
      Word.ofBytes? ((object.bytes.drop (16 * k)).take 16) =
        some [i.op.number, i.r, i.n, i.d]) ∧
    ofBytes? object.bytes = some object ∧
    (∀ other : ObjectProgram, other.Fits → other ≠ object → other.bytes ≠ object.bytes) ∧
    (∀ (e : Emitter) (k : Nat), k < e.code.size →
      (e.patch k).bytes = e.bytes.take (16 * k + 12) ++ Instruction.wordBytes e.next ++
        e.bytes.drop (16 * k + 16)) ∧
    ∀ (e : Emitter) (address : Int), (∀ k : Nat, k < e.code.size → address ≠ k) →
      (e.patch address).bytes = e.bytes := by
  refine ⟨object.length_bytes, fun _ _ => h.ofBytes?_group, h.ofBytes?_bytes,
    fun other hother hne hbytes => hne ?_, fun _ _ => Emitter.bytes_patch,
    fun e address hnone => ?_⟩
  · have hread := hother.ofBytes?_bytes
    rw [hbytes, h.ofBytes?_bytes] at hread
    exact (Option.some.inj hread).symm
  · rw [Emitter.patch_eq_self hnone]

/-- The least and the greatest word in all fields, a word in between, and the last operation. -/
private def extremes : ObjectProgram :=
  ⟨#[⟨.load, Word.least, Word.greatest, Word.least⟩, ⟨.jumpIf, Word.greatest, -1, Word.greatest⟩,
    ⟨.halt, 0, 255, -32768⟩]⟩

/-- The extremes are read back, also from the file of an emitter that has them for its code and
    patches the second. -/
theorem ObjectProgram.read_back_extremes :
    extremes.Fits ∧ ofBytes? extremes.bytes = some extremes ∧
      (({ Emitter.ofJournal .empty with code := extremes.instructions } : Emitter).patch 1).bytes =
        extremes.bytes.take 28 ++ [0, 0, 0, 3] ++ extremes.bytes.drop 32 := by
  have hfits : extremes.Fits := by
    intro i hmem
    simp only [extremes, List.mem_toArray, List.mem_cons, List.not_mem_nil, or_false] at hmem
    rcases hmem with rfl | rfl | rfl <;> exact ⟨by decide, by decide, by decide⟩
  obtain ⟨-, -, hread, -, hpatch, -⟩ := read_back hfits
  refine ⟨hfits, hread, ?_⟩
  exact hpatch { Emitter.ofJournal .empty with code := extremes.instructions } 1 (by decide)

end TriangleTam
