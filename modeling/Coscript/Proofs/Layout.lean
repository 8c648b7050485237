import Coscript.Proofs.Decoding
import Coscript.Script.Generation

/-!
# Code in place

Where the instructions of a function stand. Generated code is a list of instructions with source
lines; the assembler puts their bytes one after the other and notes the lines by offset, so that the
machine finds each instruction, and its line, at the offset where the widths of the instructions
before it end.

* `Function.Has`: instructions stand at an offset and behind it;
* `Script.functionOfBody_has`: the whole code of a function stands at its beginning.
-/

namespace Coscript

open Script

/-! ### Instructions of a function -/

namespace Function

/-- An instruction stands at an offset, with its source line. -/
structure HasAt (f : Function) (offset : Nat) (e : Emission) : Prop where
  lt : offset < f.code.size
  decode : f.code.decode offset = .ok (e.instruction, offset + e.instruction.width)
  line : f.callLine? offset = e.line?

/-- Instructions stand at an offset, one behind the other. -/
def Has (f : Function) : Nat → Emissions → Prop
  | _, [] => True
  | offset, e :: es => f.HasAt offset e ∧ f.Has (offset + e.instruction.width) es

lemma has_append {f : Function} {offset : Nat} {es es' : Emissions} :
    f.Has offset (es ++ es') ↔ f.Has offset es ∧ f.Has (offset + es.width) es' := by
  induction es generalizing offset with
  | nil => simp [Has, Emissions.width]
  | cons e es ih =>
    rw [List.cons_append, Has, Has, ih, Emissions.width, and_assoc, Nat.add_assoc]

end Function

namespace Script

/-! ### Widths -/

namespace Emissions

@[simp] lemma width_nil : width [] = 0 := rfl

@[simp] lemma width_cons (e : Emission) (es : Emissions) :
    width (e :: es) = e.instruction.width + es.width := rfl

@[simp] lemma width_append (es es' : Emissions) :
    (es ++ es').width = es.width + es'.width := by
  induction es with
  | nil => simp
  | cons e es ih => simp [ih, Nat.add_assoc]

lemma add_width_append (k : Nat) (es es' : Emissions) :
    k + (es ++ es').width = k + es.width + es'.width := by
  rw [width_append, Nat.add_assoc]

@[simp] lemma ofInstructions_nil : ofInstructions [] = [] := rfl

@[simp] lemma ofInstructions_cons (i : Instruction) (is : List Instruction) :
    ofInstructions (i :: is) = ⟨i, none⟩ :: ofInstructions is := rfl

/-- The bytes of some instructions. -/
def bytes (es : Emissions) : List UInt8 := es.flatMap fun e => e.instruction.encode

lemma length_bytes (es : Emissions) : es.bytes.length = es.width := by
  induction es with
  | nil => rfl
  | cons e es ih =>
    rw [bytes, List.flatMap_cons, List.length_append, width_cons, ← ih]
    rfl

/-- All of the instructions can be read back. -/
def Encodable (es : Emissions) : Prop := ∀ e ∈ es, e.instruction.Encodable

/-- The lines that are noted for some instructions. -/
def Noted (lines : OrderedMap Nat Nat) : Nat → Emissions → Prop
  | _, [] => True
  | offset, e :: es =>
    lines.get? offset = e.line? ∧ Noted lines (offset + e.instruction.width) es

/-- What stands in the bytes and is noted is in the function. -/
lemma has_of_at {f : Function} {es : Emissions} {offset : Nat} (he : es.Encodable)
    (hcode : f.code.At offset es.bytes) (hlines : Noted f.callLines offset es) :
    f.Has offset es := by
  induction es generalizing offset with
  | nil => trivial
  | cons e es ih =>
    obtain ⟨hhead, htail⟩ := Code.At.append.mp hcode
    refine ⟨⟨?_, Code.decode_encode (he e (by simp)) hhead, hlines.1⟩,
      ih (fun e' h => he e' (by simp [h])) htail hlines.2⟩
    have hget := hhead.getElem? (k := 0) e.instruction.width_pos
    rw [List.getElem?_eq_getElem e.instruction.width_pos] at hget
    exact (Array.getElem?_eq_some_iff.mp hget).1

end Emissions

/-! ### Assembling -/

/-- Appending instructions keeps what is noted for smaller offsets. -/
lemma get?_assemble {es : Emissions} {a : Assembler} {k : Nat} (hk : k < a.offset) :
    (es.foldl Assembler.append a).callLines.get? k = a.callLines.get? k := by
  induction es generalizing a with
  | nil => rfl
  | cons e es ih =>
    have hoffset : a.offset ≤ (a.append e).offset := by simp [Assembler.offset, Assembler.append]
    rw [List.foldl_cons, ih (Nat.lt_of_lt_of_le hk hoffset)]
    cases hline : e.line? with
    | none => simp [Assembler.append, hline]
    | some line =>
      simp [Assembler.append, hline, OrderedMap.get?_insert, Nat.ne_of_gt hk]

lemma code_assemble (es : Emissions) (a : Assembler) :
    (es.foldl Assembler.append a).code.toList = a.code.toList ++ es.bytes := by
  induction es generalizing a with
  | nil => simp [Emissions.bytes]
  | cons e es ih =>
    rw [List.foldl_cons, ih]
    simp [Assembler.append, Emissions.bytes]

/-- The lines of appended instructions are noted. -/
lemma noted_assemble {es : Emissions} {a : Assembler}
    (hfresh : ∀ k, a.offset ≤ k → a.callLines.get? k = none) :
    Emissions.Noted (es.foldl Assembler.append a).callLines a.offset es := by
  induction es generalizing a with
  | nil => trivial
  | cons e es ih =>
    have hoffset : (a.append e).offset = a.offset + e.instruction.width := by
      simp [Assembler.offset, Assembler.append, Instruction.width]
    have hpos := e.instruction.width_pos
    have hhere : (a.append e).callLines.get? a.offset = e.line? := by
      cases hline : e.line? with
      | none => simp [Assembler.append, hline, hfresh]
      | some line => simp [Assembler.append, hline, OrderedMap.get?_insert]
    have hlater : ∀ k, (a.append e).offset ≤ k → (a.append e).callLines.get? k = none := by
      intro k hk
      have hne : a.offset ≠ k := by omega
      cases hline : e.line? with
      | none => simp [Assembler.append, hline, hfresh k (by omega)]
      | some line =>
        simp [Assembler.append, hline, OrderedMap.get?_insert, hne, hfresh k (by omega)]
    rw [List.foldl_cons]
    refine ⟨?_, ?_⟩
    · rw [get?_assemble (by omega), hhere]
    · rw [← hoffset]
      exact ih hlater

/-- The code of a function with some statements. -/
def bodyCode (body : List Statement) : Emissions :=
  Statement.codeOfAll body 0 ++ .ofInstructions [.pushUndefined, .ret]

variable {name file : String} {parameters : List String} {body : List Statement}

/-- The size of a function is the width of its code. -/
lemma size_functionOfBody :
    (functionOfBody name file parameters body).code.size = (bodyCode body).width := by
  rw [← Emissions.length_bytes, ← Array.length_toList]
  show ((bodyCode body).foldl Assembler.append .empty).code.toList.length = _
  rw [code_assemble]
  rfl

/-- **The whole code of a function stands at its beginning.** -/
theorem functionOfBody_has (he : (bodyCode body).Encodable) :
    (functionOfBody name file parameters body).Has 0 (bodyCode body) := by
  refine Emissions.has_of_at he ?_ (noted_assemble (a := .empty) fun _ _ => rfl)
  show (bodyCode body).bytes <+:
    (((bodyCode body).foldl Assembler.append .empty).code.toList).drop 0
  rw [code_assemble]
  exact List.prefix_refl _

end Script

end Coscript
