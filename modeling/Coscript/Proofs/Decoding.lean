import Coscript.Bytecode.Instruction
import Coscript.Proofs.Lexing

/-!
# Reading instructions back

The bytes of an instruction, wherever they stand in some code, are read back as the instruction,
and the next offset is behind them. The texts of the instruction must not hold the character zero,
which ends a text, and a target must fit into 31 bits.

* `Code.decode_encode`: an instruction is read back.
-/

namespace Coscript

/-! ### Texts -/

/-- Characters are below the end of their range. -/
lemma val_lt_of_char (c : Char) : c.val.toNat < 0x110000 := by
  rcases c.valid with h | h
  · exact Nat.lt_trans h (by decide)
  · exact h.2

lemma zero_not_mem_encodeChar {c : Char} (h : c ≠ '\x00') : 0 ∉ String.utf8EncodeChar c := by
  have hpos : c.val.toNat ≠ 0 := by
    intro hzero
    apply h
    ext
    exact hzero
  have hlt := val_lt_of_char c
  fun_cases String.utf8EncodeChar c
  all_goals
    simp only [List.mem_cons, List.not_mem_nil, or_false, not_or, ← UInt8.toNat_inj]
    simp only [UInt8.toNat_ofNat', UInt8.toNat_zero]
    omega

/-- The bytes of a text are those of its characters. -/
lemma Bytes.ofText_eq (s : String) :
    Bytes.ofText s = s.toList.flatMap String.utf8EncodeChar := by
  rw [Bytes.ofText, String.toUTF8, ← String.ofList_toList (s := s), String.toByteArray_ofList,
    List.utf8Encode, String.toList_ofList]
  simp

/-- The bytes of a text without the character zero are not zero. -/
lemma ZeroFree.zero_not_mem {s : String} (h : ZeroFree s) : 0 ∉ Bytes.ofText s := by
  rw [Bytes.ofText_eq, List.mem_flatMap]
  rintro ⟨c, hc, hzero⟩
  exact zero_not_mem_encodeChar (fun he => h (he ▸ hc)) hzero

/-! ### Bytes in place -/

namespace Code

/-- Some bytes stand at an offset. -/
def At (code : Code) (offset : Nat) (bytes : List UInt8) : Prop :=
  bytes <+: code.toList.drop offset

variable {code : Code} {offset : Nat}

lemma At.getElem? {bytes : List UInt8} (h : code.At offset bytes) {k : Nat}
    (hk : k < bytes.length) : code[offset + k]? = bytes[k]? := by
  obtain ⟨rest, hrest⟩ := h
  have := congrArg (fun bs : List UInt8 => bs[k]?) hrest
  simp only [List.getElem?_drop, Array.getElem?_toList] at this
  rw [← this, List.getElem?_append_left hk]

lemma At.head {b : UInt8} {bytes : List UInt8} (h : code.At offset (b :: bytes)) :
    code[offset]? = some b := by
  simpa using h.getElem? (k := 0) (by simp)

lemma At.append {bytes more : List UInt8} :
    code.At offset (bytes ++ more) ↔
      code.At offset bytes ∧ code.At (offset + bytes.length) more := by
  unfold At
  rw [← List.drop_drop]
  constructor
  · rintro ⟨rest, hrest⟩
    rw [← hrest, List.append_assoc]
    exact ⟨List.prefix_append _ _, by simp⟩
  · rintro ⟨⟨rest, hrest⟩, h⟩
    rw [← hrest] at h ⊢
    rw [List.drop_left] at h
    exact (List.prefix_append_right_inj bytes).mpr h

lemma At.tail {b : UInt8} {bytes : List UInt8} (h : code.At offset (b :: bytes)) :
    code.At (offset + 1) bytes :=
  (At.append.mp (show code.At offset ([b] ++ bytes) from h)).2

/-- A number is read back. -/
lemma wordAt?_of_at {n : Nat} (h : code.At offset (Bytes.ofWord n)) :
    code.wordAt? offset = some (n % 0x100000000) := by
  have h₀ := h.head
  have h₁ := h.tail.head
  have h₂ := h.tail.tail.head
  have h₃ := h.tail.tail.tail.head
  simp only [wordAt?, h₀, h₁, h₂, h₃, Option.bind_eq_bind, Option.bind_some]
  exact congrArg some (Bytes.toWord_ofWord n)

/-- The first zero byte is the one behind bytes that are not zero. -/
lemma zeroFrom?_of_at {bytes : List UInt8} (hzero : 0 ∉ bytes)
    (h : code.At offset (bytes ++ [0])) : code.zeroFrom? offset = some (offset + bytes.length) := by
  induction bytes generalizing offset with
  | nil =>
    obtain ⟨hlt, hget⟩ := Array.getElem?_eq_some_iff.mp h.head
    rw [zeroFrom?, dif_pos hlt, if_pos hget]
    rfl
  | cons b bytes ih =>
    rw [List.mem_cons, not_or] at hzero
    obtain ⟨hlt, hget⟩ := Array.getElem?_eq_some_iff.mp h.head
    rw [zeroFrom?, dif_pos hlt, if_neg (by rw [hget]; exact Ne.symm hzero.1), ih hzero.2 h.tail,
      List.length_cons]
    congr 1
    omega

/-- A text is read back. -/
lemma textAt?_of_at {s : String} (hs : ZeroFree s)
    (h : code.At offset (Bytes.ofTerminated s)) :
    code.textAt? offset = some (s, offset + (Bytes.ofTerminated s).length) := by
  have hlast := zeroFrom?_of_at hs.zero_not_mem h
  obtain ⟨rest, hrest⟩ := h
  have htext : (code.extract offset (offset + (Bytes.ofText s).length)).toList = Bytes.ofText s := by
    rw [Array.toList_extract, List.extract_eq_take_drop, ← hrest, Nat.add_sub_cancel_left,
      Bytes.ofTerminated, List.append_assoc, List.take_left]
  simp only [textAt?, hlast, Option.bind_eq_bind, Option.bind_some, htext, Bytes.toText?_ofText]
  simp [Bytes.ofTerminated, Nat.add_assoc]

end Code

/-! ### Instructions -/

namespace Instruction

/-- What can be read back: texts without zero and targets of 31 bits. -/
def Encodable : Instruction → Prop
  | pushString text => ZeroFree text
  | pushReference name => ZeroFree name
  | declare name => ZeroFree name
  | unary symbol => ZeroFree symbol
  | binary symbol => ZeroFree symbol
  | call name _ => ZeroFree name
  | jump _ target => target < 0x80000000
  | _ => True

end Instruction

namespace Code

variable {code : Code} {offset : Nat}

/-- **An instruction is read back.** -/
theorem decode_encode {i : Instruction} (hi : i.Encodable) (h : code.At offset i.encode) :
    code.decode offset = .ok (i, offset + i.width) := by
  cases i with
  | pushInt n =>
    have hword := wordAt?_of_at h.tail
    have hlt : n.toUInt32.toNat < 0x100000000 := n.toUInt32.toNat_lt
    rw [Nat.mod_eq_of_lt hlt] at hword
    have hback : (UInt32.ofNat n.toUInt32.toNat).toInt32 = n := by
      rw [UInt32.ofNat_toNat, Int32.toInt32_toUInt32]
    simp only [decode, h.head, hword, Option.bind_some, hback]
    rfl
  | pushFloat bits =>
    have hword := wordAt?_of_at h.tail
    rw [Nat.mod_eq_of_lt bits.toNat_lt] at hword
    simp [decode, h.head, hword, Instruction.width, Instruction.encode, Bytes.ofWord]
  | jump kind target =>
    have hword := wordAt?_of_at h.tail
    have hlt : target < 0x80000000 := hi
    rw [Nat.mod_eq_of_lt (by omega)] at hword
    cases kind with
    | _ =>
      simp [decode, h.head, hword, hlt, JumpKind.opcode, Instruction.width, Instruction.encode,
        Bytes.ofWord]
  | pushString text =>
    have htext := textAt?_of_at hi h.tail
    simp [decode, h.head, htext, Instruction.width, Instruction.encode, Nat.add_assoc,
      Nat.add_comm]
  | call name arguments =>
    obtain ⟨hname, hcount⟩ := At.append.mp h.tail
    have htext := textAt?_of_at hi hname
    have hnext : offset + 1 + (Bytes.ofTerminated name).length + 1 =
        offset + (Instruction.call name arguments).width := by
      simp only [Instruction.width, Instruction.encode, List.length_cons, List.length_append,
        List.length_nil]
      omega
    simp only [decode, h.head, htext, hcount.head, ← hnext]
    rfl
  | pushReference text | declare text | unary text | binary text =>
    have htext := textAt?_of_at hi h.tail
    simp [decode, h.head, htext, Instruction.width, Instruction.encode, Nat.add_assoc,
      Nat.add_comm]
  | _ => simp [decode, h.head, Instruction.width, Instruction.encode]

end Code

end Coscript
