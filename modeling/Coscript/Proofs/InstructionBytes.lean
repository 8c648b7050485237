import Coscript.Bytecode.Assembler
import Coscript.Proofs.Decoding

/-!
# Instructions and their bytes

An instruction can be told from its bytes, wherever they stand and whatever stands behind them, and
no other bytes give the instruction. So what is read at some offset of any code, however the code
came about, are the bytes that the instruction is appended as.

The texts of an instruction must not hold the character zero, and a target must fit into 31 bits.
Whatever is read keeps to this.

* `Code.wordAt?_eq_some_iff`, `Code.textAt?_eq_some_iff`: numbers and texts, and their bytes;
* `Code.decode_eq_ok_iff`: an instruction is read exactly where its bytes stand;
* `Assembler.decode_emit`: what is appended is read back, and what is read is appended as it was.
-/

namespace Coscript

/-! ### Words and texts -/

namespace Bytes

lemma ofWord_toWord (a b c d : UInt8) : ofWord (toWord a b c d) = [a, b, c, d] := by
  have ha := a.toNat_lt
  have hb := b.toNat_lt
  have hc := c.toNat_lt
  have hd := d.toNat_lt
  simp only [ofWord, toWord, List.cons.injEq, ← UInt8.toNat_inj, UInt8.toNat_ofNat', and_true]
  omega

lemma toWord_lt (a b c d : UInt8) : toWord a b c d < 0x100000000 := by
  have ha := a.toNat_lt
  have hb := b.toNat_lt
  have hc := c.toNat_lt
  have hd := d.toNat_lt
  simp only [toWord]
  omega

/-- Bytes are those of the text that they encode. -/
lemma ofText_of_toText? {bytes : List UInt8} {s : String} (h : toText? bytes = some s) :
    ofText s = bytes := by
  unfold toText? String.fromUTF8? at h
  split at h
  · cases h
    rfl
  · cases h

end Bytes

/-- A text whose bytes are not zero is without the character zero. -/
lemma zeroFree_of_zero_not_mem {s : String} (h : 0 ∉ Bytes.ofText s) : ZeroFree s := by
  intro hzero
  refine h ?_
  rw [Bytes.ofText_eq, List.mem_flatMap]
  exact ⟨_, hzero, by decide⟩

namespace Code

variable {code : Code} {offset : Nat} {bytes : List UInt8}

lemma at_nil (code : Code) (offset : Nat) : code.At offset [] := List.nil_prefix

lemma At.cons {b : UInt8} (hb : code[offset]? = some b) (h : code.At (offset + 1) bytes) :
    code.At offset (b :: bytes) := by
  rw [← List.singleton_append, At.append]
  refine ⟨?_, h⟩
  obtain ⟨hlt, hget⟩ := Array.getElem?_eq_some_iff.mp hb
  have hdrop : code.toList.drop offset = b :: code.toList.drop (offset + 1) := by
    rw [List.drop_eq_getElem_cons (by simpa using hlt), Array.getElem_toList, hget]
  exact ⟨_, hdrop.symm⟩

/-- Bytes that stand in some code end in it. -/
lemma At.le (h : code.At offset bytes) (hne : bytes ≠ []) : offset + bytes.length ≤ code.size := by
  have hle := List.IsPrefix.length_le h
  have hpos := List.length_pos_of_ne_nil hne
  have hsize : code.toList.length = code.size := Array.length_toList
  rw [List.length_drop, hsize] at hle
  omega

/-- The bytes between their first offset and the one behind them. -/
lemma At.extract (h : code.At offset bytes) :
    (code.extract offset (offset + bytes.length)).toList = bytes := by
  obtain ⟨rest, hrest⟩ := h
  rw [Array.toList_extract, List.extract_eq_take_drop, ← hrest, Nat.add_sub_cancel_left,
    List.take_left]

/-- **A number is read where its bytes stand.** -/
theorem wordAt?_eq_some_iff {n : Nat} :
    code.wordAt? offset = some n ↔ n < 0x100000000 ∧ code.At offset (Bytes.ofWord n) := by
  constructor
  · intro h
    simp only [wordAt?, Option.bind_eq_bind, Option.bind_eq_some_iff] at h
    obtain ⟨a, ha, b, hb, c, hc, d, hd, h⟩ := h
    cases h
    refine ⟨Bytes.toWord_lt a b c d, ?_⟩
    rw [Bytes.ofWord_toWord]
    exact .cons ha (.cons hb (.cons hc (.cons hd (at_nil _ _))))
  · rintro ⟨hlt, h⟩
    rw [wordAt?_of_at h, Nat.mod_eq_of_lt hlt]

/-- The first zero byte, and the bytes before it. -/
lemma zeroFrom?_spec {last : Nat} (h : code.zeroFrom? offset = some last) :
    ∃ bytes, 0 ∉ bytes ∧ last = offset + bytes.length ∧ code.At offset (bytes ++ [0]) := by
  fun_induction zeroFrom? code offset with
  | case1 offset hlt hzero =>
    cases h
    refine ⟨[], List.not_mem_nil, rfl, .cons ?_ (at_nil _ _)⟩
    rw [Array.getElem?_eq_getElem hlt, hzero]
  | case2 offset hlt hne ih =>
    obtain ⟨bytes, hbytes, rfl, hat⟩ := ih h
    refine ⟨code[offset] :: bytes, ?_, ?_, .cons (Array.getElem?_eq_getElem hlt) hat⟩
    · rw [List.mem_cons, not_or]
      exact ⟨Ne.symm hne, hbytes⟩
    · rw [List.length_cons]
      omega
  | case3 => cases h

/-- **A text is read where its bytes stand.** -/
theorem textAt?_eq_some_iff {s : String} {next : Nat} :
    code.textAt? offset = some (s, next) ↔ ZeroFree s ∧ code.At offset (Bytes.ofTerminated s) ∧
      next = offset + (Bytes.ofTerminated s).length := by
  constructor
  · intro h
    simp only [textAt?, Option.bind_eq_bind, Option.bind_eq_some_iff] at h
    obtain ⟨last, hlast, text, htext, h⟩ := h
    cases h
    obtain ⟨bytes, hbytes, rfl, hat⟩ := zeroFrom?_spec hlast
    rw [(At.append.mp hat).1.extract] at htext
    obtain rfl := Bytes.ofText_of_toText? htext
    refine ⟨zeroFree_of_zero_not_mem hbytes, hat, ?_⟩
    rw [Bytes.ofTerminated, List.length_append, List.length_singleton, Nat.add_assoc]
  · rintro ⟨hs, h, rfl⟩
    exact textAt?_of_at hs h

/-! ### Instructions -/

variable {next : Nat} {i : Instruction} {opcode : UInt8}

/-- An instruction that can be appended stands at an offset with its bytes, and another offset is
the one behind them. -/
def Reads (code : Code) (offset : Nat) (i : Instruction) (next : Nat) : Prop :=
  i.Encodable ∧ code.At offset i.encode ∧ next = offset + i.width

/-- What an operation with a number as its operand is read from. -/
lemma word_operand {make : Nat → Option Instruction} (hop : code[offset]? = some opcode)
    (h : (match (code.wordAt? (offset + 1)).bind make with
      | some i => Except.ok (i, offset + 1 + 4)
      | none => .error (CodeFault.truncated (offset + 1))) = .ok (i, next)) :
    ∃ n, n < 0x100000000 ∧ make n = some i ∧ code.At offset (opcode :: Bytes.ofWord n) ∧
      next = offset + 5 := by
  split at h
  · next j hj =>
    cases h
    obtain ⟨n, hn, hmake⟩ := Option.bind_eq_some_iff.mp hj
    obtain ⟨hlt, hat⟩ := wordAt?_eq_some_iff.mp hn
    exact ⟨n, hlt, hmake, .cons hop hat, rfl⟩
  · cases h

/-- What an operation with a text as its operand is read from. -/
lemma text_operand {make : String → Instruction} (hop : code[offset]? = some opcode)
    (h : (match code.textAt? (offset + 1) with
      | some (s, next) => Except.ok (make s, next)
      | none => .error (CodeFault.truncated (offset + 1))) = .ok (i, next)) :
    ∃ s, i = make s ∧ ZeroFree s ∧ code.At offset (opcode :: Bytes.ofTerminated s) ∧
      next = offset + (opcode :: Bytes.ofTerminated s).length := by
  split at h
  · next s n hs =>
    cases h
    obtain ⟨hfree, hat, rfl⟩ := textAt?_eq_some_iff.mp hs
    refine ⟨s, rfl, hfree, .cons hop hat, ?_⟩
    rw [List.length_cons]
    omega
  · cases h

/-- What a jump is read from. -/
lemma jump_operand (kind : JumpKind) (hop : code[offset]? = some kind.opcode)
    (h : (match (code.wordAt? (offset + 1)).bind
        fun n => if n < 0x80000000 then some (Instruction.jump kind n) else none with
      | some i => Except.ok (i, offset + 1 + 4)
      | none => .error (CodeFault.truncated (offset + 1))) = .ok (i, next)) :
    code.Reads offset i next := by
  obtain ⟨n, -, hmake, hat, rfl⟩ := word_operand hop h
  split at hmake
  · next hlt =>
    cases hmake
    exact ⟨hlt, hat, rfl⟩
  · cases hmake

/-- What a call is read from. -/
lemma reads_call {name : String} {arguments : UInt8} (hop : code[offset]? = some 15)
    (hname : code.textAt? (offset + 1) = some (name, next))
    (hcount : code[next]? = some arguments) :
    code.Reads offset (.call name arguments) (next + 1) := by
  obtain ⟨hfree, hat, rfl⟩ := textAt?_eq_some_iff.mp hname
  refine ⟨hfree, .cons hop (At.append.mpr ⟨hat, .cons hcount (at_nil _ _)⟩), ?_⟩
  simp only [Instruction.width, Instruction.encode, List.length_cons, List.length_append,
    List.length_nil]
  omega

/-- Only the bytes of an instruction are read as it. -/
lemma reads_of_decode (h : code.decode offset = .ok (i, next)) : code.Reads offset i next := by
  unfold decode at h
  dsimp only at h
  split at h
  · cases h
  · next opcode hop =>
    -- The number of the operation tells its byte.
    have hbyte : ∀ {n : Nat}, opcode.toNat = n → code[offset]? = some (UInt8.ofNat n) := by
      rintro _ rfl
      rwa [UInt8.ofNat_toNat]
    split at h
    -- The two numbers, the four jumps and the call; then what has one text, and what has nothing.
    case h_3 hcode =>
      obtain ⟨n, hlt, hmake, hat, rfl⟩ := word_operand (hbyte hcode) h
      cases hmake
      refine ⟨trivial, ?_, rfl⟩
      rwa [Instruction.encode, UInt32.toUInt32_toInt32, UInt32.toNat_ofNat_of_lt' hlt]
    case h_4 hcode =>
      obtain ⟨n, hlt, hmake, hat, rfl⟩ := word_operand (hbyte hcode) h
      cases hmake
      refine ⟨trivial, ?_, rfl⟩
      rwa [Instruction.encode, UInt32.toNat_ofNat_of_lt' hlt]
    case h_12 hcode => exact jump_operand .always (hbyte hcode) h
    case h_13 hcode => exact jump_operand .ifFalse (hbyte hcode) h
    case h_14 hcode => exact jump_operand .ifFalseKeep (hbyte hcode) h
    case h_15 hcode => exact jump_operand .ifTrueKeep (hbyte hcode) h
    case h_16 hcode =>
      split at h
      · cases h
      · next name next' hname =>
        split at h
        · cases h
        · next arguments hcount =>
          cases h
          exact reads_call (hbyte hcode) hname hcount
    case h_20 => cases h
    case h_5 hcode | h_6 hcode | h_9 hcode | h_10 hcode | h_11 hcode =>
      obtain ⟨s, rfl, hfree, hat, rfl⟩ := text_operand (hbyte hcode) h
      exact ⟨hfree, hat, rfl⟩
    all_goals
      next hcode =>
        cases h
        exact ⟨trivial, .cons (hbyte hcode) (at_nil _ _), rfl⟩

/-- **An instruction is read exactly where its bytes stand.** -/
theorem decode_eq_ok_iff : code.decode offset = .ok (i, next) ↔ code.Reads offset i next := by
  constructor
  · exact reads_of_decode
  · rintro ⟨hi, hat, rfl⟩
    exact decode_encode hi hat

/-- Bytes stand behind the code that they are appended to. -/
lemma at_append (code more : Code) (bytes : List UInt8) :
    Code.At (code ++ bytes.toArray ++ more) code.size bytes := by
  have hlist : (code ++ bytes.toArray ++ more).toList.drop code.size = bytes ++ more.toList := by
    rw [Array.toList_append, Array.toList_append, List.append_assoc, ← Array.length_toList,
      List.drop_left]
  rw [At, hlist]
  exact List.prefix_append _ _

end Code

/-! ### What is appended -/

namespace Assembler

lemma code_emit (a : Assembler) (i : Instruction) :
    (a.emit i).code = a.code ++ i.encode.toArray := rfl

lemma offset_emit (a : Assembler) (i : Instruction) : (a.emit i).offset = a.offset + i.width := by
  rw [offset, code_emit, Array.size_append, List.size_toArray]
  rfl

/-- **What is appended is read back, and what is read is appended as it was.** An instruction is
read back behind any code, whatever follows it. What is read at some offset of any code are the
bytes up to the next offset, and these are the ones that the instruction is appended as. -/
theorem decode_emit :
    (∀ (a : Assembler) (i : Instruction) (more : Code), i.Encodable →
      Code.decode ((a.emit i).code ++ more) a.offset = .ok (i, (a.emit i).offset)) ∧
    (∀ (code : Code) (offset next : Nat) (i : Instruction),
      code.decode offset = .ok (i, next) →
        i.Encodable ∧ offset < next ∧ next ≤ code.size ∧
          ∀ a : Assembler, (a.emit i).code = a.code ++ code.extract offset next) := by
  constructor
  · intro a i more hi
    rw [offset_emit]
    exact Code.decode_encode hi (Code.at_append a.code more i.encode)
  · intro code offset next i h
    obtain ⟨hi, hat, rfl⟩ := Code.reads_of_decode h
    have hpos := i.width_pos
    refine ⟨hi, by omega, hat.le (List.ne_nil_of_length_pos hpos), fun a => ?_⟩
    rw [code_emit, ← hat.extract]
    rfl

/-- A call behind another instruction, with a byte behind it that is no operation. -/
theorem decode_emit_call :
    Code.decode (((empty.emit .pop).emit (.call "wait" 1)).code ++ #[0xc8]) 1 =
        .ok (.call "wait" 1, 8) ∧
      ∀ a : Assembler, (a.emit (.call "wait" 1)).code =
        a.code ++ (((empty.emit .pop).emit (.call "wait" 1)).code ++ #[0xc8]).extract 1 8 := by
  have hfree : ZeroFree "wait" := by decide
  have hread := decode_emit.1 (empty.emit .pop) (.call "wait" 1) #[0xc8] hfree
  exact ⟨hread, (decode_emit.2 _ _ _ _ hread).2.2.2⟩

end Assembler

end Coscript
