import Coscript.Proofs.InstructionBytes
import Mathlib.Logic.Function.Basic

/-!
# Jumps that are patched later

An assembler appends instructions, and writes the targets of some jumps only when it knows them, in
the middle of the code and in any order. Patching a jump again moves its target. None of this moves
an instruction or touches what is not the target of the patched jump, so that the finished code is
read back as what was appended, with each of these jumps going where it was last patched.

* `Assembler.Step`, `Assembler.assemble`: what is done with an assembler;
* `Assembler.listing`: the instructions that the finished code should hold, with their offsets;
* `Assembler.Laid.add`, `Assembler.Laid.patch`: what a step keeps of the parts that are laid out;
* `Code.instructionsFrom`, `Function.disassembly_eq`: all instructions of some code, and its text;
* `Assembler.instructions_assemble`: the finished code is read back as its listing.
-/

namespace Coscript

/-! ### Reading all instructions -/

/-- The instructions from an offset on, each with its own offset, and the offset behind the last
one. -/
def Code.instructionsFrom (code : Code) (offset : Nat) :
    Except CodeFault (List (Nat × Instruction) × Nat) :=
  if _hlt : offset < code.size then
    match h : code.decode offset with
    | .error e => .error e
    | .ok (i, next) =>
      have := Code.lt_of_decode h
      (instructionsFrom code next).map fun r => ((offset, i) :: r.1, r.2)
  else .ok ([], offset)
termination_by code.size - offset

lemma Code.instructionsFrom_of_ok {code : Code} {offset next : Nat} {i : Instruction}
    (hlt : offset < code.size) (h : code.decode offset = .ok (i, next)) :
    code.instructionsFrom offset =
      (code.instructionsFrom next).map fun r => ((offset, i) :: r.1, r.2) := by
  rw [instructionsFrom, dif_pos hlt]
  split <;> simp_all

lemma Code.instructionsFrom_of_error {code : Code} {offset : Nat} {e : CodeFault}
    (hlt : offset < code.size) (h : code.decode offset = .error e) :
    code.instructionsFrom offset = .error e := by
  rw [instructionsFrom, dif_pos hlt]
  split <;> simp_all

/-- **The text of a function is made of its instructions**, and there is none just if these cannot
be read. -/
theorem Function.disassembly_eq (f : Function) : f.disassembly =
    (f.code.instructionsFrom 0).map fun r => String.join (r.1.map fun e => f.line e.1 e.2) := by
  have hfrom : ∀ offset shown, f.disassemblyFrom offset shown =
      (f.code.instructionsFrom offset).map
        fun r => shown ++ String.join (r.1.map fun e => f.line e.1 e.2) := by
    intro offset shown
    fun_induction disassemblyFrom f offset shown with
    | case1 offset shown hlt e he =>
      rw [Code.instructionsFrom_of_error hlt he]
      rfl
    | case2 offset shown hlt i next hi hnext ih =>
      rw [ih, Code.instructionsFrom_of_ok hlt hi]
      cases f.code.instructionsFrom next with
      | error e => rfl
      | ok r => simp [Except.map, String.append_assoc]
    | case3 offset shown hlt =>
      rw [Code.instructionsFrom, dif_neg hlt]
      simp [Except.map]
  rw [disassembly, hfrom]
  simp

namespace Assembler

/-! ### Steps -/

/-- What can be appended. -/
inductive Part
  | instruction (i : Instruction)
  /-- A call that stands on a source line. -/
  | call (name : String) (arguments : UInt8) (line : Nat)
  /-- A jump to be patched. -/
  | jump (kind : JumpKind)
  deriving DecidableEq

/-- What is done with an assembler. -/
inductive Step
  | add (p : Part)
  /-- Lets the jump with its target at a position go to the current offset. -/
  | patch (position : Nat)
  deriving DecidableEq

/-- Appends a part. -/
def add (a : Assembler) : Part → Assembler
  | .instruction i => a.emit i
  | .call name arguments line => a.emitCall name arguments line
  | .jump kind => (a.emitJump kind).1

/-- Makes a step. -/
def make (a : Assembler) : Step → Assembler
  | .add p => a.add p
  | .patch position => a.patch position

/-- The assembler after some steps. -/
def assemble (steps : List Step) : Assembler := steps.foldl make empty

/-- What is appended for a part; a jump to be patched has a target. -/
def Part.emission (target : Nat) : Part → Emission
  | instruction i => ⟨i, none⟩
  | call name arguments line => ⟨.call name arguments, some line⟩
  | jump kind => ⟨.jump kind target, none⟩

/-- The instruction of a part can be read back. -/
def Part.Encodable : Part → Prop
  | instruction i => i.Encodable
  | call name _ _ => ZeroFree name
  | jump _ => True

/-- Each step with the offset at which it is made. -/
def placed (a : Assembler) : List Step → List (Nat × Step)
  | [] => []
  | s :: ss => (a.offset, s) :: placed (a.make s) ss

/-- The parts that are appended, with their offsets. -/
def parts (steps : List Step) : List (Nat × Part) :=
  (placed empty steps).filterMap fun
    | (offset, .add p) => some (offset, p)
    | (_, .patch _) => none

/-- The offset at which a position was last patched, or zero. -/
def target (steps : List Step) (position : Nat) : Nat :=
  ((placed empty steps).filterMap fun
    | (_, .add _) => none
    | (offset, .patch q) => if q = position then some offset else none).getLast?.getD 0

/-- **The instructions of the finished code**, with their offsets and source lines. A jump to be
patched goes where it was last patched. -/
def listing (steps : List Step) : List (Nat × Emission) :=
  (parts steps).map fun e => (e.1, e.2.emission (target steps (e.1 + 1)))

/-- **Steps that make sense.** -/
structure Proper (steps : List Step) : Prop where
  /-- Each patch takes a position that was given by a jump before it. -/
  patches : ∀ n position, steps[n]? = some (.patch position) →
    ∃ m < n, ∃ kind, steps[m]? = some (.add (.jump kind)) ∧
      position = ((assemble (steps.take m)).emitJump kind).2
  /-- Texts do not hold the character zero, and targets fit into 31 bits. -/
  encodable : ∀ p, .add p ∈ steps → p.Encodable
  /-- So do all offsets. -/
  size : (assemble steps).offset < 0x80000000

/-! ### Parts in place -/

/-- The number of bytes of a part, wherever a jump goes. -/
def Part.width (p : Part) : Nat := (p.emission 0).instruction.width

lemma Part.width_emission (p : Part) (target : Nat) :
    (p.emission target).instruction.width = p.width := by
  cases p <;> rfl

/-- Parts stand one behind the other between two offsets. -/
def Consecutive : Nat → List (Nat × Part) → Nat → Prop
  | offset, [], last => offset = last
  | offset, (here, p) :: ps, last => here = offset ∧ Consecutive (offset + p.width) ps last

/-- The bytes of parts, where each jump to be patched has its target from a table of positions. -/
def bytes (targets : Nat → Nat) (ps : List (Nat × Part)) : List UInt8 :=
  ps.flatMap fun e => (e.2.emission (targets (e.1 + 1))).instruction.encode

/-- The source lines of parts, by offset. -/
def notes (ps : List (Nat × Part)) : List (Nat × Nat) :=
  ps.filterMap fun e => (e.2.emission 0).line?.map (e.1, ·)

/-- Parts are what an assembler holds. -/
structure Laid (a : Assembler) (ps : List (Nat × Part)) (targets : Nat → Nat) : Prop where
  code : a.code.toList = bytes targets ps
  consecutive : Consecutive 0 ps a.offset
  lines : a.callLines.entries = notes ps

variable {a : Assembler} {ps qs : List (Nat × Part)} {targets : Nat → Nat} {offset last : Nat}

lemma consecutive_append : Consecutive offset (ps ++ qs) last ↔
    ∃ middle, Consecutive offset ps middle ∧ Consecutive middle qs last := by
  induction ps generalizing offset with
  | nil => simp [Consecutive]
  | cons e ps ih => simp [Consecutive, ih, and_assoc]

lemma Consecutive.length_bytes (h : Consecutive offset ps last) (targets : Nat → Nat) :
    offset + (bytes targets ps).length = last := by
  induction ps generalizing offset with
  | nil => exact h
  | cons e ps ih =>
    rw [← ih h.2, bytes, List.flatMap_cons, List.length_append, ← Nat.add_assoc,
      ← e.2.width_emission (targets (e.1 + 1))]
    rfl

/-- Parts lie between the two offsets. -/
lemma Consecutive.bounds (h : Consecutive offset ps last) :
    ∀ e ∈ ps, offset ≤ e.1 ∧ e.1 + e.2.width ≤ last := by
  induction ps generalizing offset with
  | nil => simp
  | cons e ps ih =>
    obtain ⟨rfl, h⟩ := h
    have hle := h.length_bytes fun _ => 0
    refine List.forall_mem_cons.mpr ⟨⟨le_rfl, by omega⟩, fun e' he' => ?_⟩
    obtain ⟨h₁, h₂⟩ := ih h e' he'
    exact ⟨by omega, h₂⟩

lemma Part.width_pos (p : Part) : 0 < p.width := Instruction.width_pos _

lemma bytes_append : bytes targets (ps ++ qs) = bytes targets ps ++ bytes targets qs :=
  List.flatMap_append

lemma bytes_congr {targets' : Nat → Nat} (h : ∀ e ∈ ps, targets (e.1 + 1) = targets' (e.1 + 1)) :
    bytes targets ps = bytes targets' ps :=
  List.flatMap_congr fun e he => by rw [h e he]

/-! ### What steps keep -/

lemma add_eq (a : Assembler) (p : Part) : a.add p = a.append (p.emission 0) := by
  cases p <;> rfl

lemma offset_add (a : Assembler) (p : Part) : (a.add p).offset = a.offset + p.width := by
  rw [add_eq, offset, append, Array.size_append, List.size_toArray]
  rfl

/-- **A part is laid behind the others.** -/
theorem Laid.add (h : Laid a ps targets) (p : Part) (htarget : targets (a.offset + 1) = 0) :
    Laid (a.add p) (ps ++ [(a.offset, p)]) targets where
  code := by
    rw [add_eq, append, Array.toList_append, h.code, bytes_append, bytes.eq_1 _ [_],
      List.flatMap_singleton, htarget]
  consecutive := consecutive_append.mpr ⟨a.offset, h.consecutive, rfl, (offset_add a p).symm⟩
  lines := by
    have hnew : a.offset ∉ a.callLines.entries.map Prod.fst := by
      intro hmem
      obtain ⟨e, he, hoffset⟩ := List.mem_map.mp hmem
      rw [h.lines] at he
      obtain ⟨e', he', hline⟩ := List.mem_filterMap.mp he
      obtain ⟨line, -, rfl⟩ := Option.map_eq_some_iff.mp hline
      have hbounds := (h.consecutive.bounds e' he').2
      have hpos := e'.2.width_pos
      omega
    rw [add_eq, append, notes, List.filterMap_append, ← notes, ← h.lines]
    cases hline : (p.emission 0).line? with
    | none => simp [hline]
    | some line =>
      have hinsert : (a.callLines.insert a.offset line).entries =
          a.callLines.entries ++ [(a.offset, line)] := OrderedMap.map_fst_put_of_not_mem hnew
      simpa [hline] using hinsert

/-- Patching overwrites a number. -/
lemma code_patch {before after : List UInt8} {n : Nat}
    (h : a.code.toList = before ++ (Bytes.ofWord n ++ after)) :
    (a.patch before.length).code.toList = before ++ (Bytes.ofWord a.offset ++ after) := by
  have hset : ∀ (new old : List UInt8) (code : Code) (before : List UInt8),
      old.length = new.length → code.toList = before ++ (old ++ after) →
      ((new.zipIdx before.length).foldl (fun code e => code.setIfInBounds e.2 e.1) code).toList =
        before ++ (new ++ after) := by
    intro new
    induction new with
    | nil =>
      intro old code before hlength hcode
      rw [List.length_eq_zero_iff.mp hlength] at hcode
      exact hcode
    | cons b new ih =>
      intro old code before hlength hcode
      obtain ⟨c, old, rfl⟩ := List.exists_cons_of_length_eq_add_one hlength
      have hcode' : (code.setIfInBounds before.length b).toList =
          (before ++ [b]) ++ (old ++ after) := by
        rw [Array.toList_setIfInBounds, hcode, List.set_append_right _ _ le_rfl, Nat.sub_self]
        simp
      have hrest := ih old _ (before ++ [b]) (by simpa using hlength) hcode'
      rw [List.zipIdx_cons, List.foldl_cons]
      simpa using hrest
  exact hset (Bytes.ofWord a.offset) (Bytes.ofWord n) a.code before rfl h

lemma offset_patch (a : Assembler) (position : Nat) :
    (a.patch position).offset = a.offset := by
  have hset : ∀ (es : List (UInt8 × Nat)) (code : Code),
      (es.foldl (fun code e => code.setIfInBounds e.2 e.1) code).size = code.size := by
    intro es
    induction es with
    | nil => exact fun code => rfl
    | cons e es ih => exact fun code => (ih _).trans Array.size_setIfInBounds
  exact hset _ _

/-- **Patching moves the target of one jump**, and no part. -/
theorem Laid.patch (h : Laid a ps targets) {here : Nat} {kind : JumpKind}
    (hjump : (here, .jump kind) ∈ ps) :
    Laid (a.patch (here + 1)) ps (Function.update targets (here + 1) a.offset) := by
  obtain ⟨before, after, rfl⟩ := List.append_of_mem hjump
  obtain ⟨_, hbefore, rfl, hafter⟩ := consecutive_append.mp h.consecutive
  -- No other part has its target at this position.
  have hold : ∀ e ∈ before ++ after,
      targets (e.1 + 1) = Function.update targets (here + 1) a.offset (e.1 + 1) := by
    intro e he
    refine (Function.update_of_ne ?_ _ _).symm
    have hpos := e.2.width_pos
    rcases List.mem_append.mp he with he | he
    · have hle := (hbefore.bounds e he).2
      omega
    · have hle := (hafter.bounds e he).1
      have hwidth := (Part.jump kind).width_pos
      omega
  have hcode : a.code.toList = (bytes targets before ++ [kind.opcode]) ++
      (Bytes.ofWord (targets (here + 1)) ++ bytes targets after) := by
    rw [h.code, bytes_append, List.append_assoc]
    rfl
  have hpatched := code_patch hcode
  have hlength := hbefore.length_bytes targets
  rw [Nat.zero_add] at hlength
  rw [List.length_append, hlength, List.length_singleton] at hpatched
  refine ⟨?_, by rw [offset_patch]; exact h.consecutive, h.lines⟩
  rw [hpatched, bytes_append, bytes_congr fun e he => hold e (List.mem_append_left after he),
    bytes_congr fun e he => hold e (List.mem_append_right before he), List.append_assoc]
  simp [bytes, Part.emission, Instruction.encode]

/-! ### Runs -/

variable {steps : List Step}

lemma assemble_append_singleton (steps : List Step) (s : Step) :
    assemble (steps ++ [s]) = (assemble steps).make s := by
  rw [assemble, List.foldl_append]
  rfl

lemma placed_append_singleton (a : Assembler) (steps : List Step) (s : Step) :
    placed a (steps ++ [s]) = placed a steps ++ [((steps.foldl make a).offset, s)] := by
  induction steps generalizing a with
  | nil => rfl
  | cons s' steps ih => rw [List.cons_append, placed, ih, placed, List.foldl_cons, List.cons_append]

lemma parts_add (steps : List Step) (p : Part) :
    parts (steps ++ [.add p]) = parts steps ++ [((assemble steps).offset, p)] := by
  rw [parts, placed_append_singleton, List.filterMap_append]
  rfl

lemma parts_patch (steps : List Step) (position : Nat) :
    parts (steps ++ [.patch position]) = parts steps := by
  rw [parts, placed_append_singleton, List.filterMap_append]
  exact List.append_nil _

lemma target_add (steps : List Step) (p : Part) : target (steps ++ [.add p]) = target steps := by
  funext position
  rw [target, placed_append_singleton, List.filterMap_append]
  exact congrArg (fun l : List Nat => l.getLast?.getD 0) (List.append_nil _)

lemma target_patch (steps : List Step) (position : Nat) : target (steps ++ [.patch position]) =
    Function.update (target steps) position (assemble steps).offset := by
  funext position'
  rw [target, placed_append_singleton, List.filterMap_append]
  by_cases h : position = position'
  · subst h
    simp [assemble]
  · rw [Function.update_of_ne (Ne.symm h), target]
    simp [h]

/-- What was appended is among the parts. -/
lemma mem_parts {m : Nat} {p : Part} (h : steps[m]? = some (.add p)) :
    ((assemble (steps.take m)).offset, p) ∈ parts steps := by
  induction steps using List.reverseRecOn with
  | nil => cases h
  | append_singleton steps s ih =>
    rcases Nat.lt_or_ge m steps.length with hlt | hge
    · rw [List.getElem?_append_left hlt] at h
      rw [List.take_append_of_le_length hlt.le]
      cases s with
      | add p' =>
        rw [parts_add]
        exact List.mem_append_left _ (ih h)
      | patch position =>
        rw [parts_patch]
        exact ih h
    · obtain rfl : m = steps.length := by
        have hm := (List.getElem?_eq_some_iff.mp h).1
        rw [List.length_append, List.length_singleton] at hm
        omega
      rw [List.getElem?_concat_length] at h
      cases h
      rw [List.take_left, parts_add]
      exact List.mem_append_right _ List.mem_cons_self

lemma offset_le_make (a : Assembler) (s : Step) : a.offset ≤ (a.make s).offset := by
  cases s with
  | add p =>
    rw [make, offset_add]
    exact Nat.le_add_right _ _
  | patch position => exact (offset_patch a position).ge

/-- Without the last step, steps make sense as well. -/
lemma Proper.of_append {s : Step} (h : Proper (steps ++ [s])) : Proper steps where
  patches n position hn := by
    have hlt := (List.getElem?_eq_some_iff.mp hn).1
    obtain ⟨m, hm, kind, hjump, hposition⟩ :=
      h.patches n position ((List.getElem?_append_left hlt).trans hn)
    rw [List.getElem?_append_left (hm.trans hlt)] at hjump
    rw [List.take_append_of_le_length (hm.trans hlt).le] at hposition
    exact ⟨m, hm, kind, hjump, hposition⟩
  encodable p hp := h.encodable p (List.mem_append_left _ hp)
  size := by
    have hsize := h.size
    rw [assemble_append_singleton] at hsize
    exact (offset_le_make _ s).trans_lt hsize

/-- A patch takes the position of a jump that was appended. -/
lemma Proper.last_patch {position : Nat} (h : Proper (steps ++ [.patch position])) :
    ∃ here kind, (here, .jump kind) ∈ parts steps ∧ position = here + 1 := by
  obtain ⟨m, hm, kind, hjump, hposition⟩ :=
    h.patches steps.length position List.getElem?_concat_length
  rw [List.getElem?_append_left hm] at hjump
  rw [List.take_append_of_le_length hm.le] at hposition
  exact ⟨_, kind, mem_parts hjump, hposition⟩

/-- **What holds after each step.** -/
structure Kept (steps : List Step) : Prop where
  laid : Laid (assemble steps) (parts steps) (target steps)
  /-- Positions in code that is not there yet have not been patched. -/
  fresh : ∀ position, (assemble steps).offset < position → target steps position = 0
  /-- Jumps that are patched go to offsets of the code, or to its end. -/
  inside : ∀ position, target steps position ≤ (assemble steps).offset

lemma Kept.add (h : Kept steps) (p : Part) : Kept (steps ++ [.add p]) := by
  have hoffset : (assemble (steps ++ [.add p])).offset = (assemble steps).offset + p.width := by
    rw [assemble_append_singleton]
    exact offset_add _ p
  constructor
  · rw [assemble_append_singleton, parts_add, target_add]
    exact h.laid.add p (h.fresh _ (Nat.lt_succ_self _))
  · intro position hlt
    rw [target_add]
    exact h.fresh position (by omega)
  · intro position
    rw [target_add, hoffset]
    exact (h.inside position).trans (Nat.le_add_right _ _)

lemma Kept.patch (h : Kept steps) {here : Nat} {kind : JumpKind}
    (hjump : (here, .jump kind) ∈ parts steps) : Kept (steps ++ [.patch (here + 1)]) := by
  have hoffset : (assemble (steps ++ [.patch (here + 1)])).offset = (assemble steps).offset := by
    rw [assemble_append_singleton]
    exact offset_patch _ _
  have hhere : here + (Part.jump kind).width ≤ (assemble steps).offset :=
    (h.laid.consecutive.bounds _ hjump).2
  have hpos := (Part.jump kind).width_pos
  constructor
  · rw [assemble_append_singleton, parts_patch, target_patch]
    exact h.laid.patch hjump
  · intro position hlt
    rw [hoffset] at hlt
    rw [target_patch, Function.update_of_ne (by omega)]
    exact h.fresh position hlt
  · intro position
    rw [target_patch, hoffset]
    by_cases heq : position = here + 1
    · rw [heq, Function.update_self]
    · rw [Function.update_of_ne heq]
      exact h.inside position

/-- **Steps that make sense lay out their parts.** -/
theorem kept (h : Proper steps) : Kept steps := by
  induction steps using List.reverseRecOn with
  | nil => exact ⟨⟨rfl, rfl, rfl⟩, fun _ _ => rfl, fun _ => le_rfl⟩
  | append_singleton steps s ih =>
    have hkept := ih h.of_append
    cases s with
    | add p => exact hkept.add p
    | patch position =>
      obtain ⟨here, kind, hjump, rfl⟩ := h.last_patch
      exact hkept.patch hjump

/-! ### The finished code -/

/-- Parts that stand one behind the other up to the end of some code are its instructions. -/
lemma Consecutive.instructionsFrom {code : Code} (h : Consecutive offset ps code.size)
    (hat : code.At offset (bytes targets ps))
    (hencodable : ∀ e ∈ ps, (e.2.emission (targets (e.1 + 1))).instruction.Encodable) :
    code.instructionsFrom offset =
      .ok (ps.map fun e => (e.1, (e.2.emission (targets (e.1 + 1))).instruction), code.size) := by
  induction ps generalizing offset with
  | nil =>
    obtain rfl : offset = code.size := h
    rw [Code.instructionsFrom, dif_neg (lt_irrefl _)]
    rfl
  | cons e ps ih =>
    have hbounds := (h.bounds e List.mem_cons_self).2
    have hpos := e.2.width_pos
    obtain ⟨rfl, h⟩ := h
    obtain ⟨hhere, hrest⟩ := Code.At.append.mp hat
    have hdecode := Code.decode_encode (hencodable e List.mem_cons_self) hhere
    rw [Part.width_emission] at hdecode
    rw [Code.instructionsFrom_of_ok (by omega) hdecode,
      ih h (Part.width_emission e.2 _ ▸ hrest) fun e' he' =>
        hencodable e' (List.mem_cons_of_mem _ he')]
    rfl

/-- Only what is appended is a part. -/
lemma add_mem_of_mem_parts {e : Nat × Part} (h : e ∈ parts steps) : .add e.2 ∈ steps := by
  induction steps using List.reverseRecOn with
  | nil => cases h
  | append_singleton steps s ih =>
    cases s with
    | add p =>
      rw [parts_add, List.mem_append, List.mem_singleton] at h
      rcases h with h | rfl
      · exact List.mem_append_left _ (ih h)
      · exact List.mem_append_right _ List.mem_cons_self
    | patch position =>
      rw [parts_patch] at h
      exact List.mem_append_left _ (ih h)

lemma Part.Encodable.emission {p : Part} (h : p.Encodable) {target : Nat}
    (htarget : target < 0x80000000) : (p.emission target).instruction.Encodable := by
  cases p with
  | instruction i => exact h
  | call name arguments line => exact h
  | jump kind => exact htarget

/-- **The finished code is read back as what was appended**, up to its end, however its jumps were
patched; the lines noted are those of the calls, at their offsets; and the code has a text. -/
theorem instructions_assemble (steps : List Step) (h : Proper steps) :
    (assemble steps).code.instructionsFrom 0 =
        .ok ((listing steps).map fun e => (e.1, e.2.instruction), (assemble steps).code.size) ∧
      (assemble steps).callLines.entries =
        (listing steps).filterMap (fun e => e.2.line?.map (e.1, ·)) ∧
      ∀ name file parameters, ((assemble steps).finish name file parameters).disassembly =
        .ok (String.join ((listing steps).map fun e =>
          ((assemble steps).finish name file parameters).line e.1 e.2.instruction)) := by
  have hkept := kept h
  have hat : (assemble steps).code.At 0 (bytes (target steps) (parts steps)) := by
    rw [← hkept.laid.code]
    exact List.prefix_rfl
  have hread : (assemble steps).code.instructionsFrom 0 =
      .ok ((listing steps).map fun e => (e.1, e.2.instruction), (assemble steps).code.size) := by
    rw [hkept.laid.consecutive.instructionsFrom hat fun e he =>
      (h.encodable _ (add_mem_of_mem_parts he)).emission ((hkept.inside _).trans_lt h.size)]
    simp only [listing, List.map_map]
    rfl
  refine ⟨hread, ?_, fun name file parameters => ?_⟩
  · rw [hkept.laid.lines, notes, listing, List.filterMap_map]
    refine List.filterMap_congr fun ⟨offset, p⟩ _ => ?_
    cases p <;> rfl
  · rw [Function.disassembly_eq]
    simp only [finish, hread, Except.map, List.map_map]
    rfl

/-- A loop around a call: the jump out of it is patched twice, the jump behind it not at all. -/
theorem instructions_assemble_loop :
    (assemble [.add (.jump .ifFalse), .add (.call "wait" 0 7), .patch 1, .add (.instruction .pop),
        .add (.jump .always), .patch 1]).code.instructionsFrom 0 =
      .ok ([(0, .jump .ifFalse 18), (5, .call "wait" 0), (12, .pop), (13, .jump .always 0)], 18) := by
  refine (instructions_assemble _ ⟨?_, ?_, by decide⟩).1
  · intro n position h
    match n, h with
    | 2, rfl => exact ⟨0, by decide, .ifFalse, rfl, rfl⟩
    | 5, rfl => exact ⟨0, by decide, .ifFalse, rfl, rfl⟩
  · have hname : ZeroFree "wait" := by decide
    simp [Part.Encodable, Instruction.Encodable, hname]

end Assembler

end Coscript
