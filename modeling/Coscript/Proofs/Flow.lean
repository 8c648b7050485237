import Coscript.Proofs.Admissible
import Coscript.Proofs.Layout
import Coscript.Proofs.Shapes

/-!
# Generated code is verified

The code of an expression leaves one value more, and the code of a statement leaves as much as there
was. Every jump in them goes to a place that has the shape which the jump leaves, because what is
passed over, or repeated, leaves the shape as it was.

* `Script.Expression.code_flows`, `Script.Statement.code_flows`: what generated code leaves;
* `Script.Generated.verified`: the functions of scripts are verified.
-/

namespace Coscript

open Script

variable {o : Operators}

/-! ### Admissible instructions -/

/-- The texts of an instruction hold no zero, and its operator is known. -/
def Instruction.Admissible (o : Operators) : Instruction → Prop
  | .pushString text => ZeroFree text
  | .pushReference name => ZeroFree name
  | .declare name => ZeroFree name
  | .unary symbol => ZeroFree symbol ∧ (o.unary? symbol).isSome
  | .binary symbol => ZeroFree symbol ∧ (o.binary? symbol).isSome
  | .call name _ => ZeroFree name
  | _ => True

lemma Instruction.Admissible.known {i : Instruction} (h : i.Admissible o) :
    i.Known o := by
  cases i with
  | unary | binary => exact h.2
  | _ => trivial

lemma Instruction.Admissible.encodable {i : Instruction} (h : i.Admissible o)
    (hjump : ∀ kind target, i = .jump kind target → target < 0x80000000) : i.Encodable := by
  cases i with
  | unary | binary => exact h.1
  | jump kind target => exact hjump kind target rfl
  | pushString | pushReference | declare | call => exact h
  | _ => trivial

namespace Script

namespace Emissions

variable {at? : Nat → Option Shape} {es es' : Emissions} {k : Nat} {s s' m : Shape}

/-- Instructions lead from one shape to another, and their jumps to the shapes at their targets. -/
def Flows (at? : Nat → Option Shape) : Emissions → Shape → Shape → Prop
  | [], s, s' => s = s'
  | e :: es, s, s' => ∃ m, e.instruction.effect s = some m ∧
      (∀ kind target, e.instruction = .jump kind target → at? target = some m) ∧ Flows at? es m s'

/-- The shapes at the offsets of instructions that begin at an offset with a shape, up to the offset
behind them. -/
def Agrees (at? : Nat → Option Shape) : Emissions → Nat → Shape → Prop
  | [], k, s => at? k = some s
  | e :: es, k, s => at? k = some s ∧
      ∀ m, e.instruction.effect s = some m → Agrees at? es (k + e.instruction.width) m

lemma Flows.append (h : Flows at? es s m) (h' : Flows at? es' m s') :
    Flows at? (es ++ es') s s' := by
  induction es generalizing s with
  | nil =>
    cases h
    exact h'
  | cons e es ih =>
    obtain ⟨m', heffect, hjump, h⟩ := h
    exact ⟨m', heffect, hjump, ih h⟩

lemma Agrees.head (h : Agrees at? es k s) : at? k = some s := by
  cases es with
  | nil => exact h
  | cons e es => exact h.1

lemma Agrees.left (h : Agrees at? (es ++ es') k s) : Agrees at? es k s := by
  induction es generalizing k s with
  | nil => exact h.head
  | cons e es ih => exact ⟨h.1, fun m hm => ih (h.2 m hm)⟩

lemma Agrees.right (h : Agrees at? (es ++ es') k s) (hflows : Flows at? es s m) :
    Agrees at? es' (k + es.width) m := by
  induction es generalizing k s with
  | nil =>
    cases hflows
    exact h
  | cons e es ih =>
    obtain ⟨m', heffect, -, hflows⟩ := hflows
    rw [width_cons, ← Nat.add_assoc]
    exact ih (h.2 m' heffect) hflows

lemma Agrees.last (h : Agrees at? es k s) (hflows : Flows at? es s m) :
    at? (k + es.width) = some m := by
  rw [← List.append_nil es] at h
  exact (h.right hflows).head

/-- An instruction that is no jump leads to what it leaves. -/
lemma flows_single {i : Instruction} {line? : Option Nat} (h : i.effect s = some s')
    (hi : ∀ kind target, i ≠ .jump kind target) : Flows at? [⟨i, line?⟩] s s' :=
  ⟨s', h, fun kind target he => absurd he (hi kind target), rfl⟩

lemma Agrees.behind_jump {kind : JumpKind} {target : Nat}
    (h : Agrees at? (ofInstructions [.jump kind target] ++ es) k s)
    (heffect : (Instruction.jump kind target).effect s = some m) :
    Agrees at? es (k + jumpWidth) m :=
  h.2 m heffect

lemma flows_jump {kind : JumpKind} {target : Nat}
    (h : (Instruction.jump kind target).effect s = some s') (htarget : at? target = some s') :
    Flows at? (ofInstructions [.jump kind target]) s s' :=
  ⟨s', h, fun _ _ he => by cases he; exact htarget, rfl⟩

end Emissions

open Emissions

variable {at? : Nat → Option Shape}

/-! ### Expressions -/

namespace Expression

mutual

/-- **The code of an expression leaves one value more.** -/
theorem code_flows : ∀ {e : Expression} {k : Nat} {s : Shape}, e.Admissible o →
    Agrees at? (e.code k) k s → Flows at? (e.code k) s (s.push .value)
  | .int _, _, _, _, _ => flows_single rfl (by simp)
  | .float _, _, _, _, _ => flows_single rfl (by simp)
  | .string _, _, _, _, _ => flows_single rfl (by simp)
  | .variable name, _, s, _, _ => by
    have hname : Flows at? (ofInstructions [.pushReference name]) s (s.push .reference) :=
      flows_single rfl (by simp)
    exact hname.append (flows_single rfl (by simp))
  | .assign name value, k, s, ⟨_, hvalue⟩, h => by
    rw [code] at h ⊢
    have htarget : Flows at? (ofInstructions [.pushReference name]) s (s.push .reference) :=
      flows_single rfl (by simp)
    exact (htarget.append (code_flows hvalue (h.left.right htarget))).append
      (flows_single rfl (by simp))
  | .unary symbol operand, k, s, ⟨_, _, hoperand⟩, h => by
    rw [code] at h ⊢
    exact (code_flows hoperand h.left).append (flows_single rfl (by simp))
  | .binary symbol left right, k, s, ⟨_, _, hleft, hright⟩, h => by
    rw [code] at h ⊢
    cases hdeciding : deciding? symbol with
    | none =>
      simp only [hdeciding] at h ⊢
      have hl := code_flows hleft h.left.left
      have hr := code_flows hright (h.left.right hl)
      exact (hl.append hr).append (flows_single rfl (by simp))
    | some kind =>
      simp only [hdeciding] at h ⊢
      have hl := code_flows hleft h.left.left
      -- The jump passes over the right operand and keeps the value of the left one.
      have hkeep : ∀ target, (Instruction.jump kind target).effect (s.push .value) =
          some (s.push .value) := by
        intro target
        unfold deciding? at hdeciding
        split at hdeciding
        · cases hdeciding
          rfl
        · cases hdeciding
          rfl
        · cases hdeciding
      rw [List.append_assoc] at h
      have hbehind : Agrees at? _ _ s := ((h.right hl).2 _ (hkeep _)).2 _ rfl
      have hr := code_flows hright hbehind
      have hjump := flows_jump (hkeep _) (hbehind.last hr)
      have hpop : Flows at? (ofInstructions [.pop]) (s.push .value) s := flows_single rfl (by simp)
      exact (hl.append (hjump.append hpop)).append hr
  | .call name arguments line, k, s, ⟨_, hcount, harguments⟩, h => by
    rw [code] at h ⊢
    refine (codeOfAll_flows harguments h.left).append (flows_single ?_ (by simp))
    have hbyte : (UInt8.ofNat arguments.length).toNat = arguments.length :=
      UInt8.toNat_ofNat_of_lt' hcount
    simp [Instruction.effect_call, Shape.pushValues, Shape.push, hbyte]

/-- The code of expressions leaves a value for each of them. -/
theorem codeOfAll_flows : ∀ {es : List Expression} {k : Nat} {s : Shape}, AllAdmissible o es →
    Agrees at? (codeOfAll es k) k s → Flows at? (codeOfAll es k) s (s.pushValues es.length)
  | [], _, _, _, _ => rfl
  | e :: es, k, s, ⟨he, hes⟩, h => by
    rw [codeOfAll] at h ⊢
    have hfirst := code_flows he h.left
    have hrest := codeOfAll_flows hes (h.right hfirst)
    rw [Shape.pushValues_push] at hrest
    exact hfirst.append hrest

end

lemma codeOrUndefined_flows {e? : Option Expression} {k : Nat} {s : Shape}
    (he : OptionAdmissible o e?) (h : Agrees at? (codeOrUndefined e? k) k s) :
    Flows at? (codeOrUndefined e? k) s (s.push .value) := by
  cases e? with
  | none => exact flows_single rfl (by simp)
  | some e => exact code_flows (he e rfl) h

end Expression

/-! ### Statements -/

/-- Code that leaves what there was does so in a scope of its own. -/
lemma Emissions.inScope_flows {es : Emissions} {k : Nat} {s : Shape}
    (h : Agrees at? es.inScope k s)
    (hes : ∀ {s' : Shape}, Agrees at? es (k + 1) s' → Flows at? es s' s') :
    Flows at? es.inScope s s := by
  unfold inScope at h ⊢
  rw [List.append_assoc] at h
  have henter : Flows at? (ofInstructions [.enterScope]) s ⟨s.operands, s.depth + 1⟩ :=
    flows_single rfl (by simp)
  exact (henter.append (hes (h.right henter).left)).append (flows_single rfl (by simp))

namespace Statement

mutual

/-- **The code of a statement leaves what there was.** -/
theorem code_flows : ∀ {x : Statement} {k : Nat} {s : Shape}, x.Admissible o →
    Agrees at? (x.code k) k s → Flows at? (x.code k) s s
  | .declare _ _, _, _, ⟨_, hvalue⟩, h => by
    rw [code] at h ⊢
    exact (Expression.codeOrUndefined_flows hvalue h.left).append (flows_single rfl (by simp))
  | .expression e, _, _, he, h => by
    rw [code] at h ⊢
    exact (Expression.code_flows he h.left).append (flows_single rfl (by simp))
  | .ret _, _, _, hvalue, h => by
    rw [code] at h ⊢
    exact (Expression.codeOrUndefined_flows hvalue h.left).append (flows_single rfl (by simp))
  | .block _, _, _, hbody, h => by
    rw [code] at h ⊢
    exact inScope_flows h (codeOfAll_flows hbody)
  | .whileLoop condition body, k, s, ⟨hcondition, hbody⟩, h => by
    rw [code] at h ⊢
    have hstart := h.head
    simp only [List.append_assoc] at h
    have hc := Expression.code_flows hcondition h.left
    have hrest := (h.right hc).behind_jump (m := s) rfl
    have hb := inScope_flows hrest.left (codeOfAll_flows hbody)
    have hback : Flows at? (ofInstructions [.jump .always k]) s s := flows_jump rfl hstart
    have hstop := hrest.last (hb.append hback)
    rw [add_width_append] at hstop
    have hleave : Flows at? (ofInstructions [.jump .ifFalse _]) (s.push .value) s :=
      flows_jump rfl hstop
    exact ((hc.append hleave).append hb).append hback
  | .ifThen condition body, k, s, ⟨hcondition, hbody⟩, h => by
    rw [code] at h ⊢
    simp only [List.append_assoc] at h
    have hc := Expression.code_flows hcondition h.left
    have hrest := (h.right hc).behind_jump (m := s) rfl
    have hb := inScope_flows hrest (codeOfAll_flows hbody)
    have hleave : Flows at? (ofInstructions [.jump .ifFalse _]) (s.push .value) s :=
      flows_jump rfl (hrest.last hb)
    exact (hc.append hleave).append hb
  | .ifElse condition body alternative, k, s, ⟨hcondition, hbody, halternative⟩, h => by
    rw [code] at h ⊢
    simp only [List.append_assoc] at h
    have hc := Expression.code_flows hcondition h.left
    have hrest := (h.right hc).behind_jump (m := s) rfl
    have hb := inScope_flows hrest.left (codeOfAll_flows hbody)
    have hother := (hrest.right hb).behind_jump (m := s) rfl
    have ha := code_flows halternative hother
    have hleave : Flows at? (ofInstructions [.jump .ifFalse _]) (s.push .value) s :=
      flows_jump rfl hother.head
    have hover : Flows at? (ofInstructions [.jump .always _]) s s :=
      flows_jump rfl (hother.last ha)
    exact (((hc.append hleave).append hb).append hover).append ha

/-- The code of statements leaves what there was. -/
theorem codeOfAll_flows : ∀ {xs : List Statement} {k : Nat} {s : Shape}, AllAdmissible o xs →
    Agrees at? (codeOfAll xs k) k s → Flows at? (codeOfAll xs k) s s
  | [], _, _, _, _ => by
    rw [codeOfAll]
    rfl
  | x :: xs, k, s, ⟨hx, hxs⟩, h => by
    rw [codeOfAll] at h ⊢
    have hfirst := code_flows hx h.left
    exact hfirst.append (codeOfAll_flows hxs (h.right hfirst))

end

end Statement

/-! ### Functions -/

namespace Emissions

variable {f : Function} {es es' : Emissions} {k x : Nat} {s s' m : Shape}

/-- The shape before the instruction at an offset, where the first instruction is at `start`. -/
def shapeFrom? : Emissions → Nat → Shape → Nat → Option Shape
  | [], _, _, _ => none
  | e :: es, start, s, offset =>
    if start = offset then some s
    else (e.instruction.effect s).bind fun s' =>
      shapeFrom? es (start + e.instruction.width) s' offset

lemma lt_of_shapeFrom? (h : es.shapeFrom? k s x = some m) : k ≤ x ∧ x < k + es.width := by
  induction es generalizing k s with
  | nil => cases h
  | cons e es ih =>
    have hpos := e.instruction.width_pos
    rw [shapeFrom?] at h
    rw [width_cons]
    split at h
    · omega
    · obtain ⟨s', -, h⟩ := Option.bind_eq_some_iff.mp h
      have := ih h
      omega

lemma Agrees.congr {at? at?' : Nat → Option Shape} (h : Agrees at? es k s)
    (heq : ∀ x, k ≤ x → at?' x = at? x) : Agrees at?' es k s := by
  induction es generalizing k s with
  | nil => exact (heq k (Nat.le_refl k)).trans h
  | cons e es ih =>
    refine ⟨(heq k (Nat.le_refl k)).trans h.1, fun m hm => ih (h.2 m hm) fun x hx => ?_⟩
    exact heq x (by omega)

/-- Instructions that others follow agree with their own shapes. -/
lemma agrees_shapeFrom? (hne : es' ≠ []) : Agrees ((es ++ es').shapeFrom? k s) es k s := by
  induction es generalizing k s with
  | nil =>
    cases es' with
    | nil => exact absurd rfl hne
    | cons e es' =>
      show shapeFrom? (e :: es') k s k = some s
      rw [shapeFrom?, if_pos rfl]
  | cons e es ih =>
    have hpos := e.instruction.width_pos
    refine ⟨?_, fun m hm => ih.congr fun x hx => ?_⟩
    · rw [List.cons_append, shapeFrom?, if_pos rfl]
    · rw [List.cons_append, shapeFrom?, if_neg (by omega), hm, Option.bind_some]

/-- The shapes in a function are those of the instructions that it has. -/
lemma shapeFrom?_of_has (h : f.Has k es) (hsize : k + es.width = f.code.size) :
    f.shapeFrom? k s x = es.shapeFrom? k s x := by
  induction es generalizing k s with
  | nil =>
    rw [Function.shapeFrom?, dif_neg (by simpa using Nat.le_of_eq hsize.symm)]
    rfl
  | cons e es ih =>
    obtain ⟨⟨hlt, hdecode, -⟩, hes⟩ := h
    rw [width_cons, ← Nat.add_assoc] at hsize
    rw [Function.shapeFrom?, dif_pos hlt, shapeFrom?]
    split
    · rfl
    · split
      · next herror =>
        rw [hdecode] at herror
        cases herror
      · next i next hok =>
        rw [hdecode] at hok
        cases hok
        exact congrArg _ (funext fun s' => ih hes hsize)

/-- What comes after an instruction that is not the last one. -/
lemma Flows.exists_step {at? : Nat → Option Shape} {last : Emission}
    (h : Flows at? (es ++ [last]) s s') (hhas : f.Has k (es ++ [last]))
    (hx : (es ++ [last]).shapeFrom? k s x = some m) :
    ∃ e ∈ es ++ [last], ∃ m', f.HasAt x e ∧ e.instruction.effect m = some m' ∧
      (∀ kind target, e.instruction = .jump kind target → at? target = some m') ∧
      (e = last ∨ (es ++ [last]).shapeFrom? k s (x + e.instruction.width) = some m') := by
  induction es generalizing k s with
  | nil =>
    obtain ⟨m', heffect, hjump, -⟩ := h
    rw [List.nil_append, shapeFrom?] at hx
    split at hx
    · next heq =>
      cases hx
      subst heq
      exact ⟨last, by simp, m', hhas.1, heffect, hjump, .inl rfl⟩
    · obtain ⟨_, -, hx⟩ := Option.bind_eq_some_iff.mp hx
      cases hx
  | cons e es ih =>
    obtain ⟨m', heffect, hjump, h⟩ := h
    have hpos := e.instruction.width_pos
    have hagrees : Agrees (shapeFrom? (e :: es ++ [last]) k s) (e :: es) k s :=
      agrees_shapeFrom? (by simp)
    rw [List.cons_append, shapeFrom?] at hx
    split at hx
    · next heq =>
      cases hx
      subst heq
      exact ⟨e, by simp, m', hhas.1, heffect, hjump, .inr (hagrees.2 m' heffect).head⟩
    · rw [heffect, Option.bind_some] at hx
      obtain ⟨e', he', m'', hat, heffect', hjump', hnext⟩ := ih h hhas.2 hx
      refine ⟨e', List.mem_cons_of_mem e he', m'', hat, heffect', hjump', ?_⟩
      refine hnext.imp_right fun hnext => ?_
      have := lt_of_shapeFrom? hnext
      rw [List.cons_append, shapeFrom?, if_neg (by omega), heffect, Option.bind_some]
      exact hnext

end Emissions

/-! ### Admissible code -/

/-- All of some instructions are admissible. -/
def Emissions.Admissible (o : Operators) (es : Emissions) : Prop :=
  ∀ e ∈ es, e.instruction.Admissible o

lemma Emissions.Admissible.append {es es' : Emissions} (h : es.Admissible o)
    (h' : es'.Admissible o) : (es ++ es').Admissible o :=
  List.forall_mem_append.mpr ⟨h, h'⟩

lemma Emissions.admissible_single {e : Emission} (h : e.instruction.Admissible o) :
    Emissions.Admissible o [e] :=
  List.forall_mem_singleton.mpr h

lemma Emissions.admissible_pair {e e' : Emission} (h : e.instruction.Admissible o)
    (h' : e'.instruction.Admissible o) : Emissions.Admissible o [e, e'] :=
  List.forall_mem_cons.mpr ⟨h, admissible_single h'⟩

namespace Expression

mutual

lemma code_admissible : ∀ {e : Expression} {k : Nat}, e.Admissible o → (e.code k).Admissible o
  | .int _, _, _ => admissible_single trivial
  | .float _, _, _ => admissible_single trivial
  | .string text, _, h => admissible_single (e := ⟨.pushString text, none⟩) h
  | .variable name, _, h =>
    .append (admissible_single (e := ⟨.pushReference name, none⟩) h)
      (admissible_single (e := ⟨.read, none⟩) trivial)
  | .assign _ _, _, ⟨hname, hvalue⟩ => by
    rw [code]
    exact .append (.append (admissible_single hname) (code_admissible hvalue))
      (admissible_single trivial)
  | .unary _ _, _, ⟨hsymbol, hknown, hoperand⟩ => by
    rw [code]
    exact .append (code_admissible hoperand) (admissible_single ⟨hsymbol, hknown⟩)
  | .binary symbol _ _, _, ⟨hsymbol, hknown, hleft, hright⟩ => by
    rw [code]
    dsimp only
    split
    · exact .append (.append (code_admissible hleft)
        (admissible_pair trivial trivial)) (code_admissible hright)
    · exact .append (.append (code_admissible hleft) (code_admissible hright))
        (admissible_single ⟨hsymbol, hknown⟩)
  | .call _ _ _, _, ⟨hname, _, harguments⟩ => by
    rw [code]
    exact .append (codeOfAll_admissible harguments) (admissible_single hname)

lemma codeOfAll_admissible : ∀ {es : List Expression} {k : Nat}, AllAdmissible o es →
    (codeOfAll es k).Admissible o
  | [], _, _ => by simp [codeOfAll, Emissions.Admissible]
  | _ :: _, _, ⟨he, hes⟩ => by
    rw [codeOfAll]
    exact .append (code_admissible he) (codeOfAll_admissible hes)

end

lemma codeOrUndefined_admissible {e? : Option Expression} {k : Nat} (h : OptionAdmissible o e?) :
    (codeOrUndefined e? k).Admissible o := by
  cases e? with
  | none => exact admissible_single trivial
  | some e => exact code_admissible (h e rfl)

end Expression

lemma Emissions.inScope_admissible {es : Emissions} (h : es.Admissible o) :
    es.inScope.Admissible o :=
  .append (.append (admissible_single trivial) h) (admissible_single trivial)

namespace Statement

mutual

lemma code_admissible : ∀ {x : Statement} {k : Nat}, x.Admissible o → (x.code k).Admissible o
  | .declare _ _, _, ⟨hname, hvalue⟩ => by
    rw [code]
    exact .append (Expression.codeOrUndefined_admissible hvalue) (admissible_single hname)
  | .expression _, _, he => by
    rw [code]
    exact .append (Expression.code_admissible he) (admissible_single trivial)
  | .ret _, _, hvalue => by
    rw [code]
    exact .append (Expression.codeOrUndefined_admissible hvalue) (admissible_single trivial)
  | .block _, _, hbody => by
    rw [code]
    exact inScope_admissible (codeOfAll_admissible hbody)
  | .whileLoop _ _, _, ⟨hcondition, hbody⟩ => by
    rw [code]
    exact .append (.append (.append (Expression.code_admissible hcondition)
      (admissible_single trivial)) (inScope_admissible (codeOfAll_admissible hbody)))
      (admissible_single trivial)
  | .ifThen _ _, _, ⟨hcondition, hbody⟩ => by
    rw [code]
    exact .append (.append (Expression.code_admissible hcondition) (admissible_single trivial))
      (inScope_admissible (codeOfAll_admissible hbody))
  | .ifElse _ _ _, _, ⟨hcondition, hbody, halternative⟩ => by
    rw [code]
    exact .append (.append (.append (.append (Expression.code_admissible hcondition)
      (admissible_single trivial)) (inScope_admissible (codeOfAll_admissible hbody)))
      (admissible_single trivial))
      (code_admissible halternative)

lemma codeOfAll_admissible : ∀ {xs : List Statement} {k : Nat}, AllAdmissible o xs →
    (codeOfAll xs k).Admissible o
  | [], _, _ => by simp [codeOfAll, Emissions.Admissible]
  | _ :: _, _, ⟨hx, hxs⟩ => by
    rw [codeOfAll]
    exact .append (code_admissible hx) (codeOfAll_admissible hxs)

end

end Statement

/-! ### Functions -/

section Function

variable {name file : String} {parameters : List String} {body : List Statement}

lemma bodyCode_admissible (h : Statement.AllAdmissible o body) : (bodyCode body).Admissible o :=
  .append (Statement.codeOfAll_admissible h) (admissible_pair trivial trivial)

/-- The code of a function flows from its beginning to its return. -/
lemma bodyCode_flows (h : Statement.AllAdmissible o body) :
    Flows ((bodyCode body).shapeFrom? 0 .empty) (bodyCode body) .empty .empty := by
  have hagrees : Agrees ((bodyCode body).shapeFrom? 0 .empty) (Statement.codeOfAll body 0) 0
      .empty := agrees_shapeFrom? (by simp)
  have hundefined : Flows ((bodyCode body).shapeFrom? 0 .empty) (ofInstructions [.pushUndefined])
      .empty (Shape.empty.push .value) := flows_single rfl (by simp)
  have hret : Flows ((bodyCode body).shapeFrom? 0 .empty) (ofInstructions [.ret])
      (Shape.empty.push .value) .empty := flows_single rfl (by simp)
  exact (Statement.codeOfAll_flows h hagrees).append (hundefined.append hret)

lemma Emissions.Flows.lt_of_jump {at? : Nat → Option Shape} {es : Emissions} {s s' : Shape}
    {size : Nat} (h : Flows at? es s s') (hat : ∀ k m, at? k = some m → k < size) :
    ∀ e ∈ es, ∀ kind target, e.instruction = .jump kind target → target < size := by
  induction es generalizing s with
  | nil => simp
  | cons e es ih =>
    obtain ⟨m, -, hjump, h⟩ := h
    exact List.forall_mem_cons.mpr ⟨fun kind target he => hat _ _ (hjump kind target he), ih h⟩

/-- The whole code of a function of less than 2³¹ bytes stands at its beginning. -/
theorem has_of_admissible (h : Statement.AllAdmissible o body)
    (hsize : (functionOfBody name file parameters body).code.size < 0x80000000) :
    (functionOfBody name file parameters body).Has 0 (bodyCode body) := by
  refine functionOfBody_has fun e he => ?_
  refine (bodyCode_admissible h e he).encodable ?_
  rw [size_functionOfBody] at hsize
  refine (bodyCode_flows h).lt_of_jump (fun k m hk => ?_) e he
  have := lt_of_shapeFrom? hk
  omega

end Function

/-- **The functions of scripts are verified**, if their code has less than 2³¹ bytes. -/
theorem Generated.verified {f : Function} (h : Generated o f) (hsize : f.code.size < 0x80000000) :
    f.Verified o := by
  obtain ⟨name, file, parameters, body, rfl, hbody⟩ := h
  have hhas := has_of_admissible hbody hsize
  have hshape : ∀ k, (functionOfBody name file parameters body).shapeAt? k =
      (bodyCode body).shapeFrom? 0 .empty k := fun k =>
    shapeFrom?_of_has hhas (by rw [Nat.zero_add, size_functionOfBody])
  have hflows := bodyCode_flows hbody
  have hlast : bodyCode body =
      (Statement.codeOfAll body 0 ++ ofInstructions [.pushUndefined]) ++ [⟨.ret, none⟩] := by
    simp [bodyCode]
  constructor
  · rw [hshape]
    have hstart : Agrees ((bodyCode body).shapeFrom? 0 .empty) (Statement.codeOfAll body 0) 0
        .empty := agrees_shapeFrom? (by simp)
    exact hstart.head
  · intro k s hk
    rw [hshape] at hk
    obtain ⟨e, he, m, hat, heffect, hjump, hnext⟩ :=
      Flows.exists_step (hlast ▸ hflows) (hlast ▸ hhas) (hlast ▸ hk)
    refine ⟨e.instruction, _, m, hat.decode, heffect,
      (bodyCode_admissible hbody e (hlast ▸ he)).known, fun target htarget => ?_⟩
    rw [hshape, hlast]
    rcases htarget.cases with ⟨kind, hkind⟩ | ⟨rfl, hret⟩
    · exact hjump kind target hkind
    · exact hnext.resolve_left fun he => hret (by rw [he])

end Script

end Coscript
