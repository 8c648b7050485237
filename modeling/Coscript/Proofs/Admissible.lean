import Coscript.Proofs.Language
import Coscript.Proofs.Meaning
import Coscript.Machine.Execution
import Coscript.Script.Compilation

/-!
# What the code of scripts is generated from

A tree of the language is elaborated to expressions and statements that can be written as code and
understood by the machine: their texts do not hold the character zero, their operators are known,
and no call has more arguments than a byte can count.

* `Script.MeansExpression.admissible`, `Script.MeansStatement.admissible`: what a plain tree means is
  admissible if it is checked;
* `Script.Elaboration.declaration_admissible`: elaborated declarations are admissible;
* `Script.compile_admissible`: the functions of a compiled file are generated from such statements.
-/

namespace Coscript

/-! ### Plain trees -/

namespace Tree

lemma Plain.children {t : Tree} (h : t.Plain) : ∀ c ∈ t.children, c.Plain := by
  cases h with
  | leaf x => simp [Tree.children]
  | node _ hs => exact hs

lemma Plain.child {t u : Tree} (h : t.Plain) {i : Nat} (hu : t.children[i]? = some u) : u.Plain :=
  h.children u (List.mem_of_getElem? hu)

/-- A token whose text may hold zero is the only child of its parent. -/
lemma Plain.zeroFree {t : Tree} (h : t.Plain) {x : Token} (hx : .leaf x ∈ t.children) :
    ZeroFree x.text ∨ t.label = "Primary" ∧ t.children.length = 1 ∧ x.type = .string := by
  cases h with
  | leaf y => cases hx
  | node h _ => exact Classical.or_iff_not_imp_left.mpr (h x hx)

lemma Plain.zeroFree_of_length {t : Tree} (h : t.Plain) {x : Token} (hx : .leaf x ∈ t.children)
    (hlength : t.children.length ≠ 1) : ZeroFree x.text :=
  (h.zeroFree hx).resolve_right fun hp => hlength hp.2.1

lemma Plain.zeroFree_of_label {t : Tree} (h : t.Plain) {i : Nat} {x : Token}
    (hx : t.children[i]? = some (.leaf x)) (hlabel : t.label ≠ "Primary") : ZeroFree x.text :=
  (h.zeroFree (List.mem_of_getElem? hx)).resolve_right fun hp => hlabel hp.1

end Tree

namespace Script

/-! ### Admissible syntax -/

namespace Expression

mutual

/-- The texts of an expression can be written as code, its operators are known, and the arguments
of its calls can be counted by a byte. -/
def Admissible (o : Operators) : Expression → Prop
  | .int _ => True
  | .float _ => True
  | .string text => ZeroFree text
  | .variable name => ZeroFree name
  | .assign name value => ZeroFree name ∧ Admissible o value
  | .unary symbol operand => ZeroFree symbol ∧ (o.unary? symbol).isSome ∧ Admissible o operand
  | .binary symbol left right =>
    ZeroFree symbol ∧ (o.binary? symbol).isSome ∧ Admissible o left ∧ Admissible o right
  | .call name arguments _ =>
    ZeroFree name ∧ arguments.length < 256 ∧ AllAdmissible o arguments

/-- All of some expressions are admissible. -/
def AllAdmissible (o : Operators) : List Expression → Prop
  | [] => True
  | e :: es => Admissible o e ∧ AllAdmissible o es

end

lemma allAdmissible_iff {o : Operators} {es : List Expression} :
    AllAdmissible o es ↔ ∀ e ∈ es, e.Admissible o := by
  induction es with
  | nil => simp [AllAdmissible]
  | cons e es ih => simp [AllAdmissible, ih]

/-- An expression that may be left out is admissible if it is there. -/
def OptionAdmissible (o : Operators) (e? : Option Expression) : Prop := ∀ e ∈ e?, e.Admissible o

end Expression

namespace Statement

mutual

/-- The expressions of a statement are admissible, and so are the names that it declares. -/
def Admissible (o : Operators) : Statement → Prop
  | .declare name value? => ZeroFree name ∧ Expression.OptionAdmissible o value?
  | .expression e => e.Admissible o
  | .ret value? => Expression.OptionAdmissible o value?
  | .block body => AllAdmissible o body
  | .whileLoop condition body => condition.Admissible o ∧ AllAdmissible o body
  | .ifThen condition body => condition.Admissible o ∧ AllAdmissible o body
  | .ifElse condition body alternative =>
    condition.Admissible o ∧ AllAdmissible o body ∧ Admissible o alternative

/-- All of some statements are admissible. -/
def AllAdmissible (o : Operators) : List Statement → Prop
  | [] => True
  | s :: ss => Admissible o s ∧ AllAdmissible o ss

end

lemma allAdmissible_iff {o : Operators} {ss : List Statement} :
    AllAdmissible o ss ↔ ∀ s ∈ ss, s.Admissible o := by
  induction ss with
  | nil => simp [AllAdmissible]
  | cons s ss ih => simp [AllAdmissible, ih]

end Statement

namespace Elaboration

variable {o : Operators}

/-! ### Items of lists -/

/-- The leaves among some trees hold no zero. -/
def LeavesZeroFree (ts : List Tree) : Prop := ∀ x, .leaf x ∈ ts → ZeroFree x.text

mutual

/-- The items that continue a list are plain, and its leaves hold no zero. -/
lemma items_plain {tails : List String} (htails : "Primary" ∉ tails) : ∀ {t : Tree}, t.Plain →
    LeavesZeroFree t.children → (∀ c ∈ items tails t, c.Plain) ∧ LeavesZeroFree (items tails t)
  | .leaf _, _, _ => by simp [items, LeavesZeroFree]
  | .node _ cs, h, hleaves => by
    rw [items]
    exact itemsOfAll_plain htails h.children hleaves

/-- The items in plain children are plain, and hold no zero if the children do not. -/
lemma itemsOfAll_plain {tails : List String} (htails : "Primary" ∉ tails) : ∀ {cs : List Tree},
    (∀ c ∈ cs, c.Plain) → LeavesZeroFree cs →
      (∀ c ∈ itemsOfAll tails cs, c.Plain) ∧ LeavesZeroFree (itemsOfAll tails cs)
  | [], _, _ => by simp [itemsOfAll, LeavesZeroFree]
  | c :: cs, h, hleaves => by
    obtain ⟨hc, hcs⟩ := List.forall_mem_cons.mp h
    have htail := itemsOfAll_plain htails hcs fun x hx => hleaves x (by simp [hx])
    have hhead : (∀ d ∈ (if isTail tails c then items tails c
          else if isSeparator c then [] else [c]), d.Plain) ∧
        LeavesZeroFree (if isTail tails c then items tails c
          else if isSeparator c then [] else [c]) := by
      by_cases hname : isTail tails c = true
      · rw [if_pos hname]
        refine items_plain htails hc fun x hx => (hc.zeroFree hx).resolve_right ?_
        rintro ⟨hprimary, -⟩
        cases c with
        | leaf => cases hname
        | node name ds =>
          rw [isTail, List.contains_iff_mem] at hname
          exact htails (hprimary ▸ hname)
      · rw [if_neg hname]
        split
        · simp [LeavesZeroFree]
        · refine ⟨by simpa using hc, fun x hx => hleaves x ?_⟩
          rw [List.mem_singleton.mp hx]
          exact List.mem_cons_self
    rw [itemsOfAll]
    constructor
    · intro d hd
      rcases List.mem_append.mp hd with hd | hd
      · exact hhead.1 d hd
      · exact htail.1 d hd
    · intro x hx
      rcases List.mem_append.mp hx with hx | hx
      · exact hhead.2 x hx
      · exact htail.2 x hx

end

/-- The items of a plain list are plain, and where it has several of them, the leaves behind the
first one hold no zero. -/
lemma items_of_plain {tails : List String} (htails : "Primary" ∉ tails) {t : Tree} (ht : t.Plain) :
    (∀ c ∈ items tails t, c.Plain) ∧ LeavesZeroFree (items tails t).tail := by
  by_cases hleaves : LeavesZeroFree t.children
  · obtain ⟨hplain, hfree⟩ := items_plain htails ht hleaves
    exact ⟨hplain, fun x hx => hfree x (List.mem_of_mem_tail hx)⟩
  · obtain ⟨x, hx, hzero⟩ : ∃ x, .leaf x ∈ t.children ∧ ¬ ZeroFree x.text := by
      simpa [LeavesZeroFree] using hleaves
    obtain ⟨-, hlength, -⟩ := (ht.zeroFree hx).resolve_left hzero
    obtain ⟨y, hy⟩ := List.length_eq_one_iff.mp hlength
    rw [hy, List.mem_singleton] at hx
    subst hx
    cases t with
    | leaf => cases hy
    | node name cs =>
      rw [show cs = [.leaf x] from hy, items, itemsOfAll, itemsOfAll, isTail, List.append_nil]
      simp only [Bool.false_eq_true, if_false]
      split
      · simp [LeavesZeroFree]
      · exact ⟨by simpa using Tree.Plain.leaf x, by simp [LeavesZeroFree]⟩

/-! ### Constants and operators -/

lemma constant_admissible {x : Token} (hx : x.type ≠ .string → ZeroFree x.text) {e : Expression}
    (h : constant x = .ok e) : e.Admissible o := by
  unfold constant at h
  split at h
  · next htype =>
    cases h
    exact hx (by simp [htype])
  · dsimp only at h
    split at h
    · cases h
      trivial
    · cases h
  · cases h
    trivial
  · split at h
    · cases h
    · next hzero =>
      cases h
      simpa [Expression.Admissible, ZeroFree] using hzero
  · cases h

/-- The expression of a tree of operands is admissible if its operators and its operands are. -/
lemma ofOperands_admissible {tree : OperandTree String Expression}
    (hfirst : tree.first.Admissible o)
    (hrest : ∀ x ∈ tree.rest, (ZeroFree x.1 ∧ (o.binary? x.1).isSome) ∧ x.2.Admissible o) :
    (ofOperands tree).Admissible o := by
  induction tree with
  | leaf e => exact hfirst
  | node symbol left right ihl ihr =>
    rw [OperandTree.rest, List.forall_mem_append, List.forall_mem_cons] at hrest
    obtain ⟨hleft, ⟨⟨hsymbol, hknown⟩, hmiddle⟩, hright⟩ := hrest
    exact ⟨hsymbol, hknown, ihl hfirst hleft, ihr hmiddle hright⟩

end Elaboration

/-! ### What plain trees mean -/

section

open Elaboration

variable {o : Operators}

mutual

/-- **What a plain tree means is admissible**, if it is checked. -/
theorem MeansExpression.admissible : ∀ {t : Tree} {e : Expression}, MeansExpression o t e →
    t.Plain → e.Checked o → e.Admissible o
  | _, _, .assign ht hvalue, hplain, hchecked =>
    ⟨hplain.zeroFree_of_length (by simp [ht]) (by simp [ht]),
      hvalue.admissible (hplain.children _ (by simp [ht])) hchecked⟩
  | _, _, .operators ht hsequence _, hplain, hchecked => by
    obtain ⟨hfirst, hrest⟩ := ofOperands_checked_iff.mp hchecked
    have hplain := hplain.child (congrArg (·[0]?) ht)
    obtain ⟨hitems, hleaves⟩ := items_of_plain (show "Primary" ∉ ["BinaryTail"] by decide) hplain
    obtain ⟨hfirst, hrest⟩ := hsequence.admissible hitems hleaves hfirst hrest
    exact ofOperands_admissible hfirst hrest
termination_by structural _ _ h => h

theorem MeansSequence.admissible : ∀ {ts : List Tree} {e : Expression}
    {rest : List (String × Expression)}, MeansSequence o ts e rest → (∀ t ∈ ts, t.Plain) →
    LeavesZeroFree ts.tail → e.Checked o →
    (∀ x ∈ rest, (o.binary? x.1).isSome ∧ x.2.Checked o) →
    e.Admissible o ∧ ∀ x ∈ rest, (ZeroFree x.1 ∧ (o.binary? x.1).isSome) ∧ x.2.Admissible o
  | _, _, _, .last h, hplain, _, hfirst, _ => ⟨h.admissible (hplain _ (by simp)) hfirst, by simp⟩
  | _, _, _, .more h hrest, hplain, hleaves, hfirst, hchecked => by
    obtain ⟨⟨hknown, hnext⟩, hchecked⟩ := List.forall_mem_cons.mp hchecked
    obtain ⟨hnext, hrest⟩ := hrest.admissible (fun t ht => hplain t (by simp [ht]))
      (fun x hx => hleaves x (by simp [List.mem_of_mem_tail hx])) hnext hchecked
    refine ⟨h.admissible (hplain _ (by simp)) hfirst, List.forall_mem_cons.mpr ⟨?_, hrest⟩⟩
    exact ⟨⟨hleaves _ (by simp), hknown⟩, hnext⟩
termination_by structural _ _ _ h => h

theorem MeansUnary.admissible : ∀ {t : Tree} {e : Expression}, MeansUnary o t e → t.Plain →
    e.Checked o → e.Admissible o
  | _, _, .unary ht h, hplain, hchecked =>
    ⟨hplain.zeroFree_of_length (by simp [ht]) (by simp [ht]), hchecked.1,
      h.admissible (hplain.children _ (by simp [ht])) hchecked.2⟩
  | _, _, .primary ht h, hplain, hchecked =>
    h.admissible (hplain.children _ (by simp [ht])) hchecked
termination_by structural _ _ h => h

theorem MeansPrimary.admissible : ∀ {t : Tree} {e : Expression}, MeansPrimary o t e → t.Plain →
    e.Checked o → e.Admissible o
  | _, _, .constant ht h, hplain, _ =>
    constant_admissible (fun hstring =>
      (hplain.zeroFree (by simp [ht])).resolve_right fun hp => hstring hp.2.2) h
  | _, _, .parentheses ht h, hplain, hchecked =>
    h.admissible (hplain.children _ (by simp [ht])) hchecked
  | _, _, .call ht h, hplain, hchecked => by
    have harguments := hplain.child (congrArg (·[2]?) ht)
    exact ⟨hplain.zeroFree_of_length (by simp [ht]) (by simp [ht]), hchecked.1,
      h.admissible (items_of_plain (by decide) harguments).1 hchecked.2⟩
termination_by structural _ _ h => h

theorem MeansArguments.admissible : ∀ {ts : List Tree} {es : List Expression},
    MeansArguments o ts es → (∀ t ∈ ts, t.Plain) → Expression.AllChecked o es →
    Expression.AllAdmissible o es
  | _, _, .nil, _, _ => trivial
  | _, _, .cons h hs, hplain, hchecked =>
    ⟨h.admissible (hplain _ (by simp)) hchecked.1,
      hs.admissible (fun t ht => hplain t (by simp [ht])) hchecked.2⟩
termination_by structural _ _ h => h

end

mutual

/-- **What a plain tree means is admissible**, if it is checked. -/
theorem MeansStatement.admissible : ∀ {t : Tree} {s : Statement}, MeansStatement o t s →
    t.Plain → s.Checked o → s.Admissible o
  | _, _, .intro ht h, hplain, hchecked => h.admissible (hplain.child ht) hchecked
termination_by structural _ _ h => h

theorem MeansForm.admissible : ∀ {t : Tree} {s : Statement}, MeansForm o t s → t.Plain →
    s.Checked o → s.Admissible o
  | _, _, .declare hlabel hname ht hvalue, hplain, hchecked => by
    refine ⟨hplain.zeroFree_of_label hname (by simp [hlabel]), ?_⟩
    rintro _ ⟨⟩
    exact hvalue.admissible (hplain.children _ (by simp [ht])) (hchecked _ rfl)
  | _, _, .declareUndefined hlabel hname _, hplain, _ =>
    ⟨hplain.zeroFree_of_label hname (by simp [hlabel]), by simp [Expression.OptionAdmissible]⟩
  | _, _, .ifStatement _ h, hplain, hchecked => h.admissible hplain hchecked
  | _, _, .whileLoop _ hcondition hbody he hss, hplain, hchecked =>
    ⟨he.admissible (hplain.child hcondition) hchecked.1,
      hss.admissible (hplain.child hbody) hchecked.2⟩
  | _, _, .ret _ ht hvalue, hplain, hchecked => by
    rintro _ ⟨⟩
    exact hvalue.admissible (hplain.children _ (by simp [ht])) (hchecked _ rfl)
  | _, _, .retUndefined _ _, _, _ => by simp [Statement.Admissible, Expression.OptionAdmissible]
  | _, _, .expression _ hchild he, hplain, hchecked => he.admissible (hplain.child hchild) hchecked
  | _, _, .block _ hss, hplain, hchecked => hss.admissible hplain hchecked
termination_by structural _ _ h => h

theorem MeansBlock.admissible : ∀ {t : Tree} {ss : List Statement}, MeansBlock o t ss → t.Plain →
    Statement.AllChecked o ss → Statement.AllAdmissible o ss
  | _, _, .intro hbody h, hplain, hchecked =>
    h.admissible (items_of_plain (by decide) (hplain.child hbody)).1 hchecked
termination_by structural _ _ h => h

theorem MeansStatements.admissible : ∀ {ts : List Tree} {ss : List Statement},
    MeansStatements o ts ss → (∀ t ∈ ts, t.Plain) → Statement.AllChecked o ss →
    Statement.AllAdmissible o ss
  | _, _, .nil, _, _ => trivial
  | _, _, .cons h hs, hplain, hchecked =>
    ⟨h.admissible (hplain _ (by simp)) hchecked.1,
      hs.admissible (fun t ht => hplain t (by simp [ht])) hchecked.2⟩
termination_by structural _ _ h => h

theorem MeansIf.admissible : ∀ {t : Tree} {s : Statement}, MeansIf o t s → t.Plain →
    s.Checked o → s.Admissible o
  | _, _, .intro hcondition hbody halternative he hss hs, hplain, hchecked =>
    hs.admissible (hplain.child halternative) hchecked
      (fun h => he.admissible (hplain.child hcondition) h)
      (fun h => hss.admissible (hplain.child hbody) h)
termination_by structural _ _ h => h

/-- A condition and what is done if it is true are admissible together with the alternative. -/
theorem MeansElse.admissible : ∀ {e : Expression} {ss : List Statement} {t : Tree} {s : Statement},
    MeansElse o e ss t s → t.Plain → s.Checked o → (e.Checked o → e.Admissible o) →
    (Statement.AllChecked o ss → Statement.AllAdmissible o ss) → s.Admissible o
  | _, _, _, _, .ifThen _, _, hchecked, he, hss => ⟨he hchecked.1, hss hchecked.2⟩
  | _, _, _, _, .elseIf ht _ hs, hplain, hchecked, he, hss =>
    ⟨he hchecked.1, hss hchecked.2.1,
      hs.admissible (hplain.children _ (by simp [ht])) hchecked.2.2⟩
  | _, _, _, _, .elseBlock ht _ hss', hplain, hchecked, he, hss =>
    ⟨he hchecked.1, hss hchecked.2.1,
      hss'.admissible (hplain.children _ (by simp [ht])) hchecked.2.2⟩
termination_by structural _ _ _ _ h => h

end

/-- The statements in a declaration are admissible. -/
def Declaration.Admissible (o : Operators) : Declaration → Prop
  | .function d => Statement.AllAdmissible o d.body
  | .statement s => s.Admissible o

lemma MeansDeclaration.admissible {t : Tree} {d : Declaration} (h : MeansDeclaration o t d)
    (hplain : t.Plain) (hchecked : d.Checked o) : d.Admissible o := by
  cases h with
  | function ht _ _ _ _ hbody hss =>
    exact hss.admissible ((hplain.child ht).child hbody) hchecked
  | statement ht _ hs => exact hs.admissible (hplain.child ht) hchecked

/-- **Elaborated declarations are admissible.** -/
lemma Elaboration.declaration_admissible {t : Tree} (ht : t.Plain) {d : Declaration}
    (h : declaration o t = .ok d) : d.Admissible o :=
  (declaration_means h).1.admissible ht (declaration_means h).2

end

/-! ### Compiled files -/

/-- A function that is generated from admissible statements. -/
def Generated (o : Operators) (f : Function) : Prop :=
  ∃ name file parameters body, f = functionOfBody name file parameters body ∧
    Statement.AllAdmissible o body

end Script

/-- A function stands in a file, as one that it defines or as its initializer. -/
def CompiledFile.Holds (c : CompiledFile) (f : Function) : Prop :=
  (∃ name, c.functions.get? name = some f) ∨ f = c.initializer

/-- The code of a file has less than 2³¹ bytes in each function. -/
def CompiledFile.Small (c : CompiledFile) : Prop := ∀ f, c.Holds f → f.code.size < 0x80000000

namespace Script

variable {o : Operators} {file : String}

/-- What has been compiled is generated from admissible statements. -/
structure Draft.Admissible (o : Operators) (d : Draft) : Prop where
  functions : ∀ name f, d.functions.get? name = some f → Generated o f
  statements : Statement.AllAdmissible o d.statements

lemma Draft.addAll_admissible {ts : List Tree} (hts : ∀ t ∈ ts, t.Plain) {j : Journal}
    {d d' : Draft} (hd : d.Admissible o) (h : (Draft.addAll o file ts j d).2 = .ok d') :
    d'.Admissible o := by
  induction ts generalizing j d with
  | nil =>
    cases h
    exact hd
  | cons t ts ih =>
    obtain ⟨ht, hts⟩ := List.forall_mem_cons.mp hts
    rw [Draft.addAll] at h
    split at h
    · cases h
    · next s hs =>
      have hd' : Draft.Admissible o { d with statements := s :: d.statements } :=
        ⟨hd.functions, Statement.allAdmissible_iff.mpr (List.forall_mem_cons.mpr
          ⟨Elaboration.declaration_admissible ht hs,
            Statement.allAdmissible_iff.mp hd.statements⟩)⟩
      exact ih hts hd' h
    · next f hf =>
      have hbody := Elaboration.declaration_admissible ht hf
      dsimp only at h
      split at h
      · cases h
      · next d₁ hd₁ =>
        unfold Draft.addFunction at hd₁
        split at hd₁
        · cases hd₁
        · cases hd₁
          refine ih hts ?_ h
          constructor
          · intro name g hg
            rw [OrderedMap.get?_insert] at hg
            split at hg
            · cases hg
              exact ⟨_, _, _, _, rfl, hbody⟩
            · exact hd.functions name g hg
          · exact hd.statements

/-- A file is compiled from the tree of its tokens. -/
lemma compile_eq_ok {fuel : Nat} {t : ParsingTable} {source : String} {j j' : Journal}
    {c : CompiledFile} (h : compile fuel t o file source j = some (j', .ok c)) :
    ∃ tokens tree, Lexer.tokenize .script source = .ok tokens ∧
      t.parse fuel tokens = some (.ok tree) ∧ ∃ j, (compileTree o file tree j).2 = .ok c := by
  unfold compile at h
  split at h
  · cases h
  · next tokens htokens =>
    dsimp only at h
    split at h
    · cases h
    · cases h
    · next tree htree =>
      exact ⟨tokens, tree, htokens, htree, _, congrArg Prod.snd (Option.some.inj h)⟩

/-- A tree is compiled declaration by declaration. -/
lemma compileTree_eq_ok {tree : Tree} {j : Journal} {c : CompiledFile}
    (h : (compileTree o file tree j).2 = .ok c) :
    ∃ ts d, Elaboration.declarations tree = .ok ts ∧
      (Draft.addAll o file ts j .empty).2 = .ok d ∧ c = d.finish file := by
  unfold compileTree at h
  split at h
  · cases h
  · next ts hts =>
    dsimp only at h
    cases hd : (Draft.addAll o file ts j .empty).2 with
    | error e =>
      rw [hd] at h
      cases h
    | ok d =>
      rw [hd] at h
      cases h
      exact ⟨ts, d, hts, hd, rfl⟩

/-- The declarations in a plain tree are plain. -/
lemma plain_of_declarations {tree : Tree} (hplain : tree.Plain) {ts : List Tree}
    (hts : Elaboration.declarations tree = .ok ts) : ∀ t ∈ ts, t.Plain := by
  obtain ⟨whole, hwhole, hts⟩ := bind_eq_ok_iff.mp hts
  cases hts
  exact (Elaboration.items_of_plain (by decide) (hplain.child (Elaboration.child_eq_ok hwhole))).1

/-- **The functions of a compiled file are generated from admissible statements.** -/
theorem compile_admissible {strategy : Strategy} {j₀ j j' : Journal} {t : ParsingTable}
    (ht : (constructTable strategy j₀).2 = .ok t) {fuel : Nat} {source : String}
    {c : CompiledFile} (h : compile fuel t o file source j = some (j', .ok c)) :
    ∀ f, c.Holds f → Generated o f := by
  obtain ⟨tokens, tree, htokens, htree, j₁, hcompile⟩ := compile_eq_ok h
  obtain ⟨ts, d, hts, hadd, rfl⟩ := compileTree_eq_ok hcompile
  have hempty : Draft.empty.Admissible o := by
    constructor
    · intro _ _ hf
      cases hf
    · trivial
  have hd : d.Admissible o :=
    Draft.addAll_admissible (plain_of_declarations (plain_of_parse ht htokens htree) hts) hempty
      hadd
  rintro f (⟨name, hf⟩ | rfl)
  · exact hd.functions name f hf
  · refine ⟨_, _, _, _, rfl, Statement.allAdmissible_iff.mpr fun s hs => ?_⟩
    exact Statement.allAdmissible_iff.mp hd.statements s (List.mem_reverse.mp hs)

/-! ### A script -/

/-- A recursive function, and a call of it. -/
def exampleSource : String := "function f(n) { return n && f(n - 1); } x = f(2);"

/-- The natives of the example. -/
def exampleNatives : Natives := .ofList [("print", .print)]

/-- Whether the statements of a file end with the undefined value, where it is the first file that
is loaded. -/
def runsExample (c : CompiledFile) : Bool :=
  let (r, w, file) := (Registry.start .standard exampleNatives).load (.empty none) c
  match (Execution.initializer file).run 1000 r w with
  | some (_, _, report) => report = .done .undefined
  | none => false

/-- Whether the example compiles by a table, to functions that are not large and run to their
end. -/
def compilesExample (t : ParsingTable) : Bool :=
  match compile 1000 t .standard "main" exampleSource (.empty none) with
  | some (_, .ok c) =>
    c.functions.values.all (fun f => f.code.size < 0x80000000) &&
      c.initializer.code.size < 0x80000000 && runsExample c
  | _ => false

/-- Whether a grammar has a table without lookaheads that the example compiles by. -/
def readsExample : Except GrammarError Grammar → Bool
  | .error _ => false
  | .ok g =>
    match Strategy.simple.build g with
    | .error _ => false
    | .ok t => compilesExample t

lemma exists_of_compilesExample {t : ParsingTable} (h : compilesExample t = true) :
    ∃ j c, compile 1000 t .standard "main" exampleSource (.empty none) = some (j, .ok c) ∧
      c.Small ∧ runsExample c = true := by
  unfold compilesExample at h
  split at h
  · next j c hcompile =>
    obtain ⟨h, hruns⟩ := Bool.and_eq_true_iff.mp h
    refine ⟨j, c, hcompile, ?_, hruns⟩
    obtain ⟨hfunctions, hinitializer⟩ := Bool.and_eq_true_iff.mp h
    rintro f (⟨name, hf⟩ | rfl)
    · refine of_decide_eq_true (List.all_eq_true.mp hfunctions f ?_)
      exact List.mem_map.mpr ⟨(name, f), OrderedMap.mem_entries_iff.mpr hf, rfl⟩
    · exact of_decide_eq_true hinitializer
  · cases h

lemma exists_of_readsExample {found : Except GrammarError Grammar}
    (h : readsExample found = true) :
    ∃ g t, found = .ok g ∧ Strategy.simple.build g = .ok t ∧ compilesExample t = true := by
  cases found with
  | error e => cases h
  | ok g =>
    rw [readsExample] at h
    split at h
    · cases h
    · next t ht => exact ⟨g, t, rfl, ht, h⟩

lemma exists_compiled_of_reads (h : readsExample grammar = true) :
    ∃ t j c, (constructTable .simple (.empty none)).2 = .ok t ∧
      compile 1000 t .standard "main" exampleSource (.empty none) = some (j, .ok c) ∧
        c.Small ∧ runsExample c = true := by
  obtain ⟨g, t, hg, ht, hcompiles⟩ := exists_of_readsExample h
  obtain ⟨j, c, hcompile, hsmall, hruns⟩ := exists_of_compilesExample hcompiles
  refine ⟨t, j, c, ?_, hcompile, hsmall, hruns⟩
  rw [constructTable, hg]
  exact constructTableOf_eq_ok _ ht

lemma readsExample_grammar : readsExample grammar = true := by
  rw [grammar_eq_build]
  decide +kernel

/-- The example compiles by a table of the language, and runs to its end. -/
theorem exists_compiled_runs : ∃ t j c, (constructTable .simple (.empty none)).2 = .ok t ∧
    compile 1000 t .standard "main" exampleSource (.empty none) = some (j, .ok c) ∧ c.Small ∧
      runsExample c = true :=
  exists_compiled_of_reads readsExample_grammar

/-- The example compiles by a table of the language. -/
theorem exists_compiled : ∃ t j c, (constructTable .simple (.empty none)).2 = .ok t ∧
    compile 1000 t .standard "main" exampleSource (.empty none) = some (j, .ok c) ∧ c.Small := by
  obtain ⟨t, j, c, ht, hcompile, hsmall, -⟩ := exists_compiled_runs
  exact ⟨t, j, c, ht, hcompile, hsmall⟩

end Script

end Coscript
