import Coscript.Proofs.Documents

/-!
# Productions grouped by name

A stored grammar lists the productions name by name: the names come in the order of their first
productions, and the productions of each name keep their order. Where the productions of a name
were apart, they come together, so that productions change their places; nothing else changes.

* `Production.grouped`: productions, grouped by name;
* `Production.grouped_perm`: they are the same ones in another order;
* `Production.nameOrder_grouped`, `Production.withName_grouped`: names are in the same order, and so
  are the productions of each name;
* `Production.grouped_of_contiguous`: nothing moves if no name is interrupted by another one;
* `Grammar.names_eq`, `Grammar.rulesOf_eq`: the index of a grammar is these two lists.
-/

namespace Coscript

/-! ### Lists of productions -/

namespace Production

/-- The names that have productions, in the order of their first production. -/
def nameOrder (ps : List Production) : List String := (ps.map Production.name).eraseDups

/-- The productions of a name, in their order. -/
def withName (a : String) (ps : List Production) : List Production := ps.filter fun p => p.name = a

/-- The productions name by name. -/
def grouped (ps : List Production) : List Production :=
  (nameOrder ps).flatMap fun a => withName a ps

/-- No name is interrupted by another one: what is between two productions of a name is of this
name. -/
def Contiguous (ps : List Production) : Prop :=
  ∀ p q r, [p, q, r].Sublist ps → p.name = r.name → q.name = p.name

lemma mem_nameOrder {a : String} {ps : List Production} :
    a ∈ nameOrder ps ↔ ∃ p ∈ ps, p.name = a := by
  rw [nameOrder, List.mem_eraseDups, List.mem_map]

lemma mem_withName {a : String} {ps : List Production} {p : Production} :
    p ∈ withName a ps ↔ p ∈ ps ∧ p.name = a := by
  simp [withName]

lemma nodup_eraseDups : (as : List String) → as.eraseDups.Nodup
  | [] => List.nodup_nil
  | a :: as => by
    rw [List.eraseDups_cons, List.nodup_cons]
    refine ⟨fun hmem => ?_, nodup_eraseDups _⟩
    simp at hmem
termination_by as => as.length
decreasing_by exact Nat.lt_succ_of_le (List.length_filter_le _ _)

lemma nodup_nameOrder (ps : List Production) : (nameOrder ps).Nodup := nodup_eraseDups _

lemma withName_ne_nil {a : String} {ps : List Production} (h : a ∈ nameOrder ps) :
    withName a ps ≠ [] := by
  obtain ⟨p, hp, hname⟩ := mem_nameOrder.mp h
  exact List.ne_nil_of_mem (mem_withName.mpr ⟨hp, hname⟩)

/-- Behind a production come the other names that have productions. -/
lemma nameOrder_cons (p : Production) (ps : List Production) :
    nameOrder (p :: ps) = p.name :: nameOrder (ps.filter fun q => q.name ≠ p.name) := by
  rw [nameOrder, List.map_cons, List.eraseDups_cons, nameOrder, List.filter_map]
  congr 4
  funext q
  simp [← Bool.beq_eq_decide_eq]

/-! ### Lists that are put together name by name -/

section Together

variable {f : String → List Production}

/-- The productions of a name are those that it was given. -/
lemma withName_flatMap (hf : ∀ a, ∀ p ∈ f a, p.name = a) {names : List String}
    (hnodup : names.Nodup) (a : String) :
    withName a (names.flatMap f) = if a ∈ names then f a else [] := by
  induction names with
  | nil => rfl
  | cons b names ih =>
    obtain ⟨hb, hnodup⟩ := List.nodup_cons.mp hnodup
    have hhead : withName a (f b) = if b = a then f b else [] := by
      split
      · next h =>
        subst h
        exact List.filter_eq_self.mpr fun p hp => by simpa using hf b p hp
      · next h =>
        refine List.filter_eq_nil_iff.mpr fun p hp => ?_
        simpa [hf b p hp] using h
    rw [List.flatMap_cons, withName, List.filter_append]
    change withName a (f b) ++ withName a (names.flatMap f) = _
    rw [hhead, ih hnodup]
    by_cases h : b = a
    · subst h
      simp [hb]
    · simp [h, Ne.symm h]

/-- The names are those that were given productions. -/
lemma nameOrder_flatMap (hf : ∀ a, ∀ p ∈ f a, p.name = a) {names : List String}
    (hnodup : names.Nodup) (hne : ∀ a ∈ names, f a ≠ []) : nameOrder (names.flatMap f) = names := by
  induction names with
  | nil => rfl
  | cons a names ih =>
    obtain ⟨ha, hnodup⟩ := List.nodup_cons.mp hnodup
    obtain ⟨p, ps, hps⟩ := List.exists_cons_of_ne_nil (hne a List.mem_cons_self)
    have hname : ∀ q ∈ p :: ps, q.name = a := fun q hq => hf a q (hps ▸ hq)
    have hp : p.name = a := hname p List.mem_cons_self
    have hhead : ps.filter (fun q => q.name ≠ a) = [] := by
      refine List.filter_eq_nil_iff.mpr fun q hq => ?_
      simpa using hname q (List.mem_cons_of_mem p hq)
    have htail : (names.flatMap f).filter (fun q => q.name ≠ a) = names.flatMap f := by
      refine List.filter_eq_self.mpr fun q hq => ?_
      obtain ⟨b, hb, hq⟩ := List.mem_flatMap.mp hq
      rw [hf b q hq, decide_eq_true_eq]
      rintro rfl
      exact ha hb
    rw [List.flatMap_cons, hps, List.cons_append, nameOrder_cons, hp, List.filter_append, hhead,
      htail, List.nil_append, ih hnodup fun b hb => hne b (List.mem_cons_of_mem a hb)]

end Together

/-! ### Grouping -/

/-- **Grouping keeps the order of the names.** -/
theorem nameOrder_grouped (ps : List Production) : nameOrder (grouped ps) = nameOrder ps :=
  nameOrder_flatMap (fun _ _ hp => (mem_withName.mp hp).2) (nodup_nameOrder ps)
    fun _ ha => withName_ne_nil ha

/-- **Grouping keeps the order of the productions of each name.** -/
theorem withName_grouped (ps : List Production) (a : String) :
    withName a (grouped ps) = withName a ps := by
  rw [grouped, withName_flatMap (fun _ _ hp => (mem_withName.mp hp).2) (nodup_nameOrder ps)]
  split
  · rfl
  · next h =>
    refine (List.filter_eq_nil_iff.mpr fun p hp hname => h ?_).symm
    exact mem_nameOrder.mpr ⟨p, hp, by simpa using hname⟩

/-- Grouping again changes nothing. -/
theorem grouped_grouped (ps : List Production) : grouped (grouped ps) = grouped ps := by
  simp only [grouped.eq_1 (grouped ps), nameOrder_grouped, withName_grouped]
  rfl

/-- The productions of the first name come first. -/
lemma grouped_cons (p : Production) (ps : List Production) :
    grouped (p :: ps) =
      p :: withName p.name ps ++ grouped (ps.filter fun q => q.name ≠ p.name) := by
  have htail : ∀ a ∈ nameOrder (ps.filter fun q => q.name ≠ p.name),
      withName a (p :: ps) = withName a (ps.filter fun q => q.name ≠ p.name) := by
    intro a ha
    obtain ⟨q, hq, rfl⟩ := mem_nameOrder.mp ha
    have hne : q.name ≠ p.name := by simpa using (List.mem_filter.mp hq).2
    rw [withName, List.filter_cons_of_neg (by simpa using Ne.symm hne), withName,
      List.filter_filter]
    refine List.filter_congr fun r _ => ?_
    by_cases hr : r.name = q.name
    · simp [hr, hne]
    · simp [hr]
  rw [grouped, nameOrder_cons, List.flatMap_cons, List.flatMap_congr htail]
  simp [withName, grouped]

/-- **Grouping only moves productions.** -/
theorem grouped_perm : (ps : List Production) → (grouped ps).Perm ps
  | [] => .nil
  | p :: ps => by
    rw [grouped_cons, List.cons_append]
    refine .cons p (((grouped_perm _).append_left _).trans ?_)
    simpa [withName] using List.filter_append_perm (fun q : Production => q.name = p.name) ps
termination_by ps => ps.length
decreasing_by exact Nat.lt_succ_of_le (List.length_filter_le _ _)

lemma Contiguous.sublist {ps qs : List Production} (h : Contiguous qs) (hsub : ps.Sublist qs) :
    Contiguous ps := fun p q r hpqr => h p q r (hpqr.trans hsub)

/-- Behind a production, those of its name come before the others. -/
lemma Contiguous.split {p : Production} {ps : List Production} (h : Contiguous (p :: ps)) :
    withName p.name ps ++ ps.filter (fun q => q.name ≠ p.name) = ps := by
  induction ps with
  | nil => rfl
  | cons q ps ih =>
    have htail : Contiguous (p :: ps) := h.sublist (.cons_cons p (List.sublist_cons_self q ps))
    by_cases hq : q.name = p.name
    · rw [withName, List.filter_cons_of_pos (by simpa using hq),
        List.filter_cons_of_neg (by simpa using hq), List.cons_append]
      exact congrArg (q :: ·) (ih htail)
    · -- No production of the name can follow `q`.
      have hnone : ∀ r ∈ ps, r.name ≠ p.name := fun r hr hname =>
        hq (h p q r (.cons_cons p (.cons_cons q (List.singleton_sublist.mpr hr))) hname.symm)
      have hall : ∀ r ∈ q :: ps, r.name ≠ p.name := List.forall_mem_cons.mpr ⟨hq, hnone⟩
      rw [withName, List.filter_eq_nil_iff.mpr fun r hr => by simpa using hall r hr,
        List.filter_eq_self.mpr fun r hr => by simpa using hall r hr, List.nil_append]

/-- **Nothing moves if no name is interrupted.** -/
theorem grouped_of_contiguous : (ps : List Production) → Contiguous ps → grouped ps = ps
  | [], _ => rfl
  | p :: ps, h => by
    have hrest : Contiguous (ps.filter fun q => q.name ≠ p.name) :=
      h.sublist (List.filter_sublist.trans (List.sublist_cons_self p ps))
    rw [grouped_cons, grouped_of_contiguous _ hrest, List.cons_append, h.split]
termination_by ps => ps.length
decreasing_by exact Nat.lt_succ_of_le (List.length_filter_le _ _)

end Production

/-! ### The index of a grammar -/

namespace Grammar

open Production

/-- Enters the place of a production under its name. -/
def enter (m : OrderedMap String (List Nat)) (e : Production × Nat) :
    OrderedMap String (List Nat) :=
  m.insert e.1.name ((m.get? e.1.name).getD [] ++ [e.2])

lemma indexOf_eq (productions : Array Production) :
    indexOf productions = productions.toList.zipIdx.foldl enter ∅ := rfl

lemma get?_foldl_enter (es : List (Production × Nat)) (m : OrderedMap String (List Nat))
    (a : String) : ((es.foldl enter m).get? a).getD [] =
      (m.get? a).getD [] ++ (es.filter fun e => e.1.name = a).map Prod.snd := by
  induction es generalizing m with
  | nil => simp
  | cons e es ih =>
    rw [List.foldl_cons, ih, enter, OrderedMap.get?_insert]
    by_cases h : e.1.name = a
    · subst h
      simp
    · simp [h]

lemma keys_foldl_enter (es : List (Production × Nat)) (m : OrderedMap String (List Nat)) :
    (es.foldl enter m).keys =
      m.keys ++ nameOrder ((es.map Prod.fst).filter fun p => p.name ∉ m.keys) := by
  induction es generalizing m with
  | nil => simp [nameOrder]
  | cons e es ih =>
    rw [List.foldl_cons, ih, List.map_cons]
    by_cases h : e.1.name ∈ m.keys
    · rw [enter, OrderedMap.keys_insert_of_mem h, List.filter_cons_of_neg (by simpa using h)]
    · rw [enter, OrderedMap.keys_insert_of_not_mem h, List.filter_cons_of_pos (by simpa using h),
        nameOrder_cons, List.filter_filter, List.append_assoc, List.singleton_append]
      congr 4
      funext p
      simp [Bool.and_comm, not_or]

/-- **The names of a grammar are those of its productions**, in the order of their first one. -/
theorem names_eq (g : Grammar) : g.names = nameOrder g.productions.toList := by
  have hkeys : (∅ : OrderedMap String (List Nat)).keys = [] := rfl
  rw [names, g.index_eq, indexOf_eq, keys_foldl_enter, List.zipIdx_map_fst, hkeys, List.nil_append,
    List.filter_eq_self.mpr fun p _ => by simp]

/-- The places of a name's productions are in order. -/
lemma productionsOf_eq (g : Grammar) (a : String) : g.productionsOf a =
    (g.productions.toList.zipIdx.filter fun e => e.1.name = a).map Prod.snd := by
  rw [productionsOf, g.index_eq, indexOf_eq, get?_foldl_enter]
  rfl

lemma nodup_productionsOf (g : Grammar) (a : String) : (g.productionsOf a).Nodup := by
  rw [productionsOf_eq]
  refine List.Nodup.sublist (List.filter_sublist.map _) ?_
  rw [List.zipIdx_map_snd]
  exact List.nodup_range'

/-- The productions of a name, in the order of the index. -/
def rulesOf (g : Grammar) (a : String) : List Production :=
  (g.productionsOf a).filterMap g.production?

/-- **The index lists the productions of each name** in their order. -/
theorem rulesOf_eq (g : Grammar) (a : String) : g.rulesOf a = withName a g.productions.toList := by
  have hplace : ∀ e ∈ g.productions.toList.zipIdx.filter (fun e => e.1.name = a),
      (g.production? ∘ Prod.snd) e = some e.1 := by
    intro e he
    have hmem := List.mem_zipIdx_iff_getElem?.mp (List.mem_filter.mp he).1
    rwa [Array.getElem?_toList] at hmem
  rw [rulesOf, productionsOf_eq, List.filterMap_map,
    List.filterMap_congr (g := some ∘ Prod.fst) hplace, List.filterMap_eq_map, withName,
    ← List.zipIdx_map_fst 0 g.productions.toList, List.filter_map]
  simp [Function.comp_def]

/-- The productions of a grammar, name by name. -/
lemma grouped_eq (g : Grammar) : grouped g.productions.toList = g.names.flatMap g.rulesOf := by
  rw [grouped, names_eq]
  exact List.flatMap_congr fun a _ => (g.rulesOf_eq a).symm

end Grammar

end Coscript
