import Coscript.Proofs.Reading
import Coscript.Proofs.Regrouping

/-!
# Stored grammars are read back

A grammar that is stored and read back has its productions grouped by name. Its start, its names,
the productions of each name and its terminals are those of the grammar that was stored, and so are
its bytes, so that storing it again changes nothing more. No bytes can be missed at the end: if
there are fewer of them, the reader comes to the end of the data.

* `Grammar.Storable`: names are not empty, and texts do not hold the character zero;
* `Grammar.Regroups`: a grammar has the productions of another one, grouped by name;
* `Reader.takes_groups`: the productions of all names are read back;
* `Grammar.decode_grouped`: a stored grammar is read back, and no beginning of its bytes is read.
-/

namespace Coscript

open Production

/-! ### The reader of a grammar, step by step -/

namespace Reader

/-- Takes a production of a name. -/
def ruleOf (name : String) : Reading Production :=
  andThen elements fun _ es => done (.ofElements name es)

/-- Takes the productions of all names, at most `fuel` names. -/
def groups : Reading (List Production) := fun r => productionsUpTo (r.rest.length + 1) r

/-- Makes a grammar of its productions. -/
def built (start : String) (ps : List Production) : Reading Grammar :=
  match Grammar.build start ps with
  | .error e => fail (.grammar e)
  | .ok g => done g

lemma rulesUpTo_eq (name : String) (fuel : Nat) :
    rulesUpTo name fuel = listUpTo (ruleOf name) fuel := by
  induction fuel with
  | zero => rfl
  | succ fuel ih =>
    funext r
    unfold rulesUpTo listUpTo
    rw [ih]
    generalize listUpTo (ruleOf name) fuel = rest
    unfold ruleOf andThen
    cases elements r with
    | error e r' => rfl
    | ok es r' =>
      dsimp only [done]
      cases rest r' <;> rfl

lemma productionsUpTo_succ (fuel : Nat) : productionsUpTo (fuel + 1) =
    andThen text fun _ name =>
      if name = "" then andThen (expect 0 "grammar terminator") fun _ _ => done []
      else andThen (upToMark (ruleOf name)) fun _ ps =>
        andThen (productionsUpTo fuel) fun _ qs => done (ps ++ qs) := by
  funext r
  cases hname : text r with
  | error e r' =>
    rw [andThen_error hname]
    simp only [productionsUpTo, hname]
  | ok name r' =>
    rw [andThen_ok hname]
    simp only [productionsUpTo, hname, rulesUpTo_eq]
    split
    · unfold andThen
      cases expect 0 "grammar terminator" r' <;> rfl
    · rw [show listUpTo (ruleOf name) (r'.rest.length + 1) r' = upToMark (ruleOf name) r' from rfl]
      unfold andThen
      cases upToMark (ruleOf name) r' with
      | error e r'' => rfl
      | ok ps r'' =>
        dsimp only [done]
        cases productionsUpTo fuel r'' <;> rfl

lemma grammar_eq :
    grammar = andThen text fun _ start => andThen groups fun _ ps => built start ps := by
  funext r
  unfold grammar andThen groups built
  cases text r with
  | error e r' => rfl
  | ok start r' =>
    dsimp only
    cases productionsUpTo (r'.rest.length + 1) r' with
    | error e r'' => rfl
    | ok ps r'' =>
      dsimp only
      cases Grammar.build start ps <;> rfl

/-- The bytes of a name and its productions. -/
def encodeGroup (name : String) (ps : List Production) : List UInt8 :=
  Bytes.ofTerminated name ++ (ps.flatMap encodeBody ++ [endMark])

/-- A production of a name is read back. -/
lemma takes_ruleOf {p : Production} (h : p.Storable) : Takes (ruleOf p.name) p.encodeBody p := by
  obtain ⟨es, hes, hp⟩ := takes_encodeBody h
  have hrule := hes.map (Production.ofElements p.name)
  rwa [hp] at hrule

/-- The body of a production, also an empty one, does not begin with an end mark. -/
lemma unmarked_encodeBody (p : Production) : Unmarked p.encodeBody := by
  unfold encodeBody encodeElements
  split
  · exact (unmarked_element .empty).append [] |>.append _
  · next hne =>
    obtain ⟨e, es, hes⟩ := List.exists_cons_of_ne_nil (by simpa using hne : p.elements ≠ [])
    rw [hes, List.flatMap_cons]
    exact ((unmarked_element e).append _).append _

lemma takes_expect (b : UInt8) (what : String) : Takes (expect b what) [b] () where
  reads rest offset := by
    unfold expect byte
    simp [advance]
  misses cut hcut hne offset := by
    obtain rfl := cut_singleton hcut hne
    exact ⟨_, _, rfl⟩

section Groups

variable {f : String → List Production} {names : List String}

/-- The productions that are listed under some names can be stored. -/
structure Listed (f : String → List Production) (names : List String) : Prop where
  named : ∀ a ∈ names, a ≠ ""
  text : ∀ a ∈ names, ZeroFree a
  name : ∀ a ∈ names, ∀ p ∈ f a, p.name = a
  rule : ∀ a ∈ names, ∀ p ∈ f a, p.Storable

lemma Listed.tail {a : String} (h : Listed f (a :: names)) : Listed f names where
  named b hb := h.named b (List.mem_cons_of_mem a hb)
  text b hb := h.text b (List.mem_cons_of_mem a hb)
  name b hb := h.name b (List.mem_cons_of_mem a hb)
  rule b hb := h.rule b (List.mem_cons_of_mem a hb)

/-- The productions of a name are read back. -/
lemma Listed.takes_head {a : String} (h : Listed f (a :: names)) :
    Takes (upToMark (ruleOf a)) ((f a).flatMap encodeBody ++ [endMark]) (f a) := by
  refine takes_upToMark (fun p hp => ?_) fun p _ => unmarked_encodeBody p
  have hrule := takes_ruleOf (h.rule a List.mem_cons_self p hp)
  rwa [h.name a List.mem_cons_self p hp] at hrule

lemma takes_end :
    Takes (andThen (expect 0 "grammar terminator") fun _ _ => done ([] : List Production)) [0] [] :=
  (takes_expect 0 _).map fun _ => []

lemma zeroFree_empty : ZeroFree "" := by decide

lemma ofTerminated_empty : Bytes.ofTerminated "" = [0] := by decide +kernel

lemma encodeGroups_nil :
    ([] : List String).flatMap (fun a => encodeGroup a (f a)) ++ [0, 0] =
      Bytes.ofTerminated "" ++ [0] := by
  rw [ofTerminated_empty]
  rfl

lemma encodeGroups_cons (a : String) (names : List String) :
    (a :: names).flatMap (fun a => encodeGroup a (f a)) ++ [0, 0] =
      Bytes.ofTerminated a ++ (((f a).flatMap encodeBody ++ [endMark]) ++
        (names.flatMap (fun a => encodeGroup a (f a)) ++ [0, 0])) := by
  simp [encodeGroup]

/-- With enough fuel, the productions of all names are taken. -/
lemma reads_productionsUpTo (h : Listed f names) {fuel : Nat} (hfuel : names.length < fuel) :
    Reads (productionsUpTo fuel) (names.flatMap (fun a => encodeGroup a (f a)) ++ [0, 0])
      (names.flatMap f) := by
  induction names generalizing fuel with
  | nil =>
    obtain ⟨fuel, rfl⟩ : ∃ m, fuel = m + 1 := ⟨fuel - 1, by omega⟩
    rw [productionsUpTo_succ, encodeGroups_nil]
    refine (takes_text zeroFree_empty).reads.andThen fun _ => ?_
    rw [if_pos rfl]
    exact takes_end.reads
  | cons a names ih =>
    obtain ⟨fuel, rfl⟩ : ∃ m, fuel = m + 1 := ⟨fuel - 1, by omega⟩
    have htail := ih h.tail (by simpa using hfuel)
    rw [productionsUpTo_succ, encodeGroups_cons]
    refine (takes_text (h.text a List.mem_cons_self)).reads.andThen fun _ => ?_
    rw [if_neg (h.named a List.mem_cons_self)]
    refine h.takes_head.reads.andThen fun _ => ?_
    have hall := htail.andThen (k := fun _ qs => done (f a ++ qs)) fun _ =>
      reads_done (f a ++ names.flatMap f)
    rwa [List.append_nil] at hall

/-- Whatever the fuel, the reader comes to the end of the data if bytes are cut off. -/
lemma misses_productionsUpTo (h : Listed f names) (fuel : Nat) :
    Misses (productionsUpTo fuel) (names.flatMap (fun a => encodeGroup a (f a)) ++ [0, 0]) := by
  induction fuel generalizing names with
  | zero => exact fun _ _ _ _ => ⟨_, _, rfl⟩
  | succ fuel ih =>
    rw [productionsUpTo_succ]
    cases names with
    | nil =>
      rw [encodeGroups_nil]
      refine .andThen (takes_text zeroFree_empty) fun _ => ?_
      rw [if_pos rfl]
      exact takes_end.misses
    | cons a names =>
      rw [encodeGroups_cons]
      refine .andThen (takes_text (h.text a List.mem_cons_self)) fun _ => ?_
      rw [if_neg (h.named a List.mem_cons_self)]
      refine .andThen h.takes_head fun _ cut hcut hne offset => ?_
      obtain ⟨n, r, hr⟩ := ih h.tail cut hcut hne offset
      exact ⟨n, r, andThen_error hr⟩

/-- **The productions of all names are read back.** -/
theorem takes_groups (h : Listed f names) :
    Takes groups (names.flatMap (fun a => encodeGroup a (f a)) ++ [0, 0]) (names.flatMap f) where
  reads rest offset := by
    refine reads_productionsUpTo h ?_ rest offset
    have hle : names.length ≤ (names.flatMap fun a => encodeGroup a (f a)).length := by
      clear h
      induction names with
      | nil => exact Nat.zero_le _
      | cons a names ih =>
        have hmark : (encodeGroup a (f a)).length ≠ 0 := by simp [encodeGroup]
        rw [List.flatMap_cons, List.length_append, List.length_cons]
        omega
    simp only [List.length_append, List.length_cons]
    omega
  misses cut hcut hne offset := misses_productionsUpTo h _ cut hcut hne offset

end Groups

end Reader

/-! ### Stored grammars -/

namespace Grammar

open Reader

/-- A grammar that can be stored: names are not empty, and texts do not hold the character zero. -/
structure Storable (g : Grammar) : Prop where
  named : ∀ p ∈ g.productions, p.name ≠ ""
  rules : ∀ p ∈ g.productions, p.Storable

instance (g : Grammar) : Decidable g.Storable :=
  decidable_of_iff ((∀ p ∈ g.productions, p.name ≠ "") ∧ ∀ p ∈ g.productions, p.Storable)
    ⟨fun h => ⟨h.1, h.2⟩, fun h => ⟨h.named, h.rules⟩⟩

/-- A grammar has the productions of another one, grouped by name. -/
structure Regroups (g' g : Grammar) : Prop where
  start : g'.start = g.start
  /-- The names are the same, in the same order. -/
  names : g'.names = g.names
  /-- The productions of each name are the same, in the same order. -/
  rules : ∀ a, g'.rulesOf a = g.rulesOf a
  productions : g'.productions.toList = grouped g.productions.toList
  terminals : ∀ t, (∃ n, g'.terminal? n = some t) ↔ ∃ n, g.terminal? n = some t

variable {g g' : Grammar}

/-- The bytes of a grammar, in terms of its names and their productions. -/
lemma encode_eq (g : Grammar) : g.encode = Bytes.ofTerminated g.start ++
    (g.names.flatMap (fun a => encodeGroup a (g.rulesOf a)) ++ [0, 0]) := by
  have hgroup : ∀ e ∈ g.index.entries, (Bytes.ofTerminated e.1 ++
      (e.2.flatMap fun i => ((g.production? i).map encodeBody).getD []) ++ [endMark]) =
        encodeGroup e.1 (g.rulesOf e.1) := by
    intro e he
    have hplaces : g.productionsOf e.1 = e.2 := by
      rw [productionsOf, OrderedMap.mem_entries_iff.mp he, Option.getD_some]
    rw [encodeGroup, rulesOf, hplaces, List.append_assoc]
    congr 2
    induction e.2 with
    | nil => rfl
    | cons i places ih => cases hi : g.production? i <;> simp [hi, ih]
  rw [encode, List.flatMap_congr hgroup, names, OrderedMap.keys, List.flatMap_map,
    List.append_assoc]

/-- The names that are used have productions, wherever these are. -/
lemma exists_build {ps : List Production} (g : Grammar) (h : ps.Perm g.productions.toList) :
    ∃ g', build g.start ps = .ok g' := by
  have hcontains : ∀ a, (indexOf ps.toArray).contains a = true ↔ a ∈ g.names := by
    intro a
    rw [indexOf, contains_indexOf_fold, names_eq, mem_nameOrder]
    constructor
    · rintro (hempty | ⟨p, i, hp, hname⟩)
      · cases hempty
      · exact ⟨p, h.mem_iff.mp (List.fst_mem_of_mem_zipIdx hp), hname⟩
    · rintro ⟨p, hp, hname⟩
      obtain ⟨i, hi⟩ := List.mem_iff_getElem?.mp (h.mem_iff.mpr hp)
      exact .inr ⟨p, i, List.mem_zipIdx_iff_getElem?.mpr hi, hname⟩
  have hdefined : undefined? (indexOf ps.toArray) ps.toArray = none := by
    rw [undefined?, List.findSome?_eq_none_iff]
    intro p hp
    rw [List.findSome?_eq_none_iff]
    intro s hs
    cases s with
    | terminal t => rfl
    | nonTerminal a =>
      obtain ⟨i, hi⟩ := List.mem_iff_getElem?.mp (h.mem_iff.mp hp)
      rw [Array.getElem?_toList] at hi
      exact if_pos ((hcontains a).mpr (mem_names_of_mem_body hi hs))
  have hstart := (hcontains g.start).mpr g.start_mem_names
  unfold build
  dsimp only
  split
  · next heq =>
    rw [hdefined] at heq
    cases heq
  · rw [dif_pos hstart]
    exact ⟨_, rfl⟩

lemma start_of_build {start : String} {ps : List Production} (h : build start ps = .ok g) :
    g.start = start := by
  unfold build at h
  dsimp only at h
  split at h
  · cases h
  · split at h
    · cases h
      rfl
    · cases h

/-- **The grammar of the grouped productions** differs in the places of the productions only. -/
theorem regroups_of_build (h : build g.start (grouped g.productions.toList) = .ok g') :
    g'.Regroups g := by
  have hproductions : g'.productions.toList = grouped g.productions.toList := by
    rw [productions_of_build h]
  have hused : ∀ t, t ∈ g'.usedTerminals ↔ t ∈ g.usedTerminals := by
    intro t
    rw [usedTerminals, usedTerminals, hproductions]
    exact ((grouped_perm _).flatMap_right _).mem_iff
  exact {
    start := start_of_build h
    names := by rw [names_eq, names_eq, hproductions, nameOrder_grouped]
    rules := fun a => by rw [rulesOf_eq, rulesOf_eq, hproductions, withName_grouped]
    productions := hproductions
    terminals := fun t => by rw [exists_terminal?_iff, exists_terminal?_iff, hused] }

lemma Regroups.encode (h : g'.Regroups g) : g'.encode = g.encode := by
  rw [encode_eq, encode_eq, h.start, h.names, funext h.rules]

lemma Storable.listed (h : g.Storable) : Listed g.rulesOf g.names := by
  have hmem : ∀ a, ∀ p ∈ g.rulesOf a, p ∈ g.productions ∧ p.name = a := by
    intro a p hp
    rwa [rulesOf_eq, mem_withName, Array.mem_toList_iff] at hp
  have hname : ∀ a ∈ g.names, ∃ p ∈ g.productions, p.name = a := by
    intro a ha
    rw [names_eq, mem_nameOrder] at ha
    simpa using ha
  exact {
    named := fun a ha => by
      obtain ⟨p, hp, rfl⟩ := hname a ha
      exact h.named p hp
    text := fun a ha => by
      obtain ⟨p, hp, rfl⟩ := hname a ha
      exact (h.rules p hp).name
    name := fun a _ p hp => (hmem a p hp).2
    rule := fun a _ p hp => h.rules p (hmem a p hp).1 }

/-- **The bytes of a grammar are taken for the grammar with its productions grouped by name.** -/
theorem Storable.exists_takes (h : g.Storable) :
    ∃ g', Takes Reader.grammar g.encode g' ∧ g'.Regroups g := by
  obtain ⟨g', hbuild⟩ := g.exists_build (grouped_perm g.productions.toList)
  obtain ⟨p, hp, hname⟩ : ∃ p ∈ g.productions, p.name = g.start := by
    have hstart := g.start_mem_names
    rw [names_eq, mem_nameOrder] at hstart
    simpa using hstart
  have hstart : ZeroFree g.start := hname ▸ (h.rules p hp).name
  refine ⟨g', ?_, regroups_of_build hbuild⟩
  rw [grammar_eq, encode_eq]
  refine (takes_text hstart).andThen fun _ => (takes_groups h.listed).finish fun _ => ?_
  rw [built, ← grouped_eq, hbuild]

lemma decode_of_takes (h : Takes Reader.grammar g.encode g') : decode g.encode = .ok g' := by
  have hread := h.reads [] 0
  rw [List.append_nil] at hread
  rw [decode, run, ofBytes, hread]

/-- **A stored grammar is read back with its productions grouped by name**, which changes nothing
if no name is interrupted by another one, and which does not change its bytes. If bytes at the end
are cut off, the reader comes to the end of the data. -/
theorem decode_grouped (h : g.Storable) :
    ∃ g', decode g.encode = .ok g' ∧ g'.Regroups g ∧
      (Contiguous g.productions.toList → g'.productions = g.productions) ∧
      g'.encode = g.encode ∧
      ∀ cut, cut <+: g.encode → cut ≠ g.encode →
        ∃ offset, decode cut = .error (.unexpectedEnd offset) := by
  obtain ⟨g', htakes, hregroups⟩ := h.exists_takes
  refine ⟨g', decode_of_takes htakes, hregroups, fun hcontiguous => ?_, hregroups.encode,
    fun cut hcut hne => ?_⟩
  · rw [← Array.toList_inj, hregroups.productions, grouped_of_contiguous _ hcontiguous]
  · obtain ⟨n, r, hr⟩ := htakes.misses cut hcut hne 0
    rw [decode, run, ofBytes, hr]
    exact ⟨n, rfl⟩

/-- The productions of a grammar in which two names interrupt each other. -/
def interleavedRules : Array Production :=
  #[⟨"Input", [.nonTerminal "List"]⟩, ⟨"List", [.nonTerminal "Item", .nonTerminal "List"]⟩,
    ⟨"Item", [.terminal (.any .integer)]⟩, ⟨"List", []⟩, ⟨"Item", [.terminal (.any .identifier)]⟩]

/-- Lists of numbers and identifiers, with productions that are not in the order of their names. -/
def interleaved : Grammar :=
  ⟨"Input", interleavedRules, indexOf interleavedRules, terminalsOf interleavedRules, rfl, rfl,
    by decide +kernel, by decide +kernel⟩

/-- The productions of the lists are moved, and each beginning of their bytes is too short. -/
theorem decode_grouped_interleaved : interleaved.Storable ∧
    ∃ g', decode interleaved.encode = .ok g' ∧ g'.Regroups interleaved ∧
      g'.productions ≠ interleaved.productions ∧ g'.encode = interleaved.encode ∧
      ∃ offset, decode (interleaved.encode.take 20) = .error (.unexpectedEnd offset) := by
  have h : interleaved.Storable := by decide +kernel
  obtain ⟨g', hdecode, hregroups, -, hencode, hcut⟩ := decode_grouped h
  refine ⟨h, g', hdecode, hregroups, fun heq => ?_, hencode,
    hcut _ (List.take_prefix _ _) (by decide +kernel)⟩
  have hgrouped := hregroups.productions
  rw [heq] at hgrouped
  exact absurd hgrouped (by decide +kernel)

end Grammar

end Coscript
