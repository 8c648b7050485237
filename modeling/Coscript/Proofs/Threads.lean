import Mathlib.Data.List.Basic
import Coscript.Proofs.Containers
import Coscript.Scheduler.Basic

/-!
# Conditions of threads

A thread that has been issued is alive or killed while it is queued; then it has finished and its
outcome is kept, or it is gone. What a request to a scheduler does with threads is one of a few
steps of the queue, the outcomes and the counter of ids, and each of these changes the condition of
one thread at most.

* `Threads.Shows`: the condition of a thread, read off the queue and the outcomes;
* `Threads.Orderly`: ids are issued once, and an id is queued once or has an outcome;
* `Threads.Orderly.existsUnique_shows`: a thread is in one condition;
* `Threads.Step.changes`: the only changes of condition.
-/

namespace Coscript

/-- A request to a scheduler that can change its threads. -/
inductive Scheduler.Request
  | load (name source : String)
  | invoke (name : String) (arguments : List Value)
  | spawn (name : String) (arguments : List Value)
  | tick
  | kill (id : ThreadId)
  | takeResult (id : ThreadId)

/-- The condition of a thread that has been issued. -/
inductive Condition
  | alive
  | killed
  /-- It has come to an outcome, which has not been taken. -/
  | finished
  /-- Its outcome has been taken, or it has been dropped. -/
  | gone
  deriving Repr, DecidableEq

/-- The requests that change the condition of a thread. -/
inductive Condition.Changes (id : ThreadId) : Scheduler.Request → Condition → Condition → Prop
  | kill : Changes id (.kill id) .alive .killed
  | finish : Changes id .tick .alive .finished
  | drop : Changes id .tick .killed .gone
  | take : Changes id (.takeResult id) .finished .gone

/-- What a scheduler keeps of its threads. -/
structure Threads where
  queue : List Thread
  results : OrderedMap ThreadId (Except RuntimeError Value)
  nextId : ThreadId

/-- What a scheduler keeps of its threads. -/
def Scheduler.threads (s : Scheduler) : Threads := ⟨s.queue, s.results, s.nextId⟩

namespace Threads

open Scheduler (Request)

variable {ts ts' : Threads} {id : ThreadId} {c c' : Condition}

/-! ### Conditions -/

/-- A thread is in a condition. -/
def Shows (ts : Threads) (id : ThreadId) : Condition → Prop
  | .alive => ∃ t ∈ ts.queue, t.id = id ∧ t.killed = false
  | .killed => ∃ t ∈ ts.queue, t.id = id ∧ t.killed = true
  | .finished => ∃ outcome, ts.results.get? id = some outcome
  | .gone => id < ts.nextId ∧ (∀ t ∈ ts.queue, t.id ≠ id) ∧ ts.results.get? id = none

/-- The condition of a thread stays if its place in the queue and its outcome do. -/
lemma Shows.of_eq (hc : ts.Shows id c) (hqueue : ∀ t, t.id = id → (t ∈ ts'.queue ↔ t ∈ ts.queue))
    (hresult : ts'.results.get? id = ts.results.get? id) (hnext : ts.nextId ≤ ts'.nextId) :
    ts'.Shows id c := by
  cases c with
  | alive =>
    obtain ⟨t, ht, hid, hkilled⟩ := hc
    exact ⟨t, (hqueue t hid).mpr ht, hid, hkilled⟩
  | killed =>
    obtain ⟨t, ht, hid, hkilled⟩ := hc
    exact ⟨t, (hqueue t hid).mpr ht, hid, hkilled⟩
  | finished =>
    obtain ⟨outcome, houtcome⟩ := hc
    exact ⟨outcome, hresult.trans houtcome⟩
  | gone =>
    obtain ⟨hlt, hqueued, hnone⟩ := hc
    exact ⟨hlt.trans_le hnext, fun t ht hid => hqueued t ((hqueue t hid).mp ht) hid,
      hresult.trans hnone⟩

/-- Ids have been issued once: those of queued threads and those with outcomes are different from
one another, and are below the next id. -/
structure Orderly (ts : Threads) : Prop where
  nodup : (ts.queue.map Thread.id).Nodup
  queued : ∀ t ∈ ts.queue, t.id < ts.nextId ∧ ts.results.get? t.id = none
  kept : ∀ id outcome, ts.results.get? id = some outcome → id < ts.nextId

namespace Orderly

variable {t u : Thread} {queue : List Thread}
variable {results : OrderedMap ThreadId (Except RuntimeError Value)} {n : ThreadId}

lemma eq_of_id (h : ts.Orderly) (ht : t ∈ ts.queue) (hu : u ∈ ts.queue) (hid : t.id = u.id) :
    t = u := List.inj_on_of_nodup_map h.nodup ht hu hid

/-- The next thread is queued once. -/
lemma ne_of_mem (h : Orderly ⟨t :: queue, results, n⟩) (hu : u ∈ queue) : u.id ≠ t.id := by
  intro hid
  obtain ⟨hfresh, -⟩ := List.nodup_cons.mp h.nodup
  exact hfresh (hid ▸ List.mem_map_of_mem hu)

/-- What is left when the next thread has been taken from the queue. -/
lemma tail (h : Orderly ⟨t :: queue, results, n⟩) : Orderly ⟨queue, results, n⟩ :=
  ⟨(List.nodup_cons.mp h.nodup).2, fun u hu => h.queued u (List.mem_cons_of_mem t hu), h.kept⟩

/-- A thread with a new place at the end of the queue. -/
lemma append (h : Orderly ⟨queue, results, n⟩) {m : ThreadId} (hle : n ≤ m) (hlt : u.id < m)
    (hfresh : ∀ t ∈ queue, t.id ≠ u.id) (hnone : results.get? u.id = none) :
    Orderly ⟨queue ++ [u], results, m⟩ := by
  refine ⟨?_, fun t ht => ?_, fun id outcome ho => (h.kept id outcome ho).trans_le hle⟩
  · rw [List.map_append, List.nodup_append']
    refine ⟨h.nodup, List.nodup_singleton _, fun id hid hu => ?_⟩
    obtain ⟨t, ht, rfl⟩ := List.mem_map.mp hid
    exact hfresh t ht (List.mem_singleton.mp hu)
  · rcases List.mem_append.mp ht with ht | ht
    · exact ⟨(h.queued t ht).1.trans_le hle, (h.queued t ht).2⟩
    · cases List.mem_singleton.mp ht
      exact ⟨hlt, hnone⟩

/-- A thread with an outcome is not queued, so that it is gone when its outcome is forgotten. -/
lemma shows_erase (h : Orderly ⟨queue, results, n⟩)
    (hc : Shows ⟨queue, results, n⟩ id .finished) :
    Shows ⟨queue, results.erase id, n⟩ id .gone := by
  obtain ⟨outcome, houtcome⟩ := hc
  refine ⟨h.kept id outcome houtcome, fun t ht hid => ?_, ?_⟩
  · rw [← hid, (h.queued t ht).2] at houtcome
    cases houtcome
  · rw [OrderedMap.get?_erase, if_pos rfl]

/-- **A thread that has been issued is in one condition.** -/
theorem existsUnique_shows (h : ts.Orderly) (hid : id < ts.nextId) : ∃! c, ts.Shows id c := by
  by_cases hqueued : ∃ t ∈ ts.queue, t.id = id
  · obtain ⟨t, ht, rfl⟩ := hqueued
    have hnone := (h.queued t ht).2
    refine ⟨if t.killed then .killed else .alive, ?_, fun c hc => ?_⟩
    · cases hkilled : t.killed with
      | false => exact ⟨t, ht, rfl, hkilled⟩
      | true => exact ⟨t, ht, rfl, hkilled⟩
    · cases c with
      | alive =>
        obtain ⟨u, hu, hid, hkilled⟩ := hc
        rw [← h.eq_of_id hu ht hid, hkilled]
        rfl
      | killed =>
        obtain ⟨u, hu, hid, hkilled⟩ := hc
        rw [← h.eq_of_id hu ht hid, hkilled]
        rfl
      | finished =>
        obtain ⟨outcome, houtcome⟩ := hc
        rw [hnone] at houtcome
        cases houtcome
      | gone => exact absurd rfl (hc.2.1 t ht)
  · have hfree : ∀ t ∈ ts.queue, t.id ≠ id := fun t ht h => hqueued ⟨t, ht, h⟩
    cases hresult : ts.results.get? id with
    | none =>
      refine ⟨.gone, ⟨hid, hfree, hresult⟩, fun c hc => ?_⟩
      cases c with
      | gone => rfl
      | finished =>
        obtain ⟨outcome, houtcome⟩ := hc
        rw [hresult] at houtcome
        cases houtcome
      | alive | killed =>
        obtain ⟨t, ht, heq, -⟩ := hc
        exact absurd heq (hfree t ht)
    | some outcome =>
      refine ⟨.finished, ⟨outcome, hresult⟩, fun c hc => ?_⟩
      cases c with
      | finished => rfl
      | gone =>
        have hnone := hc.2.2
        rw [hresult] at hnone
        cases hnone
      | alive | killed =>
        obtain ⟨t, ht, heq, -⟩ := hc
        exact absurd heq (hfree t ht)

lemma lt_of_shows (h : ts.Orderly) (hc : ts.Shows id c) : id < ts.nextId := by
  cases c with
  | alive | killed =>
    obtain ⟨t, ht, rfl, -⟩ := hc
    exact (h.queued t ht).1
  | finished =>
    obtain ⟨outcome, houtcome⟩ := hc
    exact h.kept id outcome houtcome
  | gone => exact hc.1

lemma shows_unique (h : ts.Orderly) (hc : ts.Shows id c) (hc' : ts.Shows id c') : c = c' :=
  (h.existsUnique_shows (h.lt_of_shows hc)).unique hc hc'

end Orderly

/-- A thread that is killed if it has some id. -/
def killing (id : ThreadId) (t : Thread) : Thread :=
  if t.id = id then { t with killed := true } else t

@[simp] lemma id_killing (id : ThreadId) (t : Thread) : (killing id t).id = t.id := by
  unfold killing
  split <;> rfl

/-! ### Other threads -/

section Others

variable {t u : Thread} {queue : List Thread}

lemma mem_cons_iff (hne : t.id ≠ id) (hu : u.id = id) : u ∈ t :: queue ↔ u ∈ queue := by
  rw [List.mem_cons, or_iff_right]
  rintro rfl
  exact hne hu

lemma mem_append_iff {e : Execution} {killed : Bool} {n : ThreadId} (hne : n ≠ id)
    (hu : u.id = id) : u ∈ queue ++ [⟨n, e, killed⟩] ↔ u ∈ queue := by
  rw [List.mem_append, List.mem_singleton, or_iff_left]
  rintro rfl
  exact hne hu

lemma mem_map_killing_iff {id' : ThreadId} (hne : id' ≠ id) (hu : u.id = id) :
    u ∈ queue.map (killing id') ↔ u ∈ queue := by
  have hother : ∀ t : Thread, t.id = id → killing id' t = t := fun t ht =>
    if_neg fun h => hne (h.symm.trans ht)
  rw [List.mem_map]
  constructor
  · rintro ⟨t, ht, rfl⟩
    rwa [hother t ((id_killing id' t).symm.trans hu)]
  · exact fun h => ⟨u, h, hother u hu⟩

end Others

/-- A thread that has been killed is queued. -/
lemma shows_killing {t : Thread} {queue : List Thread}
    {results : OrderedMap ThreadId (Except RuntimeError Value)} {n : ThreadId} (ht : t ∈ queue) :
    Shows ⟨queue.map (killing t.id), results, n⟩ t.id .killed :=
  ⟨killing t.id t, List.mem_map_of_mem ht, id_killing _ _, by rw [killing, if_pos rfl]⟩

/-! ### Steps -/

/-- What a request does with threads, and the id that it issues. -/
inductive Step : Request → Option ThreadId → Threads → Threads → Prop
  | same {request : Request} (ts : Threads) : Step request none ts ts
  | issue {request : Request} {queue : List Thread}
      {results : OrderedMap ThreadId (Except RuntimeError Value)} {n : ThreadId} (e : Execution) :
      Step request (some n) ⟨queue, results, n⟩ ⟨queue ++ [⟨n, e, false⟩], results, n + 1⟩
  | wait {t : Thread} {queue : List Thread}
      {results : OrderedMap ThreadId (Except RuntimeError Value)} {n : ThreadId}
      (ht : t.killed = false) (e : Execution) :
      Step .tick none ⟨t :: queue, results, n⟩ ⟨queue ++ [⟨t.id, e, false⟩], results, n⟩
  | finish {t : Thread} {queue : List Thread}
      {results : OrderedMap ThreadId (Except RuntimeError Value)} {n : ThreadId}
      (ht : t.killed = false) (outcome : Except RuntimeError Value) :
      Step .tick none ⟨t :: queue, results, n⟩ ⟨queue, results.insert t.id outcome, n⟩
  | drop {t : Thread} {queue : List Thread}
      {results : OrderedMap ThreadId (Except RuntimeError Value)} {n : ThreadId}
      (ht : t.killed = true) : Step .tick none ⟨t :: queue, results, n⟩ ⟨queue, results, n⟩
  | kill {t : Thread} {queue : List Thread}
      {results : OrderedMap ThreadId (Except RuntimeError Value)} {n : ThreadId} (hmem : t ∈ queue)
      (ht : t.killed = false) :
      Step (.kill t.id) none ⟨queue, results, n⟩ ⟨queue.map (killing t.id), results, n⟩
  | take {queue : List Thread} {results : OrderedMap ThreadId (Except RuntimeError Value)}
      {n : ThreadId} (id : ThreadId) :
      Step (.takeResult id) none ⟨queue, results, n⟩ ⟨queue, results.erase id, n⟩

namespace Step

variable {request : Request} {issued? : Option ThreadId}

/-- The ids are issued one after the other. -/
lemma issued (h : Step request issued? ts ts') :
    List.range ts'.nextId = List.range ts.nextId ++ issued?.toList := by
  cases h with
  | issue e => exact List.range_succ
  | _ => exact (List.append_nil _).symm

/-- A thread begins alive. -/
lemma shows_issued (h : Step request (some id) ts ts') : ts'.Shows id .alive := by
  cases h with
  | issue e => exact ⟨_, List.mem_append_right _ (List.mem_singleton_self _), rfl, rfl⟩

/-- **A step keeps the order.** -/
theorem orderly (h : Step request issued? ts ts') (ho : ts.Orderly) : ts'.Orderly := by
  cases h with
  | same => exact ho
  | @issue _ queue results n e =>
    refine ho.append n.le_succ n.lt_succ_self (fun t ht => (ho.queued t ht).1.ne) ?_
    exact Option.eq_none_iff_forall_ne_some.mpr fun outcome houtcome =>
      (ho.kept n outcome houtcome).ne rfl
  | @wait t queue results n ht e =>
    obtain ⟨hlt, hnone⟩ := ho.queued t List.mem_cons_self
    exact ho.tail.append le_rfl hlt (fun u hu => ho.ne_of_mem hu) hnone
  | @finish t queue results n ht outcome =>
    refine ⟨ho.tail.nodup, fun u hu => ⟨(ho.tail.queued u hu).1, ?_⟩, fun id outcome' hid => ?_⟩
    · rw [OrderedMap.get?_insert, if_neg (ho.ne_of_mem hu).symm]
      exact (ho.tail.queued u hu).2
    · rw [OrderedMap.get?_insert] at hid
      split at hid
      · next heq => exact heq ▸ (ho.queued t List.mem_cons_self).1
      · exact ho.kept id outcome' hid
  | drop => exact ho.tail
  | @kill t queue results n hmem ht =>
    refine ⟨?_, fun u hu => ?_, ho.kept⟩
    · rw [List.map_map, show Thread.id ∘ killing t.id = Thread.id from funext (id_killing t.id)]
      exact ho.nodup
    · obtain ⟨v, hv, rfl⟩ := List.mem_map.mp hu
      rw [id_killing]
      exact ho.queued v hv
  | @take queue results n id =>
    refine ⟨ho.nodup, fun u hu => ⟨(ho.queued u hu).1, ?_⟩, fun id' outcome hid => ?_⟩
    · rw [OrderedMap.get?_erase, (ho.queued u hu).2, ite_self]
    · rw [OrderedMap.get?_erase] at hid
      split at hid
      · cases hid
      · exact ho.kept id' outcome hid

/-- **The only changes of condition.** -/
theorem changes (h : Step request issued? ts ts') (ho : ts.Orderly) (hc : ts.Shows id c) :
    ∃ c', ts'.Shows id c' ∧ (c = c' ∨ c.Changes id request c') := by
  cases h with
  | same => exact ⟨c, hc, .inl rfl⟩
  | @issue _ queue results n e =>
    have hne : n ≠ id := (ho.lt_of_shows hc).ne'
    exact ⟨c, hc.of_eq (fun u hu => mem_append_iff hne hu) rfl (Nat.le_succ n), .inl rfl⟩
  | @wait t queue results n ht e =>
    by_cases hid : t.id = id
    · subst hid
      have halive : c = .alive := ho.shows_unique hc ⟨t, List.mem_cons_self, rfl, ht⟩
      exact ⟨.alive, ⟨_, List.mem_append_right _ (List.mem_singleton_self _), rfl, rfl⟩,
        .inl halive⟩
    · refine ⟨c, hc.of_eq (fun u hu => ?_) rfl le_rfl, .inl rfl⟩
      rw [mem_cons_iff hid hu, mem_append_iff hid hu]
  | @finish t queue results n ht outcome =>
    by_cases hid : t.id = id
    · subst hid
      have halive : c = .alive := ho.shows_unique hc ⟨t, List.mem_cons_self, rfl, ht⟩
      exact ⟨.finished, ⟨outcome, OrderedMap.get?_insert_self _ _ _⟩, .inr (halive ▸ .finish)⟩
    · refine ⟨c, hc.of_eq (fun u hu => (mem_cons_iff hid hu).symm) ?_ le_rfl, .inl rfl⟩
      rw [OrderedMap.get?_insert, if_neg hid]
  | @drop t queue results n ht =>
    by_cases hid : t.id = id
    · subst hid
      have hkilled : c = .killed := ho.shows_unique hc ⟨t, List.mem_cons_self, rfl, ht⟩
      obtain ⟨hlt, hnone⟩ := ho.queued t List.mem_cons_self
      exact ⟨.gone, ⟨hlt, fun u hu => ho.ne_of_mem hu, hnone⟩, .inr (hkilled ▸ .drop)⟩
    · exact ⟨c, hc.of_eq (fun u hu => (mem_cons_iff hid hu).symm) rfl le_rfl, .inl rfl⟩
  | @kill t queue results n hmem ht =>
    by_cases hid : t.id = id
    · subst hid
      have halive : c = .alive := ho.shows_unique hc ⟨t, hmem, rfl, ht⟩
      exact ⟨.killed, shows_killing hmem, .inr (halive ▸ .kill)⟩
    · exact ⟨c, hc.of_eq (fun u hu => mem_map_killing_iff hid hu) rfl le_rfl, .inl rfl⟩
  | @take queue results n id' =>
    have hresult := OrderedMap.get?_erase results id' id
    by_cases hid : id = id'
    · subst hid
      rw [if_pos rfl] at hresult
      cases c with
      | finished => exact ⟨.gone, ho.shows_erase hc, .inr .take⟩
      | alive => exact ⟨.alive, hc, .inl rfl⟩
      | killed => exact ⟨.killed, hc, .inl rfl⟩
      | gone => exact ⟨.gone, ⟨hc.1, hc.2.1, hresult⟩, .inl rfl⟩
    · rw [if_neg hid] at hresult
      exact ⟨c, hc.of_eq (fun _ _ => Iff.rfl) hresult le_rfl, .inl rfl⟩

/-- A thread that is gone stays so. -/
lemma shows_gone (h : Step request issued? ts ts') (ho : ts.Orderly) (hc : ts.Shows id .gone) :
    ts'.Shows id .gone := by
  obtain ⟨c', hc', rfl | hchanges⟩ := h.changes ho hc
  · exact hc'
  · cases hchanges

/-- A thread that has been killed stays in the queue as it is, until it is gone. -/
lemma keeps_killed (h : Step request issued? ts ts') (ho : ts.Orderly) {t : Thread}
    (ht : t ∈ ts.queue) (hkilled : t.killed = true) : t ∈ ts'.queue ∨ ts'.Shows t.id .gone := by
  have hne : ∀ u : Thread, u.killed = false → t ≠ u := by
    rintro u hu rfl
    rw [hkilled] at hu
    cases hu
  cases h with
  | same => exact .inl ht
  | issue e => exact .inl (List.mem_append_left _ ht)
  | wait hu e => exact .inl (List.mem_append_left _ (List.mem_of_ne_of_mem (hne _ hu) ht))
  | finish hu outcome => exact .inl (List.mem_of_ne_of_mem (hne _ hu) ht)
  | drop =>
    rcases List.mem_cons.mp ht with rfl | ht'
    · obtain ⟨hlt, hnone⟩ := ho.queued t ht
      exact .inr ⟨hlt, fun u hu => ho.ne_of_mem hu, hnone⟩
    · exact .inl ht'
  | @kill u queue results n hmem hu =>
    have hid : u.id ≠ t.id := fun hid => hne u hu (ho.eq_of_id ht hmem hid.symm)
    exact .inl ((mem_map_killing_iff hid rfl).mpr ht)
  | take => exact .inl ht

end Step

end Threads

end Coscript
