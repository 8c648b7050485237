import Coscript.Proofs.ThreadLives

/-!
# Threads take turns

A turn resumes the first thread of the queue, and a thread that waits goes to its end; new threads
join the queue at its end. So while two threads are queued, they are resumed in turns, and a thread
is first resumed after all those that were issued before it, apart from threads that were killed
before they came up.

* `Threads.Rotation`: what a request does with the order of the queue, and which thread it resumes;
* `Threads.Between`: the places of two threads since one of them was resumed;
* `Scheduler.Seniority`: the threads that have been resumed, and those that were issued before them;
* `Scheduler.RoundRobin`, `Scheduler.roundRobin`: the order of resumptions in every history.
-/

namespace Coscript

namespace Threads

variable {ts ts' : Threads} {a b id : ThreadId} {resumed? : Option ThreadId}

/-! ### The order of the queue -/

/-- The ids of the queued threads, the one that is resumed next first. -/
def order (ts : Threads) : List ThreadId := ts.queue.map Thread.id

lemma Shows.mem_order (h : ts.Shows id .alive) : id ∈ ts.order := by
  obtain ⟨t, ht, rfl, -⟩ := h
  exact List.mem_map_of_mem ht

lemma Orderly.lt_of_mem_order (h : ts.Orderly) (hid : id ∈ ts.order) : id < ts.nextId := by
  obtain ⟨t, ht, rfl⟩ := List.mem_map.mp hid
  exact (h.queued t ht).1

/-- What a request does with the order of the queue, and the thread that it resumes. -/
inductive Rotation (ts ts' : Threads) : Option ThreadId → Prop
  | keep (horder : ts'.order = ts.order) (hnext : ts'.nextId = ts.nextId) : Rotation ts ts' none
  | join (horder : ts'.order = ts.order ++ [ts.nextId]) (hnext : ts'.nextId = ts.nextId + 1) :
    Rotation ts ts' none
  | drop {id : ThreadId} (hkilled : ts.Shows id .killed) (horder : ts.order = id :: ts'.order)
    (hnext : ts'.nextId = ts.nextId) : Rotation ts ts' none
  | wait {id : ThreadId} {rest : List ThreadId} (halive : ts.Shows id .alive)
    (horder : ts.order = id :: rest) (horder' : ts'.order = rest ++ [id])
    (hnext : ts'.nextId = ts.nextId) : Rotation ts ts' (some id)
  | leave {id : ThreadId} (halive : ts.Shows id .alive) (horder : ts.order = id :: ts'.order)
    (hnext : ts'.nextId = ts.nextId) : Rotation ts ts' (some id)

/-- A request that is no turn resumes nothing. -/
lemma Step.rotation {request : Scheduler.Request} {issued? : Option ThreadId}
    (h : Step request issued? ts ts') (htick : request ≠ .tick) : Rotation ts ts' none := by
  cases h with
  | same => exact .keep rfl rfl
  | issue e => exact .join (List.map_append ..) rfl
  | @kill t queue _ _ hmem ht =>
    refine .keep ?_ rfl
    rw [order, order, List.map_map]
    exact List.map_congr_left fun u _ => id_killing t.id u
  | take => exact .keep rfl rfl
  | wait | finish | drop => exact absurd rfl htick

namespace Rotation

lemma nextId_le (h : Rotation ts ts' resumed?) : ts.nextId ≤ ts'.nextId := by
  cases h with
  | join _ hnext => exact hnext ▸ Nat.le_succ _
  | keep _ hnext | drop _ _ hnext | wait _ _ _ hnext | leave _ _ hnext => exact hnext.ge

/-- The thread that is resumed is the first one, and is not killed. -/
lemma resumed (h : Rotation ts ts' (some id)) :
    ts.Shows id .alive ∧ ∃ rest, ts.order = id :: rest := by
  cases h with
  | wait halive horder | leave halive horder => exact ⟨halive, _, horder⟩

end Rotation

/-! ### Two threads -/

/-- The places of two threads in the queue, where the second one has been resumed a number of times
since the first one was. -/
inductive Between (a b : ThreadId) (order : List ThreadId) : Nat → Prop
  | ahead (h : [b, a].Sublist order) : Between a b order 0
  | behind (h : [a, b].Sublist order) : Between a b order 1
  /-- The first one is no longer queued. -/
  | away {n : Nat} (h : a ∉ order) : Between a b order n

namespace Between

variable {rest : List ThreadId} {n : Nat}

/-- Another thread leaves, or the first one does. -/
lemma tail (h : Between a b (id :: rest) n) (hnodup : (id :: rest).Nodup) (hb : id ≠ b) :
    Between a b rest n := by
  cases h with
  | ahead h =>
    rcases List.cons_sublist_cons'.mp h with h | ⟨rfl, -⟩
    · exact .ahead h
    · exact absurd rfl hb
  | behind h =>
    rcases List.cons_sublist_cons'.mp h with h | ⟨rfl, -⟩
    · exact .behind h
    · exact .away (List.nodup_cons.mp hnodup).1
  | away h => exact .away fun ha => h (List.mem_cons_of_mem id ha)

/-- Another thread joins the queue. -/
lemma concat (h : Between a b rest n) (ha : id ≠ a) : Between a b (rest ++ [id]) n := by
  cases h with
  | ahead h => exact .ahead (h.trans (List.sublist_append_left rest [id]))
  | behind h => exact .behind (h.trans (List.sublist_append_left rest [id]))
  | away h =>
    refine .away fun hmem => ?_
    rcases List.mem_append.mp hmem with hmem | hmem
    · exact h hmem
    · exact ha (List.mem_singleton.mp hmem).symm

/-- The second thread is resumed and waits. -/
lemma rotate (h : Between a b (b :: rest) n) (hnodup : (b :: rest).Nodup) (hab : b ≠ a) :
    Between a b (rest ++ [b]) (n + 1) := by
  obtain ⟨hb, -⟩ := List.nodup_cons.mp hnodup
  cases h with
  | ahead h =>
    rcases List.cons_sublist_cons'.mp h with h | ⟨-, h⟩
    · exact absurd (h.subset List.mem_cons_self) hb
    · exact .behind (h.append (List.Sublist.refl [b]))
  | behind h =>
    rcases List.cons_sublist_cons'.mp h with h | ⟨rfl, -⟩
    · exact absurd (h.subset (List.mem_cons_of_mem a List.mem_cons_self)) hb
    · exact absurd rfl hab
  | away h =>
    refine concat (.away fun ha => h (List.mem_cons_of_mem b ha)) hab

/-- The first thread can only be resumed again when the second one has been resumed once. -/
lemma eq_one (h : Between a b (a :: rest) n) (hnodup : (a :: rest).Nodup) (hab : b ≠ a) :
    n = 1 := by
  cases h with
  | ahead h =>
    rcases List.cons_sublist_cons'.mp h with h | ⟨rfl, -⟩
    · have ha := h.subset (List.mem_cons_of_mem b List.mem_cons_self)
      exact absurd ha (List.nodup_cons.mp hnodup).1
    · exact absurd rfl hab
  | behind => rfl
  | away h => exact absurd List.mem_cons_self h

end Between

/-- When a thread has been resumed, it is behind the others. -/
lemma Rotation.between_of_resumed (h : Rotation ts ts' (some a)) (ho : ts.Orderly) (hab : b ≠ a)
    (hb : ts'.Shows b .alive) : Between a b ts'.order 0 := by
  have hnodup : ts.order.Nodup := ho.nodup
  cases h with
  | wait _ horder horder' =>
    have hmem := hb.mem_order
    rw [horder', List.mem_append, List.mem_singleton, or_iff_left hab] at hmem
    rw [horder']
    exact .ahead ((List.singleton_sublist.mpr hmem).append (List.Sublist.refl [a]))
  | leave _ horder =>
    rw [horder] at hnodup
    exact .away (List.nodup_cons.mp hnodup).1

/-- What a request does with the places of two threads, the second of which stays alive. -/
lemma Rotation.between {n : Nat} (h : Rotation ts ts' resumed?) (ho : ts.Orderly)
    (hbetween : Between a b ts.order n) (hab : b ≠ a) (ha : a < ts.nextId)
    (hresumed : resumed? ≠ some a) (hb : ts.Shows b .alive) (hb' : ts'.Shows b .alive) :
    Between a b ts'.order (resumed?.toList.count b + n) := by
  have hnodup : ts.order.Nodup := ho.nodup
  cases h with
  | keep horder =>
    rw [horder]
    simpa using hbetween
  | join horder =>
    rw [horder]
    simpa using hbetween.concat ha.ne'
  | @drop id hkilled horder =>
    rw [horder] at hbetween hnodup
    have hne : id ≠ b := by
      rintro rfl
      cases ho.shows_unique hkilled hb
    simpa using hbetween.tail hnodup hne
  | @wait id rest halive horder horder' =>
    rw [horder] at hbetween hnodup
    rw [horder']
    by_cases hid : id = b
    · subst hid
      simpa [Nat.add_comm] using hbetween.rotate hnodup hab
    · have hne : id ≠ a := fun h => hresumed (congrArg some h)
      simpa [hid] using (hbetween.tail hnodup hid).concat hne
  | @leave id halive horder =>
    rw [horder] at hbetween hnodup
    have hne : id ≠ b := by
      rintro rfl
      exact (List.nodup_cons.mp hnodup).1 hb'.mem_order
    simpa [hne] using hbetween.tail hnodup hne

end Threads

namespace Scheduler

open Threads (Rotation Between)

variable {s s' s₀ : Scheduler} {fuel : Nat} {events earlier later : List Event}
variable {a b id : ThreadId} {t : ParsingTable} {natives : Natives} {j : Journal}

/-! ### Resumptions -/

/-- The thread that a turn would resume: the first one, if it has not been killed. -/
def next? (s : Scheduler) : Option ThreadId :=
  (s.queue.head?.filter fun t => !t.killed).map Thread.id

/-- The thread that a request resumes. -/
def Event.resumed? (event : Event) : Option ThreadId :=
  match event.request with
  | .tick => event.before.next?
  | _ => none

lemma rotation_of_tick {more : Bool} (h : s.tick fuel = some (s', more)) :
    Rotation s.threads s'.threads s.next? := by
  rcases tick_cases h with ⟨hqueue, rfl, -⟩ | ⟨-, u, queue, hqueue, hturn⟩
  · rw [show s'.next? = none by rw [next?, hqueue]; rfl]
    exact .keep rfl rfl
  · have horder : s.threads.order = u.id :: queue.map Thread.id := by
      rw [Threads.order, threads, hqueue, List.map_cons]
    have hmem : u ∈ s.queue := hqueue ▸ List.mem_cons_self
    have hnext : s.next? = if u.killed then none else some u.id := by
      rw [next?, hqueue]
      cases hkilled : u.killed <;> simp [Option.filter, hkilled]
    rcases hturn with ⟨hkilled, hthreads⟩ | ⟨halive, w, e, report, -, rfl⟩
    · rw [hnext, if_pos hkilled, hthreads]
      exact .drop ⟨u, hmem, rfl, hkilled⟩ horder rfl
    · rw [hnext, if_neg (Bool.eq_false_iff.mp halive)]
      cases report with
      | pending =>
        exact .wait ⟨u, hmem, rfl, halive⟩ horder (List.map_append ..) rfl
      | done v => exact .leave ⟨u, hmem, rfl, halive⟩ horder rfl
      | failed err => exact .leave ⟨u, hmem, rfl, halive⟩ horder rfl

/-- **What a request does with the order of the queue.** -/
theorem rotation_of_perform {request : Request} {answer : Answer}
    (h : s.perform fuel request = some (s', answer)) :
    Rotation s.threads s'.threads (Event.resumed? ⟨s, request, answer, s'⟩) := by
  by_cases htick : request = .tick
  · subst htick
    obtain ⟨⟨s₁, more⟩, htick, h⟩ := Option.map_eq_some_iff.mp h
    cases h
    exact rotation_of_tick htick
  · have hnone : Event.resumed? ⟨s, request, answer, s'⟩ = none := by
      cases request with
      | tick => exact absurd rfl htick
      | _ => rfl
    rw [hnone]
    exact (step_of_perform h).rotation htick

/-- A resumption runs the first thread of the queue. -/
lemma exists_run_of_resumed {request : Request} {answer : Answer}
    (h : s.perform fuel request = some (s', answer))
    (hresumed : Event.resumed? ⟨s, request, answer, s'⟩ = some id) : request = .tick ∧
      ∃ u queue w e report, s.queue = u :: queue ∧ u.id = id ∧ u.killed = false ∧
        u.execution.run fuel s.registry s.world = some (w, e, report) ∧
          s' = settle { s with queue := queue, world := w } id e report := by
  cases request with
  | tick =>
    obtain ⟨⟨s₁, more⟩, htick, h⟩ := Option.map_eq_some_iff.mp h
    cases h
    obtain ⟨u, hu, rfl⟩ := Option.map_eq_some_iff.mp hresumed
    obtain ⟨hhead, halive⟩ := Option.filter_eq_some_iff.mp hu
    rcases tick_cases htick with ⟨hqueue, -, -⟩ | ⟨-, v, queue, hqueue, hturn⟩
    · rw [hqueue] at hhead
      cases hhead
    · rw [hqueue] at hhead
      cases hhead
      rcases hturn with ⟨hkilled, -⟩ | ⟨halive, w, e, report, hrun, rfl⟩
      · rw [hkilled] at halive
        cases halive
      · exact ⟨rfl, u, queue, w, e, report, hqueue, rfl, halive, hrun, rfl⟩
  | _ => cases hresumed

/-- The threads that some requests resumed, the latest first. -/
def resumptions (events : List Event) : List ThreadId := events.filterMap Event.resumed?

lemma resumptions_cons (event : Event) (events : List Event) :
    resumptions (event :: events) = event.resumed?.toList ++ resumptions events := by
  rw [resumptions, List.filterMap_cons]
  cases event.resumed? <;> rfl

lemma mem_resumptions_append :
    id ∈ resumptions (later ++ earlier) ↔ id ∈ resumptions later ∨ id ∈ resumptions earlier := by
  rw [resumptions, List.filterMap_append, List.mem_append]
  rfl

lemma mem_resumptions_cons {event : Event} :
    id ∈ resumptions (event :: events) ↔ event.resumed? = some id ∨ id ∈ resumptions events := by
  rw [resumptions_cons, List.mem_append, Option.mem_toList]

/-! ### Parts of a history -/

namespace Evolves

lemma trans (h : Evolves s₀ earlier s) (h' : Evolves s later s') :
    Evolves s₀ (later ++ earlier) s' := by
  induction h' with
  | refl => exact h
  | next _ hperform ih => exact ih.next hperform

/-- A history up to one of its requests, the request, and what came after. -/
lemma split {event : Event} (h : Evolves s₀ (later ++ event :: earlier) s) :
    Evolves s₀ earlier event.before ∧
      (∃ fuel, event.before.perform fuel event.request = some (event.after, event.answer)) ∧
        Evolves event.after later s := by
  induction later generalizing s with
  | nil =>
    cases h with
    | next h hperform => exact ⟨h, ⟨_, hperform⟩, .refl⟩
  | cons last later ih =>
    cases h with
    | next h hperform =>
      obtain ⟨hearlier, hevent, hlater⟩ := ih h
      exact ⟨hearlier, hevent, hlater.next hperform⟩

lemma orderly_after {event : Event} (h : Evolves s₀ (later ++ event :: earlier) s)
    (ho : s₀.threads.Orderly) : event.after.threads.Orderly := by
  obtain ⟨hearlier, ⟨_, hperform⟩, -⟩ := h.split
  exact (hearlier.next hperform).orderly ho

lemma rotation {event : Event} (h : Evolves s₀ (later ++ event :: earlier) s) :
    Rotation event.before.threads event.after.threads event.resumed? := by
  obtain ⟨-, ⟨_, hperform⟩, -⟩ := h.split
  exact rotation_of_perform hperform

/-- **Two threads take turns**, as long as the second one is alive. -/
lemma between (h : Evolves s₀ events s) (ho : s₀.threads.Orderly)
    (hstart : Between a b s₀.threads.order 0) (hab : b ≠ a) (ha : a < s₀.nextId)
    (hresumed : ∀ event ∈ events, event.resumed? ≠ some a) (hb : s₀.threads.Shows b .alive)
    (halive : ∀ event ∈ events, event.after.threads.Shows b .alive) :
    Between a b s.threads.order ((resumptions events).count b) ∧ a < s.nextId ∧
      s.threads.Shows b .alive := by
  induction h with
  | refl => exact ⟨hstart, ha, hb⟩
  | next h hperform ih =>
    obtain ⟨hbetween, ha, hb⟩ := ih (fun event hevent => hresumed event (.tail _ hevent))
      (fun event hevent => halive event (.tail _ hevent))
    have hrotation := rotation_of_perform hperform
    have hb' := halive _ List.mem_cons_self
    refine ⟨?_, ha.trans_le hrotation.nextId_le, hb'⟩
    rw [resumptions_cons, List.count_append]
    exact hrotation.between (h.orderly ho) hbetween hab ha (hresumed _ List.mem_cons_self) hb hb'

end Evolves

/-! ### The order of first resumptions -/

/-- A request kills a thread. -/
def Event.Kills (event : Event) (id : ThreadId) : Prop :=
  event.request = .kill id ∧ event.before.threads.Shows id .alive ∧
    event.after.threads.Shows id .killed

/-- A thread has been resumed, or has been killed. -/
def Passed (events : List Event) (id : ThreadId) : Prop :=
  id ∈ resumptions events ∨ ∃ event ∈ events, event.Kills id

lemma Passed.cons {event : Event} (h : Passed events id) : Passed (event :: events) id := by
  rcases h with h | ⟨killing, hmem, hkills⟩
  · exact .inl (mem_resumptions_cons.mpr (.inr h))
  · exact .inr ⟨killing, .tail _ hmem, hkills⟩

/-- Threads that have not been resumed yet are queued in the order of their ids, and all threads
issued before one that has been resumed have passed. -/
structure Seniority (events : List Event) (s : Scheduler) : Prop where
  ascending : s.threads.order.Pairwise fun a b =>
    a ∉ resumptions events → b ∉ resumptions events → a < b
  senior : ∀ b ∈ resumptions events, ∀ a < b, Passed events a
  known : ∀ a < s.nextId, a ∈ s.threads.order ∨ Passed events a

namespace Seniority

variable {event : Event}

/-- All threads issued before the one that is resumed next have passed. -/
lemma passed_of_order (h : Seniority events s) (ho : s.threads.Orderly) {rest : List ThreadId}
    (horder : s.threads.order = b :: rest) (hab : a < b) : Passed events a := by
  have hlt : b < s.nextId := ho.lt_of_mem_order (horder ▸ List.mem_cons_self)
  rcases h.known a (hab.trans hlt) with hmem | hpassed
  · have hascending := h.ascending
    rw [horder] at hmem hascending
    have hrest := List.mem_of_ne_of_mem hab.ne hmem
    by_contra hnot
    have ha : a ∉ resumptions events := fun ha => hnot (.inl ha)
    have hb : b ∉ resumptions events := fun hb => hnot (h.senior b hb a hab)
    exact hab.not_gt ((List.pairwise_cons.mp hascending).1 a hrest hb ha)
  · exact hpassed

lemma next_ascending (h : Seniority events s) (ho : s.threads.Orderly)
    (hrotation : Rotation s.threads s'.threads event.resumed?) :
    s'.threads.order.Pairwise fun a b =>
      a ∉ resumptions (event :: events) → b ∉ resumptions (event :: events) → a < b := by
  have hascending : s.threads.order.Pairwise fun a b =>
      a ∉ resumptions (event :: events) → b ∉ resumptions (event :: events) → a < b := by
    refine h.ascending.imp fun hlt ha hb => hlt (fun h => ha ?_) (fun h => hb ?_)
    all_goals exact mem_resumptions_cons.mpr (.inr h)
  generalize hresumed : event.resumed? = resumed? at hrotation
  cases hrotation with
  | keep horder => rwa [horder]
  | join horder =>
    rw [horder, List.pairwise_append]
    refine ⟨hascending, List.pairwise_singleton _ _, fun a ha b hb _ _ => ?_⟩
    rw [List.mem_singleton.mp hb]
    exact ho.lt_of_mem_order ha
  | drop _ horder | leave _ horder =>
    rw [horder] at hascending
    exact (List.pairwise_cons.mp hascending).2
  | wait _ horder horder' =>
    rw [horder] at hascending
    rw [horder', List.pairwise_append]
    refine ⟨(List.pairwise_cons.mp hascending).2, List.pairwise_singleton _ _,
      fun a ha b hb _ hnot => ?_⟩
    -- The thread that waits has been resumed.
    rw [List.mem_singleton.mp hb] at hnot
    exact absurd (mem_resumptions_cons.mpr (.inl hresumed)) hnot

lemma next_known (h : Seniority events s)
    (hkills : s.threads.Shows a .killed → ∃ event ∈ events, event.Kills a)
    (hrotation : Rotation s.threads s'.threads event.resumed?) (ha : a < s'.nextId) :
    a ∈ s'.threads.order ∨ Passed (event :: events) a := by
  have hknown : a < s.nextId → a ∈ s.threads.order ∨ Passed (event :: events) a := fun hlt =>
    (h.known a hlt).imp_right Passed.cons
  generalize hresumed : event.resumed? = resumed? at hrotation
  cases hrotation with
  | keep horder hnext =>
    rw [horder]
    exact hknown (ha.trans_eq hnext)
  | join horder hnext =>
    rw [horder, List.mem_append, List.mem_singleton]
    rcases Nat.lt_succ_iff_lt_or_eq.mp (ha.trans_eq hnext) with hlt | rfl
    · exact (hknown hlt).imp_left .inl
    · exact .inl (.inr rfl)
  | drop hkilled horder hnext =>
    rcases hknown (ha.trans_eq hnext) with hmem | hpassed
    · rw [horder, List.mem_cons] at hmem
      rcases hmem with rfl | hmem
      · exact .inr (Passed.cons (.inr (hkills hkilled)))
      · exact .inl hmem
    · exact .inr hpassed
  | wait _ horder horder' hnext =>
    rw [horder', List.mem_append, List.mem_singleton, or_comm (a := a ∈ _)]
    rw [horder, List.mem_cons] at hknown
    exact hknown (ha.trans_eq hnext)
  | leave _ horder hnext =>
    rcases hknown (ha.trans_eq hnext) with hmem | hpassed
    · rw [horder, List.mem_cons] at hmem
      rcases hmem with rfl | hmem
      · exact .inr (.inl (mem_resumptions_cons.mpr (.inl hresumed)))
      · exact .inl hmem
    · exact .inr hpassed

end Seniority

namespace Evolves

lemma exists_kill (h : Evolves (start t natives j) events s)
    (hkilled : s.threads.Shows id .killed) : ∃ event ∈ events, event.Kills id := by
  obtain ⟨event, hevent, c, hc, hafter, hchanges⟩ := h.exists_change hkilled nofun
  generalize hrequest : event.request = request at hchanges
  cases hchanges with
  | kill => exact ⟨event, hevent, hrequest, hc, hafter⟩

/-- **Threads pass in the order of their ids.** -/
lemma seniority (h : Evolves (start t natives j) events s) : Seniority events s := by
  induction h with
  | refl =>
    exact ⟨.nil, fun _ hb => absurd hb List.not_mem_nil, fun a ha => absurd ha a.not_lt_zero⟩
  | @next events s s' fuel request answer h hperform ih =>
    have ho := h.orderly (orderly_start t natives j)
    have hrotation := rotation_of_perform hperform
    refine ⟨ih.next_ascending ho hrotation, fun b hb a hab => ?_,
      fun a ha => ih.next_known h.exists_kill hrotation ha⟩
    rcases mem_resumptions_cons.mp hb with hb | hb
    · rw [hb] at hrotation
      obtain ⟨-, rest, horder⟩ := hrotation.resumed
      exact (ih.passed_of_order ho horder hab).cons
    · exact (ih.senior b hb a hab).cons

/-- A thread that is killed or gone is not resumed, and stays killed or is gone. -/
lemma not_resumed (h : Evolves s₀ events s) (ho : s₀.threads.Orderly)
    (hdead : s₀.threads.Shows id .killed ∨ s₀.threads.Shows id .gone) :
    id ∉ resumptions events ∧ (s.threads.Shows id .killed ∨ s.threads.Shows id .gone) := by
  induction h with
  | refl => exact ⟨List.not_mem_nil, hdead⟩
  | next h hperform ih =>
    obtain ⟨hnot, hdead⟩ := ih
    have ho := h.orderly ho
    refine ⟨fun hmem => ?_, ?_⟩
    · rcases mem_resumptions_cons.mp hmem with hresumed | hmem
      · have hrotation := rotation_of_perform hperform
        rw [hresumed] at hrotation
        rcases hdead with hdead | hdead
        all_goals cases ho.shows_unique hdead hrotation.resumed.1
      · exact hnot hmem
    · have hstep := step_of_perform hperform
      rcases hdead with hdead | hdead
      · obtain ⟨c, hc, rfl | hchanges⟩ := hstep.changes ho hdead
        · exact .inl hc
        · cases hchanges
          exact .inr hc
      · exact .inr (hstep.shows_gone ho hdead)

/-- A thread that has been killed is no longer resumed. -/
lemma dead_of_kills (h : Evolves (start t natives j) events s) {event : Event}
    (hevent : event ∈ events) (hkills : event.Kills id) :
    s.threads.Shows id .killed ∨ s.threads.Shows id .gone := by
  obtain ⟨later, earlier, rfl⟩ := List.append_of_mem hevent
  obtain ⟨-, -, hlater⟩ := h.split
  have ho := h.orderly_after (orderly_start t natives j)
  exact (hlater.not_resumed ho (.inl hkills.2.2)).2

end Evolves

/-! ### All turns -/

lemma exists_ticks_of_runTurns {turns : Nat} (h : runTurns fuel turns s = some s') :
    s'.queue = [] ∧ ∃ ticks, Evolves s ticks s' ∧ ∀ event ∈ ticks, event.request = .tick := by
  induction turns generalizing s with
  | zero => cases h
  | succ turns ih =>
    rw [runTurns] at h
    split at h
    · cases h
    · next s₁ htick =>
      cases h
      refine ⟨?_, _, Evolves.refl.next (perform_tick htick), fun event hevent => ?_⟩
      · rcases tick_cases htick with ⟨hqueue, rfl, -⟩ | ⟨hmore, -⟩
        · exact hqueue
        · cases hmore
      · rw [List.mem_singleton.mp hevent]
    · next s₁ htick =>
      obtain ⟨hqueue, ticks, hticks, hrequests⟩ := ih h
      refine ⟨hqueue, _, (Evolves.refl.next (perform_tick htick)).trans hticks, ?_⟩
      intro event hevent
      rcases List.mem_append.mp hevent with hevent | hevent
      · exact hrequests event hevent
      · rw [List.mem_singleton.mp hevent]

/-! ### Round robin -/

/-- **The order of resumptions** in a history of requests, the latest first. -/
structure RoundRobin (events : List Event) (s : Scheduler) : Prop where
  /-- A resumption runs the first thread of the queue, which has not been killed. -/
  resumes : ∀ event ∈ events, ∀ id, event.resumed? = some id → event.request = .tick ∧
    ∃ u queue fuel w e report, event.before.queue = u :: queue ∧ u.id = id ∧ u.killed = false ∧
      u.execution.run fuel event.before.registry event.before.world = some (w, e, report) ∧
        event.after = settle { event.before with queue := queue, world := w } id e report
  /-- Between two successive resumptions of a thread, every other thread that is queued and not
  killed all the time is resumed once. -/
  once : ∀ later second between first earlier a b,
    events = later ++ second :: (between ++ first :: earlier) →
      first.resumed? = some a → second.resumed? = some a →
        (∀ event ∈ between, event.resumed? ≠ some a) → b ≠ a →
          (∀ event ∈ between ++ [first], event.after.threads.Shows b .alive) →
            (resumptions between).count b = 1
  /-- When a thread is resumed, each one that was issued before it has been resumed, or it has been
  killed and is never resumed. -/
  ascending : ∀ later event earlier a b, events = later ++ event :: earlier →
    event.resumed? = some b → a < b → a ∈ resumptions earlier ∨
      (∃ killing ∈ earlier, killing.Kills a) ∧ a ∉ resumptions events
  /-- All turns together are some turns, and leave no thread in the queue. -/
  idle : ∀ fuel s', s.runUntilIdle fuel = some s' →
    s'.queue = [] ∧ ∃ ticks, Evolves s ticks s' ∧ ∀ event ∈ ticks, event.request = .tick

/-- **Every history of requests to a new scheduler** resumes threads in this order. -/
theorem roundRobin (h : Evolves (start t natives j) events s) : RoundRobin events s := by
  have hstart := Evolves.orderly_start t natives j
  constructor
  case resumes =>
    intro event hevent id hresumed
    obtain ⟨later, earlier, rfl⟩ := List.append_of_mem hevent
    obtain ⟨-, ⟨fuel, hperform⟩, -⟩ := h.split
    obtain ⟨hrequest, u, queue, w, e, report, hrun⟩ := exists_run_of_resumed hperform hresumed
    exact ⟨hrequest, u, queue, fuel, w, e, report, hrun⟩
  case once =>
    rintro later second between first earlier a b rfl hfirst hsecond hbetween hab halive
    obtain ⟨hmiddle, -, -⟩ := h.split
    obtain ⟨hearlier, -, hbetweens⟩ := hmiddle.split
    have ho := hearlier.orderly hstart
    have ho' := hmiddle.orderly_after hstart
    have hrotation := hmiddle.rotation
    have hrotation' := h.rotation
    rw [hfirst] at hrotation
    rw [hsecond] at hrotation'
    have hb := halive first (List.mem_append_right _ (List.mem_singleton_self _))
    -- The first resumption puts its thread behind the other one, and the second one finds it first.
    have hplaces := hrotation.between_of_resumed ho hab hb
    have ha := (ho.lt_of_shows hrotation.resumed.1).trans_le hrotation.nextId_le
    obtain ⟨hplaces', -, -⟩ := hbetweens.between ho' hplaces hab ha hbetween hb
      fun event hevent => halive event (List.mem_append_left _ hevent)
    obtain ⟨-, rest, horder⟩ := hrotation'.resumed
    have hnodup : second.before.threads.order.Nodup := (hbetweens.orderly ho').nodup
    rw [horder] at hplaces' hnodup
    exact hplaces'.eq_one hnodup hab
  case ascending =>
    rintro later event earlier a b rfl hresumed hab
    obtain ⟨hearlier, ⟨fuel, hperform⟩, hlater⟩ := h.split
    have ho := hearlier.orderly hstart
    have hrotation := h.rotation
    rw [hresumed] at hrotation
    obtain ⟨-, rest, horder⟩ := hrotation.resumed
    rcases hearlier.seniority.passed_of_order ho horder hab with ha | ⟨killing, hkilling, hkills⟩
    · exact .inl ha
    · by_cases ha : a ∈ resumptions earlier
      · exact .inl ha
      · refine .inr ⟨⟨killing, hkilling, hkills⟩, ?_⟩
        have hdead := hearlier.dead_of_kills hkilling hkills
        have hrun := (Evolves.refl.next hperform).trans hlater
        have hnot := (hrun.not_resumed ho hdead).1
        rw [List.append_cons, mem_resumptions_append, not_or]
        exact ⟨hnot, ha⟩
  case idle => exact fun fuel s' hidle => exists_ticks_of_runTurns hidle

/-! ### Scripts that wait -/

/-- Does what some requests ask for, one after the other. -/
def performAll (fuel : Nat) :
    List Request → List Event → Scheduler → Option (List Event × Scheduler)
  | [], events, s => some (events, s)
  | request :: requests, events, s =>
    match s.perform fuel request with
    | none => none
    | some (s', answer) => performAll fuel requests (⟨s, request, answer, s'⟩ :: events) s'

lemma evolves_of_performAll {requests : List Request} {events' : List Event}
    (h : Evolves s₀ events s) (hperform : performAll fuel requests events s = some (events', s')) :
    Evolves s₀ events' s' := by
  induction requests generalizing events s with
  | nil =>
    cases hperform
    exact h
  | cons request requests ih =>
    rw [performAll] at hperform
    split at hperform
    · cases hperform
    · next s₁ answer hnext => exact ih (h.next hnext) hperform

/-- A script is a call with one argument. -/
def callRules : Array Production :=
  #[⟨"Program", [.nonTerminal "Declarations"]⟩,
    ⟨"Declarations", [.nonTerminal "Declaration"]⟩,
    ⟨"Declaration", [.nonTerminal "Statement"]⟩,
    ⟨"Statement", [.nonTerminal "ExpressionStatement"]⟩,
    ⟨"ExpressionStatement",
      [.nonTerminal "Expression", .terminal (.literal .punctuation ";")]⟩,
    ⟨"Expression", [.nonTerminal "Binary"]⟩,
    ⟨"Binary", [.nonTerminal "Unary"]⟩,
    ⟨"Unary", [.nonTerminal "Primary"]⟩,
    ⟨"Primary", [.terminal (.any .identifier), .terminal (.literal .punctuation "("),
      .nonTerminal "Arguments", .terminal (.literal .punctuation ")")]⟩,
    ⟨"Primary", [.terminal (.any .integer)]⟩,
    ⟨"Arguments", [.nonTerminal "ArgumentList"]⟩,
    ⟨"ArgumentList", [.nonTerminal "Expression"]⟩]

/-- The grammar of scripts that are calls. -/
def calls : Grammar :=
  ⟨"Program", callRules, Grammar.indexOf callRules,
    Grammar.terminalsOf callRules, rfl, rfl, by decide +kernel, by decide +kernel⟩

/-- Three scripts that wait, the second of which is killed. -/
def exampleRequests : List Request :=
  [.load "one" "wait(1);", .load "two" "wait(1);", .load "three" "wait(1);", .kill 1,
    .tick, .tick, .tick, .tick]

/-- The threads that the turns of the example resume, the latest first. -/
def exampleResumptions : Option (List ThreadId) :=
  match Strategy.simple.build calls with
  | .error _ => none
  | .ok t =>
    (performAll 1000 exampleRequests [] (start t .standard (.empty none))).map fun x =>
      resumptions x.1

lemma exampleResumptions_eq : exampleResumptions = some [0, 2, 0] := by decide +kernel

/-- The threads that have not been killed take turns. -/
theorem roundRobin_example : ∃ t events s, Strategy.simple.build calls = .ok t ∧
    Evolves (start t .standard (.empty none)) events s ∧ RoundRobin events s ∧
      resumptions events = [0, 2, 0] := by
  have h := exampleResumptions_eq
  unfold exampleResumptions at h
  split at h
  · cases h
  · next t ht =>
    obtain ⟨⟨events, s⟩, hperform, hresumptions⟩ := Option.map_eq_some_iff.mp h
    have hevolves := evolves_of_performAll .refl hperform
    exact ⟨t, events, s, ht, hevolves, roundRobin hevolves, hresumptions⟩

end Scheduler

end Coscript
