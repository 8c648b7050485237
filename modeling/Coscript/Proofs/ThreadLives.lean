import Coscript.Proofs.Admissible
import Coscript.Proofs.Threads

/-!
# Lives of threads

A scheduler is asked to load files, to call functions, to take turns, and to kill threads and give
away their outcomes, in any order. Each id is issued once. From then on its thread is in one
condition at every moment, and the answers of the scheduler tell which. A thread that has been
killed is never run again: it stays in the queue as it is, and is dropped when its turn comes.

A request that runs code need not return. One that does not is no part of a history.

* `Scheduler.perform`: a request and its answer;
* `Scheduler.Evolves`: the requests between two moments;
* `Scheduler.step_of_perform`: what a request does with threads;
* `Scheduler.LifeCycle`, `Scheduler.lifeCycle`: the lives of threads in every history.
-/

namespace Coscript

namespace Scheduler

open Script (CompileError)

/-! ### Requests -/

/-- The answer to a request. -/
inductive Answer
  | loaded (outcome : Except CompileError CompiledFile)
  | invoked (outcome : Except RuntimeError Invocation)
  | spawned (outcome : Except RuntimeError ThreadId)
  | ticked (more : Bool)
  | killed (found : Bool)
  | taken (outcome : Option (Except RuntimeError Value))

/-- Does what a request asks for. Code runs for at most `fuel` turns. -/
def perform (fuel : Nat) (s : Scheduler) : Request → Option (Scheduler × Answer)
  | .load name source => (s.load fuel name source).map fun x => (x.1, .loaded x.2)
  | .invoke name arguments => (s.invoke fuel name arguments).map fun x => (x.1, .invoked x.2)
  | .spawn name arguments =>
    let x := s.spawn name arguments
    some (x.1, .spawned x.2)
  | .tick => (s.tick fuel).map fun x => (x.1, .ticked x.2)
  | .kill id =>
    let x := s.kill id
    some (x.1, .killed x.2)
  | .takeResult id =>
    let x := s.takeResult id
    some (x.1, .taken x.2)

/-- A request that has been answered, with the scheduler before and after it. -/
structure Event where
  before : Scheduler
  request : Request
  answer : Answer
  after : Scheduler

/-- The id of the thread that a request begins. A file that is loaded puts its initializer at the
end of the queue. -/
def Event.issued? (event : Event) : Option ThreadId :=
  match event.answer with
  | .loaded (.ok _) => event.after.queue.getLast?.map Thread.id
  | .invoked (.ok (.pending id)) => some id
  | .spawned (.ok id) => some id
  | _ => none

/-- What a scheduler comes to by some requests, the latest first. -/
inductive Evolves (start : Scheduler) : List Event → Scheduler → Prop
  | refl : Evolves start [] start
  | next {events : List Event} {s s' : Scheduler} {fuel : Nat} {request : Request}
      {answer : Answer} (h : Evolves start events s)
      (hperform : s.perform fuel request = some (s', answer)) :
      Evolves start (⟨s, request, answer, s'⟩ :: events) s'

/-! ### What requests do with threads -/

variable {s s' : Scheduler} {fuel : Nat} {name source : String} {arguments : List Value}
variable {t : ParsingTable} {natives : Natives} {j : Journal} {events : List Event}

lemma threads_of_call {e : Execution} (h : s.call name arguments = .ok (s', e)) :
    s'.threads = s.threads := by
  unfold call at h
  split at h
  · cases h
  · obtain ⟨⟨w, e'⟩, -, h⟩ := bind_eq_ok_iff.mp h
    cases h
    rfl

lemma step_of_load {outcome : Except CompileError CompiledFile}
    (h : s.load fuel name source = some (s', outcome)) {request : Request} :
    Threads.Step request (Event.issued? ⟨s, request, .loaded outcome, s'⟩) s.threads
      s'.threads := by
  unfold load at h
  split at h
  · cases h
  · cases h
    exact .same _
  · next j compiled _ =>
    cases h
    change Threads.Step request ((s.queue ++ [_]).getLast?.map Thread.id) _ _
    rw [List.getLast?_concat]
    exact .issue _

lemma step_of_spawn {request : Request} :
    Threads.Step request
      (Event.issued? ⟨s, request, .spawned (s.spawn name arguments).2, (s.spawn name arguments).1⟩)
      s.threads (s.spawn name arguments).1.threads := by
  unfold spawn
  split
  · exact .same _
  · next s₁ e hcall =>
    rw [← threads_of_call hcall]
    exact .issue e

lemma step_of_invoke {outcome : Except RuntimeError Invocation}
    (h : s.invoke fuel name arguments = some (s', outcome)) {request : Request} :
    Threads.Step request (Event.issued? ⟨s, request, .invoked outcome, s'⟩) s.threads
      s'.threads := by
  unfold invoke at h
  split at h
  · cases h
    exact .same _
  · next s₁ e hcall =>
    rw [← threads_of_call hcall]
    split at h
    · cases h
    · next w e' report hrun =>
      cases report with
      | done v =>
        cases h
        exact .same _
      | failed err =>
        cases h
        exact .same _
      | pending =>
        cases h
        exact .issue e'

/-- What a turn does. -/
lemma tick_cases {more : Bool} (h : s.tick fuel = some (s', more)) :
    (s.queue = [] ∧ s' = s ∧ more = false) ∨ more = true ∧ ∃ u queue, s.queue = u :: queue ∧
      ((u.killed = true ∧ s'.threads = ⟨queue, s.results, s.nextId⟩) ∨
        (u.killed = false ∧ ∃ w e report,
          u.execution.run fuel s.registry s.world = some (w, e, report) ∧
            s' = settle { s with queue := queue, world := w } u.id e report)) := by
  unfold tick at h
  split at h
  · next hqueue =>
    cases h
    exact .inl ⟨hqueue, rfl, rfl⟩
  · next u queue hqueue =>
    dsimp only at h
    split at h
    · next hkilled =>
      cases h
      exact .inr ⟨rfl, u, queue, hqueue, .inl ⟨hkilled, rfl⟩⟩
    · next halive =>
      split at h
      · cases h
      · next w e report hrun =>
        cases h
        exact .inr ⟨rfl, u, queue, hqueue, .inr ⟨Bool.eq_false_iff.mpr halive, w, e, report,
          hrun, rfl⟩⟩

lemma step_of_tick {more : Bool} (h : s.tick fuel = some (s', more)) :
    Threads.Step .tick none s.threads s'.threads := by
  rcases tick_cases h with ⟨-, rfl, -⟩ | ⟨-, u, queue, hqueue, hturn⟩
  · exact .same _
  · have hthreads : s.threads = ⟨u :: queue, s.results, s.nextId⟩ := by rw [threads, hqueue]
    rw [hthreads]
    rcases hturn with ⟨hkilled, hdropped⟩ | ⟨halive, w, e, report, -, rfl⟩
    · rw [hdropped]
      exact .drop hkilled
    · cases report with
      | done v => exact .finish halive (.ok v)
      | failed err => exact .finish halive (.error err)
      | pending => exact .wait halive e

lemma isAlive_iff {id : ThreadId} : s.isAlive id = true ↔ s.threads.Shows id .alive := by
  simp [isAlive, Threads.Shows, threads]

lemma step_of_kill (id : ThreadId) :
    Threads.Step (.kill id) none s.threads (s.kill id).1.threads := by
  unfold kill
  split
  · next halive =>
    obtain ⟨t, ht, rfl, hkilled⟩ := isAlive_iff.mp halive
    exact .kill ht hkilled
  · exact .same _

/-- **What a request does with threads.** -/
theorem step_of_perform {request : Request} {answer : Answer}
    (h : s.perform fuel request = some (s', answer)) :
    Threads.Step request (Event.issued? ⟨s, request, answer, s'⟩) s.threads s'.threads := by
  cases request with
  | load name source =>
    obtain ⟨⟨s₁, outcome⟩, hload, h⟩ := Option.map_eq_some_iff.mp h
    cases h
    exact step_of_load hload
  | invoke name arguments =>
    obtain ⟨⟨s₁, outcome⟩, hinvoke, h⟩ := Option.map_eq_some_iff.mp h
    cases h
    exact step_of_invoke hinvoke
  | spawn name arguments =>
    cases h
    exact step_of_spawn
  | tick =>
    obtain ⟨⟨s₁, more⟩, htick, h⟩ := Option.map_eq_some_iff.mp h
    cases h
    exact step_of_tick htick
  | kill id =>
    cases h
    exact step_of_kill id
  | takeResult id =>
    cases h
    exact .take id

/-! ### Histories -/

namespace Evolves

lemma orderly_start (t : ParsingTable) (natives : Natives) (j : Journal) :
    (start t natives j).threads.Orderly :=
  ⟨List.nodup_nil, fun _ h => absurd h List.not_mem_nil, fun _ _ h => nomatch h⟩

lemma orderly {s₀ : Scheduler} (h : Evolves s₀ events s) (ho : s₀.threads.Orderly) :
    s.threads.Orderly := by
  induction h with
  | refl => exact ho
  | next _ hperform ih => exact (step_of_perform hperform).orderly ih

/-- Each event of a history is a request to a scheduler with threads in order. -/
lemma step_of_mem {s₀ : Scheduler} (h : Evolves s₀ events s) (ho : s₀.threads.Orderly)
    {event : Event} (hevent : event ∈ events) :
    Threads.Step event.request event.issued? event.before.threads event.after.threads ∧
      event.before.threads.Orderly := by
  induction h with
  | refl => cases hevent
  | next h hperform ih =>
    rcases List.mem_cons.mp hevent with rfl | hevent
    · exact ⟨step_of_perform hperform, h.orderly ho⟩
    · exact ih hevent

/-- The ids that have been issued are those below the next one. -/
lemma issued (h : Evolves (start t natives j) events s) :
    (events.filterMap Event.issued?).reverse = List.range s.nextId := by
  induction h with
  | refl => rfl
  | @next events s s' fuel request answer h hperform ih =>
    have hissued := (step_of_perform hperform).issued
    change List.range s'.nextId = List.range s.nextId ++ _ at hissued
    rw [List.filterMap_cons, hissued, ← ih]
    cases Event.issued? ⟨s, request, answer, s'⟩ with
    | none => exact (List.append_nil _).symm
    | some id => exact List.reverse_cons

/-- A thread that is no longer alive was brought into its condition by one of the requests. -/
lemma exists_change (h : Evolves (start t natives j) events s) {id : ThreadId} {c' : Condition}
    (hc' : s.threads.Shows id c') (hne : c' ≠ .alive) : ∃ event ∈ events, ∃ c,
      event.before.threads.Shows id c ∧ event.after.threads.Shows id c' ∧
        c.Changes id event.request c' := by
  induction h with
  | refl => exact absurd ((orderly_start t natives j).lt_of_shows hc') (Nat.not_lt_zero id)
  | @next events s s' fuel request answer h hperform ih =>
    have hstep := step_of_perform hperform
    have ho := h.orderly (orderly_start t natives j)
    by_cases hid : id < s.nextId
    · obtain ⟨c, hc, -⟩ := ho.existsUnique_shows hid
      obtain ⟨d, hd, hchanges⟩ := hstep.changes ho hc
      obtain rfl := (hstep.orderly ho).shows_unique hd hc'
      rcases hchanges with rfl | hchanges
      · obtain ⟨event, hevent, hends⟩ := ih hc
        exact ⟨event, List.mem_cons_of_mem _ hevent, hends⟩
      · exact ⟨_, List.mem_cons_self, c, hc, hc', hchanges⟩
    · -- The id would be issued by this request, and its thread alive.
      have hmem : id ∈ List.range s'.threads.nextId :=
        List.mem_range.mpr ((hstep.orderly ho).lt_of_shows hc')
      rw [hstep.issued, List.mem_append, List.mem_range, Option.mem_toList] at hmem
      rw [hmem.resolve_left hid] at hstep
      exact absurd ((hstep.orderly ho).shows_unique hc' hstep.shows_issued) hne

/-- A thread that is gone has been dropped after a kill, or its outcome has been taken. -/
lemma exists_ending (h : Evolves (start t natives j) events s) {id : ThreadId}
    (hgone : s.threads.Shows id .gone) : ∃ event ∈ events, ∃ c,
      event.before.threads.Shows id c ∧ event.after.threads.Shows id .gone ∧
        c.Changes id event.request .gone :=
  h.exists_change hgone nofun

/-- A thread that has been killed stays in the queue as it is, until it is gone. -/
lemma keeps_killed {s₀ : Scheduler} (h : Evolves s₀ events s) (ho : s₀.threads.Orderly)
    {u : Thread} (hu : u ∈ s₀.queue) (hkilled : u.killed = true) :
    u ∈ s.queue ∨ s.threads.Shows u.id .gone := by
  induction h with
  | refl => exact .inl hu
  | next h hperform ih =>
    have hstep := step_of_perform hperform
    rcases ih with hmem | hgone
    · exact hstep.keeps_killed (h.orderly ho) hmem hkilled
    · exact .inr (hstep.shows_gone (h.orderly ho) hgone)

end Evolves

lemma perform_tick {more : Bool} (h : s.tick fuel = some (s', more)) :
    s.perform fuel .tick = some (s', .ticked more) := by
  rw [perform, h]
  rfl

/-- The next thread is dropped if it has been killed, and nothing else happens. -/
lemma tick_of_killed {u : Thread} (hhead : s.queue.head? = some u) (hkilled : u.killed = true)
    (fuel : Nat) : ∃ j, s.tick fuel = some ({ s with
      queue := s.queue.tail, world := { s.world with journal := j } }, true) := by
  obtain ⟨queue, hqueue⟩ := List.head?_eq_some_iff.mp hhead
  unfold tick
  rw [hqueue]
  dsimp only
  rw [if_pos hkilled]
  exact ⟨_, rfl⟩

/-! ### The lives of threads -/

/-- **The lives of threads** in a history of requests, the latest first. -/
structure LifeCycle (events : List Event) (s : Scheduler) : Prop where
  /-- Ids are counted up as they are issued: each of them is issued once. -/
  issued : (events.filterMap Event.issued?).reverse = List.range s.nextId
  /-- A thread begins alive. -/
  begins : ∀ event ∈ events, ∀ id, event.issued? = some id → event.after.threads.Shows id .alive
  /-- A thread that has been issued is in one condition. -/
  condition : ∀ id ∈ events.filterMap Event.issued?, ∃! c, s.threads.Shows id c
  /-- The changes of condition that a request makes. -/
  changes : ∀ event ∈ events, ∀ id c c', event.before.threads.Shows id c →
    event.after.threads.Shows id c' → c = c' ∨ c.Changes id event.request c'
  /-- A thread that is gone has been dropped after a kill, or its outcome has been taken. -/
  ending : ∀ id, s.threads.Shows id .gone → ∃ event ∈ events, ∃ c,
    event.before.threads.Shows id c ∧ event.after.threads.Shows id .gone ∧
      c.Changes id event.request .gone
  isAlive : ∀ id, s.isAlive id = true ↔ s.threads.Shows id .alive
  result : ∀ id, (s.result? id).isSome = true ↔ s.threads.Shows id .finished
  /-- The outcome of a finished thread is given away once. -/
  take : ∀ id, (s.takeResult id).2 = s.result? id ∧
    (s.threads.Shows id .finished → (s.takeResult id).1.threads.Shows id .gone)
  /-- Threads that are alive are killed, and nothing happens to others. -/
  kill : ∀ id, ((s.kill id).2 = true ↔ s.threads.Shows id .alive) ∧
    (s.threads.Shows id .alive → (s.kill id).1.threads.Shows id .killed) ∧
      (¬ s.threads.Shows id .alive → (s.kill id).1 = s)
  /-- A thread that has been killed is what it was for as long as it is queued, has no outcome ever,
  and when its turn comes it is dropped, which changes nothing but the queue and the log. -/
  killed : ∀ u ∈ s.queue, u.killed = true → ∀ later s', Evolves s later s' →
    (∀ v ∈ s'.queue, v.id = u.id → v = u) ∧ s'.result? u.id = none ∧
      (s'.queue.head? = some u → ∀ fuel, ∃ j, s'.tick fuel = some ({ s' with
        queue := s'.queue.tail, world := { s'.world with journal := j } }, true))

/-- **Every history of requests to a new scheduler** lets threads live like this. -/
theorem lifeCycle (h : Evolves (start t natives j) events s) : LifeCycle events s := by
  have ho := h.orderly (Evolves.orderly_start t natives j)
  have hsteps : ∀ event ∈ events, _ := fun _ hevent =>
    h.step_of_mem (Evolves.orderly_start t natives j) hevent
  constructor
  case issued => exact h.issued
  case begins =>
    intro event hevent id hissued
    obtain ⟨hstep, -⟩ := hsteps event hevent
    rw [hissued] at hstep
    exact hstep.shows_issued
  case condition =>
    intro id hid
    rw [← List.mem_reverse, h.issued, List.mem_range] at hid
    exact ho.existsUnique_shows hid
  case changes =>
    intro event hevent id c c' hc hc'
    obtain ⟨hstep, ho⟩ := hsteps event hevent
    obtain ⟨d, hd, hchanges⟩ := hstep.changes ho hc
    obtain rfl := (hstep.orderly ho).shows_unique hd hc'
    exact hchanges
  case ending => exact fun id hgone => h.exists_ending hgone
  case isAlive => exact fun id => isAlive_iff
  case result => exact fun id => Option.isSome_iff_exists
  case take => exact fun id => ⟨rfl, fun hfinished => ho.shows_erase hfinished⟩
  case kill =>
    refine fun id => ⟨?_, fun halive => ?_, fun hnot => ?_⟩
    · rw [← isAlive_iff, Scheduler.kill]
      split
      · next halive => exact iff_of_true rfl halive
      · next hnot => exact iff_of_false Bool.false_ne_true hnot
    · have halive' := isAlive_iff.mpr halive
      obtain ⟨u, hu, rfl, -⟩ := halive
      rw [Scheduler.kill, if_pos halive']
      exact Threads.shows_killing hu
    · rw [Scheduler.kill, if_neg fun halive => hnot (isAlive_iff.mp halive)]
  case killed =>
    intro u hu hkilled later s' hlater
    have ho' := hlater.orderly ho
    refine ⟨fun v hv hid => ?_, ?_, fun hhead => tick_of_killed hhead hkilled⟩
    · rcases hlater.keeps_killed ho hu hkilled with hmem | hgone
      · exact ho'.eq_of_id hv hmem hid
      · exact absurd hid (hgone.2.1 v hv)
    · rcases hlater.keeps_killed ho hu hkilled with hmem | hgone
      · exact (ho'.queued u hmem).2
      · exact hgone.2.2

/-- The initializer of the example is killed before its turn comes. -/
theorem lifeCycle_example : ∃ t events s, Evolves (start t .standard (.empty none)) events s ∧
    LifeCycle events s ∧ events.length = 3 ∧ s.threads.Shows 0 .gone := by
  obtain ⟨t, j, c, ht, hcompile, -⟩ := Script.exists_compiled
  obtain ⟨s₁, hload, e, hqueue⟩ : ∃ s₁,
      (start t .standard (.empty none)).load 1000 "main" Script.exampleSource =
        some (s₁, .ok c) ∧ ∃ e, s₁.queue = [⟨0, e, false⟩] := by
    have hcompile' : Script.compile 1000 (start t .standard (.empty none)).table
        (start t .standard (.empty none)).registry.operators "main" Script.exampleSource
        (start t .standard (.empty none)).world.journal = some (j, .ok c) := hcompile
    unfold load
    rw [hcompile']
    exact ⟨_, rfl, _, rfl⟩
  have hload' : (start t .standard (.empty none)).perform 1000 (.load "main" Script.exampleSource) =
      some (s₁, .loaded (.ok c)) := by
    rw [perform, hload]
    rfl
  have hloaded := Evolves.refl.next hload'
  have hkill : s₁.perform 0 (.kill 0) = some ((s₁.kill 0).1, .killed (s₁.kill 0).2) := rfl
  have hdies := hloaded.next hkill
  have hdead : (s₁.kill 0).1.queue = [⟨0, e, true⟩] := by simp [kill, isAlive, hqueue, note]
  have hmem : ⟨0, e, true⟩ ∈ (s₁.kill 0).1.queue := hdead ▸ List.mem_singleton_self _
  obtain ⟨j', htick⟩ := tick_of_killed (congrArg List.head? hdead) rfl 0
  have htick' := perform_tick htick
  have hends := hdies.next htick'
  have ho := hends.orderly (Evolves.orderly_start t .standard (.empty none))
  obtain ⟨-, hresult, -⟩ := (lifeCycle hdies).killed _ hmem rfl _ _ (Evolves.refl.next htick')
  have hlt := ((hdies.orderly (Evolves.orderly_start t _ _)).queued _ hmem).1
  have hempty : (s₁.kill 0).1.queue.tail = [] := by rw [hdead]; rfl
  refine ⟨t, _, _, hends, lifeCycle hends, rfl, hlt, fun u hu => ?_, hresult⟩
  exact absurd (hempty ▸ hu) List.not_mem_nil

end Scheduler

end Coscript
