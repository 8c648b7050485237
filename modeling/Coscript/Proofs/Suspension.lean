import Coscript.Proofs.Delays

/-!
# Suspension is transparent

An execution that is run again for as long as it is pending comes to a value or to an error, or runs
for ever. It makes no difference to that how long its natives take: where answers come later, the
execution comes to the same value or error, at the same place, with the same variables and the same
native calls.

The two executions are compared turn by turn. Where an answer comes later, the delayed execution
stands before the value that the other one has pushed already, in the same activation with the same
callers, until the call is answered; each of its turns before that is a poll that fails, of which
there are finitely many.

* `Execution.Settles`: what an execution comes to when it is run again and again;
* `Execution.advance_delayed`: a turn with answers that come later;
* `Execution.settles_iff_of_delays`: where answers come later, an execution settles in the same way.
-/

namespace Coscript

namespace Execution

variable {r d : Registry} {w w' w₁ : World} {e e' e₁ : Execution} {p p' p₁ : Phase}
variable {σ σ' : Store} {report report' : Report} {fuel : Nat}

/-! ### Running again and again -/

/-- What an execution comes to when it is run again for as long as it is pending. -/
inductive Settles (r : Registry) : World → Execution → Store → Execution → Report → Prop
  | once {fuel : Nat} {w w' : World} {e e' : Execution} {report : Report}
      (hrun : e.run fuel r w = some (w', e', report)) (hreport : report ≠ .pending) :
      Settles r w e w'.store e' report
  | again {fuel : Nat} {w w₁ : World} {e e₁ e' : Execution} {σ : Store} {report : Report}
      (hrun : e.run fuel r w = some (w₁, e₁, .pending)) (hlater : Settles r w₁ e₁ σ e' report) :
      Settles r w e σ e' report

/-- The same turn by turn: a turn that reports nothing, or that a call is pending, is followed by
another one. -/
inductive Comes (r : Registry) : World → Phase → Store → Phase → Report → Prop
  | stop {w w' : World} {p p' : Phase} {report : Report}
      (hturn : advance r w p = ⟨w', p', some report⟩) (hreport : report ≠ .pending) :
      Comes r w p w'.store p' report
  | turn {w w₁ : World} {p p₁ p' : Phase} {report? : Option Report} {σ : Store} {report : Report}
      (hturn : advance r w p = ⟨w₁, p₁, report?⟩)
      (hreport : report? = none ∨ report? = some .pending) (hlater : Comes r w₁ p₁ σ p' report) :
      Comes r w p σ p' report

lemma Comes.unique {q : Phase} (h : Comes r w p σ p' report) (h' : Comes r w p σ' q report') :
    σ = σ' ∧ p' = q ∧ report = report' := by
  induction h with
  | stop hturn hreport =>
    cases h' with
    | stop hturn' _ =>
      cases hturn.symm.trans hturn'
      exact ⟨rfl, rfl, rfl⟩
    | turn hturn' hreport' _ =>
      cases hturn.symm.trans hturn'
      rcases hreport' with h | h <;> cases h
      exact absurd rfl hreport
  | turn hturn hreport _ ih =>
    cases h' with
    | stop hturn' hreport' =>
      cases hturn.symm.trans hturn'
      rcases hreport with h | h <;> cases h
      exact absurd rfl hreport'
    | turn hturn' _ hlater' =>
      cases hturn.symm.trans hturn'
      exact ih hlater'

/-- A run that reports something else than a pending call is a part of the turns. -/
lemma comes_of_runPhase (hrun : runPhase r fuel w p = some (w', p', report)) :
    (report ≠ .pending → Comes r w p w'.store p' report) ∧
      (report = .pending → ∀ {σ p'' report'}, Comes r w' p' σ p'' report' →
        Comes r w p σ p'' report') := by
  induction fuel generalizing w p with
  | zero => cases hrun
  | succ fuel ih =>
    rw [runPhase] at hrun
    split at hrun
    · next w₁ p₁ report₁ hturn =>
      cases hrun
      exact ⟨.stop hturn, fun h _ _ _ => .turn hturn (.inr (congrArg some h))⟩
    · next w₁ p₁ hturn =>
      obtain ⟨hstop, hpending⟩ := ih hrun
      exact ⟨fun h => .turn hturn (.inl rfl) (hstop h),
        fun h _ _ _ hlater => .turn hturn (.inl rfl) (hpending h hlater)⟩

lemma run_eq_some_iff : e.run fuel r w = some (w', e', report) ↔
    runPhase r fuel w e.phase = some (w', e'.phase, report) ∧ e'.root = e.root := by
  unfold run
  constructor
  · intro h
    obtain ⟨⟨w₁, p₁, report₁⟩, hrun, he⟩ := Option.map_eq_some_iff.mp h
    cases he
    exact ⟨hrun, rfl⟩
  · rintro ⟨hrun, hroot⟩
    rw [hrun, ← hroot]
    rfl

lemma Settles.comes (h : Settles r w e σ e' report) :
    Comes r w e.phase σ e'.phase report ∧ e'.root = e.root := by
  induction h with
  | once hrun hreport =>
    obtain ⟨hrun, hroot⟩ := run_eq_some_iff.mp hrun
    exact ⟨(comes_of_runPhase hrun).1 hreport, hroot⟩
  | again hrun _ ih =>
    obtain ⟨hrun, hroot⟩ := run_eq_some_iff.mp hrun
    exact ⟨(comes_of_runPhase hrun).2 rfl ih.1, ih.2.trans hroot⟩

/-- A turn that reports nothing can be put before the first run. -/
lemma Settles.turn {root : Function} (hturn : advance r w p = ⟨w₁, p₁, none⟩)
    (h : Settles r w₁ ⟨root, p₁⟩ σ e' report) : Settles r w ⟨root, p⟩ σ e' report := by
  have hlonger : ∀ fuel, run (fuel + 1) r w ⟨root, p⟩ = run fuel r w₁ ⟨root, p₁⟩ := by
    intro fuel
    unfold run
    dsimp only
    rw [runPhase, hturn]
  cases h with
  | once hrun hreport => exact .once ((hlonger _).trans hrun) hreport
  | again hrun hlater => exact .again ((hlonger _).trans hrun) hlater

lemma Comes.settles (root : Function) (h : Comes r w p σ p' report) :
    Settles r w ⟨root, p⟩ σ ⟨root, p'⟩ report := by
  induction h with
  | @stop w w' p p' report hturn hreport =>
    have hrun : run 1 r w ⟨root, p⟩ = some (w', ⟨root, p'⟩, report) := by
      rw [run, runPhase, hturn]
      rfl
    exact .once hrun hreport
  | @turn w w₁ p p₁ p' report? σ report hturn hreport _ ih =>
    rcases hreport with rfl | rfl
    · exact ih.turn hturn
    · have hrun : run 1 r w ⟨root, p⟩ = some (w₁, ⟨root, p₁⟩, .pending) := by
        rw [run, runPhase, hturn]
        rfl
      exact .again hrun ih

/-- Runs again and again are turns. -/
lemma settles_iff_comes : Settles r w e σ e' report ↔
    Comes r w e.phase σ e'.phase report ∧ e'.root = e.root := by
  refine ⟨Settles.comes, fun ⟨h, hroot⟩ => ?_⟩
  obtain ⟨root', phase'⟩ := e'
  cases hroot
  exact h.settles e.root

/-- **An execution settles in one way at most.** -/
theorem Settles.unique (h : Settles r w e σ e' report) (h' : Settles r w e σ' e₁ report') :
    σ = σ' ∧ e' = e₁ ∧ report = report' := by
  obtain ⟨hcomes, hroot⟩ := h.comes
  obtain ⟨hcomes', hroot'⟩ := h'.comes
  obtain ⟨hσ, hphase, hreport⟩ := hcomes.unique hcomes'
  obtain ⟨root, phase⟩ := e'
  obtain ⟨root', phase'⟩ := e₁
  cases hroot
  cases hroot'
  cases hphase
  exact ⟨hσ, rfl, hreport⟩

/-! ### Pending and finished executions -/

/-- A run while a call is pending asks the call, and does nothing else. -/
lemma run_of_pending {call : PendingCall} {a : Activation} {callers : List Activation}
    (hphase : e.phase = .active (some call) a callers) (hpoll : call.poll = none) :
    e.run (fuel + 1) r w =
      some (w, { e with phase := .active (some call.later) a callers }, .pending) := by
  rw [run, hphase, runPhase, advance, hpoll]
  rfl

/-- A run of an execution that has returned gives its value, and does nothing. -/
lemma run_of_finished {v : Value} (hphase : e.phase = .finished v) :
    e.run (fuel + 1) r w = some (w, e, .done v) := by
  obtain ⟨root, phase⟩ := e
  cases hphase
  rfl

lemma advance_done {v : Value} (h : advance r w p = ⟨w', p', some (.done v)⟩) :
    p' = .finished v := by
  cases p with
  | finished u =>
    cases h
    rfl
  | active pending current callers =>
    cases pending with
    | some call =>
      rw [advance] at h
      cases hpoll : call.poll with
      | none =>
        rw [hpoll] at h
        cases h
      | some u =>
        rw [hpoll] at h
        cases h
    | none =>
      rw [advance, stepCurrent] at h
      generalize Running.step r ⟨w, current⟩ = result at h
      cases result with
      | error e s => cases h
      | ok outcome s =>
        cases outcome with
        | next => cases h
        | call callee =>
          dsimp only at h
          split at h <;> cases h
        | suspend call => cases h
        | ret u =>
          cases callers with
          | nil =>
            cases h
            rfl
          | cons caller rest => cases h

/-- An execution that has a value to report has returned. -/
lemma phase_of_runPhase_done {v : Value}
    (hrun : runPhase r fuel w p = some (w', p', .done v)) : p' = .finished v := by
  induction fuel generalizing w p with
  | zero => cases hrun
  | succ fuel ih =>
    rw [runPhase] at hrun
    split at hrun
    · next w₁ p₁ report₁ hturn =>
      cases hrun
      exact advance_done hturn
    · exact ih hrun

/-! ### Turns -/

/-- A turn is another one up to the log, or suspends an activation where the other turn has pushed
what the pending call will answer. -/
inductive DelayedTurn : Turn → Turn → Prop
  | same {w w' : World} {p : Phase} {report? : Option Report} (hw : w'.store = w.store) :
      DelayedTurn ⟨w, p, report?⟩ ⟨w', p, report?⟩
  | later {w w' : World} {current : Activation} {callers : List Activation} {v : Value}
      {call : PendingCall} (hw : w'.store = w.store) (hv : call.Yields v) :
      DelayedTurn
        ⟨w, .active none { current with operands := v :: current.operands } callers, none⟩
        ⟨w', .active (some call) current callers, none⟩

lemma stepCurrent_delayed (h : r.Delays d) (hw : w'.store = w.store) (current : Activation)
    (callers : List Activation) :
    DelayedTurn (stepCurrent r w current callers) (stepCurrent d w' current callers) := by
  have hstep : Running.DelayedResult (Running.step r ⟨w, current⟩) (Running.step d ⟨w', current⟩) :=
    Running.step_delayed h ⟨rfl, hw⟩
  rw [stepCurrent, stepCurrent]
  generalize Running.step r ⟨w, current⟩ = x, Running.step d ⟨w', current⟩ = y at hstep
  cases hstep with
  | later hst hv =>
    dsimp only
    rw [hst.activation]
    exact .later hst.store hv
  | same hresult =>
    cases hresult with
    | error e hst =>
      dsimp only
      rw [hst.activation]
      exact .same hst.store
    | ok outcome hst =>
      cases outcome with
      | next =>
        dsimp only
        rw [hst.activation]
        exact .same hst.store
      | call callee =>
        dsimp only
        rw [hst.activation]
        split
        · exact .same hst.store
        · exact .same hst.store
      | suspend call =>
        dsimp only
        rw [hst.activation]
        exact .same hst.store
      | ret v =>
        cases callers with
        | nil => exact .same hst.store
        | cons caller rest => exact .same hst.store

/-- **A turn with answers that come later.** -/
theorem advance_delayed (h : r.Delays d) (hw : w'.store = w.store) (p : Phase) :
    DelayedTurn (advance r w p) (advance d w' p) := by
  cases p with
  | finished v => exact .same hw
  | active pending current callers =>
    cases pending with
    | none => exact stepCurrent_delayed h hw current callers
    | some call =>
      rw [advance, advance]
      cases call.poll with
      | none => exact .same hw
      | some v => exact .same hw

/-! ### Whole executions -/

/-- A pending call is asked until it has its answer, and the execution goes on behind the push. -/
lemma Comes.of_yields {call : PendingCall} {v : Value} (hv : call.Yields v) {current : Activation}
    {callers : List Activation}
    (h : Comes r w (.active none { current with operands := v :: current.operands } callers)
      σ p' report) : Comes r w (.active (some call) current callers) σ p' report := by
  induction hv with
  | now hpoll => exact .turn (by rw [advance, hpoll]) (.inl rfl) h
  | later hpoll _ ih => exact .turn (by rw [advance, hpoll]) (.inr rfl) ih

/-- With delays an execution comes to where it comes without them. -/
lemma Comes.delayed (h : r.Delays d) (hcomes : Comes r w p σ p' report)
    (hw : w'.store = w.store) : Comes d w' p σ p' report := by
  induction hcomes generalizing w' with
  | @stop w w₁ p p' report hturn hreport =>
    have hdelayed := advance_delayed h hw p
    rw [hturn] at hdelayed
    generalize hturn' : advance d w' p = turn at hdelayed
    cases hdelayed with
    | same hw₁ => exact hw₁ ▸ .stop hturn' hreport
  | @turn w w₁ p p₁ p' report? σ report hturn hreport _ ih =>
    have hdelayed := advance_delayed h hw p
    rw [hturn] at hdelayed
    generalize hturn' : advance d w' p = turn at hdelayed
    cases hdelayed with
    | same hw₁ => exact .turn hturn' hreport (ih hw₁)
    | later hw₁ hv => exact .turn hturn' (.inl rfl) ((ih hw₁).of_yields hv)

/-- What a delayed execution stands at, seen from the execution without delays: the same, or a
pending call whose answer has been pushed there. -/
inductive Behind : Phase → Phase → Prop
  | same (p : Phase) : Behind p p
  | waiting {call : PendingCall} {v : Value} (hv : call.Yields v) (current : Activation)
      (callers : List Activation) :
      Behind (.active none { current with operands := v :: current.operands } callers)
        (.active (some call) current callers)

/-- Without delays an execution comes to where it comes with them. -/
lemma Comes.prompt (h : r.Delays d) {q : Phase} (hcomes : Comes d w' q σ p' report)
    (hbehind : Behind p q) (hw : w'.store = w.store) : Comes r w p σ p' report := by
  induction hcomes generalizing w p with
  | @stop w' w₁ q p' report hturn hreport =>
    cases hbehind with
    | same =>
      have hdelayed := advance_delayed h hw q
      rw [hturn] at hdelayed
      generalize hturn' : advance r w q = turn at hdelayed
      cases hdelayed with
      | same hw₁ => exact hw₁ ▸ .stop hturn' hreport
    | waiting hv current callers =>
      rw [advance] at hturn
      cases hv with
      | now hpoll =>
        rw [hpoll] at hturn
        cases hturn
      | later hpoll _ =>
        rw [hpoll] at hturn
        cases hturn
        exact absurd rfl hreport
  | @turn w' w₁ q q₁ p' report? σ report hturn hreport _ ih =>
    cases hbehind with
    | same =>
      have hdelayed := advance_delayed h hw q
      rw [hturn] at hdelayed
      generalize hturn' : advance r w q = turn at hdelayed
      cases hdelayed with
      | same hw₁ => exact .turn hturn' hreport (ih (.same q₁) hw₁)
      | later hw₁ hv => exact .turn hturn' (.inl rfl) (ih (.waiting hv _ _) hw₁)
    | waiting hv current callers =>
      -- The call is answered by this turn, or by a later one.
      rw [advance] at hturn
      cases hv with
      | now hpoll =>
        rw [hpoll] at hturn
        cases hturn
        exact ih (.same _) hw
      | later hpoll hlater =>
        rw [hpoll] at hturn
        cases hturn
        exact ih (.waiting hlater current callers) hw

/-- **Where answers come later, an execution settles in the same way**: with the same report, at the
same place, with the same variables and native calls. A run while a call has no answer only asks the
call, and an execution that has returned a value returns it again and does nothing. -/
theorem settles_iff_of_delays (h : r.Delays d) (w : World) (e : Execution) :
    (∀ σ e' report, Settles r w e σ e' report ↔ Settles d w e σ e' report) ∧
      ∀ s : Registry,
        (∀ call a callers fuel, e.phase = .active (some call) a callers → call.poll = none →
          e.run (fuel + 1) s w =
            some (w, { e with phase := .active (some call.later) a callers }, .pending)) ∧
        ∀ fuel w' e' v, e.run fuel s w = some (w', e', .done v) →
          ∀ (s' : Registry) (w₁ : World) (fuel' : Nat),
            e'.run (fuel' + 1) s' w₁ = some (w₁, e', .done v) := by
  refine ⟨fun σ e' report => ?_, fun s => ⟨fun call a callers fuel => run_of_pending,
    fun fuel w' e' v hrun s' w₁ fuel' => run_of_finished
      (phase_of_runPhase_done (run_eq_some_iff.mp hrun).1)⟩⟩
  rw [settles_iff_comes, settles_iff_comes]
  refine and_congr_left fun _ => ⟨fun hcomes => ?_, fun hcomes => ?_⟩
  · exact hcomes.delayed h rfl
  · exact hcomes.prompt h (.same _) rfl

/-- A registry with one native, which gives the same answer whenever it is asked. -/
def asking (answer : Reply) : Registry :=
  .start .standard (.ofList [("ask", .pure (some 0) fun _ => .ok answer)])

lemma asking_delays {v : Value} {call : PendingCall} (hv : call.Yields v) :
    (asking (.ready v)).Delays (asking (.pending call)) := by
  refine ⟨rfl, rfl, fun name => ?_⟩
  change Option.Rel _ (OrderedMap.find name [("ask", _)]) (OrderedMap.find name [("ask", _)])
  unfold OrderedMap.find
  split
  · exact .some ⟨rfl, fun _ _ => .later hv⟩
  · exact .none

/-- An execution that adds one to what a native answers. -/
def asker : Execution :=
  let code := [Instruction.pushInt 1, .call "ask" 0, .binary "+", .ret].flatMap Instruction.encode
  ofActivation (.start ⟨"asker", "main", [], code.toArray, ∅⟩ 0)

/-- An answer that is pending for three polls, with an operand below it. -/
theorem settles_iff_of_delays_example :
    (asking (.ready (.int 6))).Delays (asking (.pending (.after 3 (.int 6)))) ∧
      ∃ σ e', Settles (asking (.pending (.after 3 (.int 6)))) (.empty none) asker σ e'
        (.done (.int 7)) ∧ σ.calls = [⟨"ask", []⟩] := by
  have hdelays := asking_delays (PendingCall.yields_after 3 (.int 6))
  have hruns : (asker.run 10 (asking (.ready (.int 6))) (.empty none)).map
      (fun x => (x.2.2, x.1.calls)) = some (.done (.int 7), [⟨"ask", []⟩]) := by decide +kernel
  obtain ⟨⟨w', e', report⟩, hrun, hends⟩ := Option.map_eq_some_iff.mp hruns
  obtain ⟨rfl, hcalls⟩ := Prod.mk.inj hends
  have hsettles := Settles.once hrun (Report.noConfusion ·)
  exact ⟨hdelays, w'.store, e', ((settles_iff_of_delays hdelays _ _).1 _ _ _).mp hsettles, hcalls⟩

end Execution

end Coscript
