import Coscript.Proofs.ScopeMoves

/-!
# Sessions

Between the first file that is loaded and whatever comes later, files are loaded, calls are begun
and executions are run, in any order. No step of an execution moves a scope, whatever its code is,
so that the global variables of the loaded files stay in outermost scopes for ever.

* `Execution.run_grows`: what a run leaves of the scopes;
* `Session.outermost`: where the global variables of loaded files are.
-/

namespace Coscript

/-! ### Runs -/

namespace Execution

variable {r : Registry}

/-- No turn moves a scope. -/
lemma advance_grows (r : Registry) (w : World) (p : Phase) :
    w.scopes.Grows (advance r w p).world.scopes := by
  cases p with
  | finished v => exact .refl _
  | active pending current callers =>
    obtain ⟨a, hmoves⟩ := (turned r w pending current callers).moves
    exact hmoves.grows

lemma runPhase_grows {fuel : Nat} {w w' : World} {p p' : Phase} {report : Report}
    (h : runPhase r fuel w p = some (w', p', report)) : w.scopes.Grows w'.scopes := by
  induction fuel generalizing w p with
  | zero => cases h
  | succ fuel ih =>
    have hturn := advance_grows r w p
    rw [runPhase] at h
    generalize advance r w p = turn at hturn h
    obtain ⟨w₁, p₁, report?⟩ := turn
    cases report? with
    | none => exact hturn.trans (ih h)
    | some report₁ =>
      cases h
      exact hturn

/-- **No run moves a scope.** -/
theorem run_grows {fuel : Nat} {w w' : World} {e e' : Execution} {report : Report}
    (h : e.run fuel r w = some (w', e', report)) : w.scopes.Grows w'.scopes := by
  obtain ⟨⟨w₁, p₁, report₁⟩, hrun, he⟩ := Option.map_eq_some_iff.mp h
  cases he
  exact runPhase_grows hrun

/-- The beginning of a call moves no scope. -/
lemma ofCall_grows {w w' : World} {f : Function} {file : LoadedFile} {arguments : List Value}
    {e : Execution} (h : ofCall w f file arguments = .ok (w', e)) :
    w.scopes.Grows w'.scopes := by
  obtain ⟨⟨w₁, a⟩, ha, h⟩ := bind_eq_ok_iff.mp h
  cases h
  unfold Activation.ofCall at ha
  split at ha
  · cases ha
    exact (ScopeTree.grows_addChild _ _).trans (ScopeTree.grows_bind _ _ _ _)
  · cases ha

end Execution

/-! ### Sessions -/

/-- What a machine comes to by loading files, beginning calls and running executions. -/
inductive Session (o : Operators) (natives : Natives) : Registry → World → Prop
  | start (threshold : Threshold) : Session o natives (.start o natives) (.empty threshold)
  | load {r : Registry} {w : World} (h : Session o natives r w) (j : Journal)
      (c : CompiledFile) : Session o natives (r.load { w with journal := j } c).1
        (r.load { w with journal := j } c).2.1
  | call {r : Registry} {w w' : World} {f : Function} {file : LoadedFile}
      {arguments : List Value} {e : Execution} (h : Session o natives r w)
      (hcall : Execution.ofCall w f file arguments = .ok (w', e)) : Session o natives r w'
  | run {r : Registry} {w w' : World} {e e' : Execution} {fuel : Nat} {report : Report}
      (h : Session o natives r w) (hrun : e.run fuel r w = some (w', e', report)) :
      Session o natives r w'

namespace Session

variable {o : Operators} {natives : Natives} {r : Registry} {w : World}

lemma operators (h : Session o natives r w) : r.operators = o ∧ r.natives = natives := by
  induction h with
  | start => exact ⟨rfl, rfl⟩
  | load _ _ _ ih => exact ih
  | call _ _ ih => exact ih
  | run _ _ ih => exact ih

/-- **The global variables of loaded files** are in outermost scopes. -/
theorem outermost (h : Session o natives r w) {name : String} {file : LoadedFile}
    (hfile : r.files.get? name = some file) : w.scopes.Outermost file.globals := by
  induction h generalizing file with
  | start => cases hfile
  | @load r w h j c ih =>
    change (r.files.insert c.name ⟨c, w.scopes.addRoot.2⟩).get? name = some file at hfile
    rw [OrderedMap.get?_insert] at hfile
    split at hfile
    · cases hfile
      exact ScopeTree.outermost_addRoot w.scopes
    · exact (ih hfile).grows (ScopeTree.grows_addRoot w.scopes)
  | call _ hcall ih => exact (ih hfile).grows (Execution.ofCall_grows hcall)
  | run h hrun ih => exact (ih hfile).grows (Execution.run_grows hrun)

end Session

end Coscript
