import OpenRtp.ConcurrentAddThread
import OpenRtp.ConcurrentScan

/-!
# Searches as single steps

`AddState` makes the search of `addThread` one step, `ScanState` goes from node to node.
With callers of `addThread` alone the list only grows, and the two agree: leaving the
moves of the iterators out of a run of `ScanState` makes it a run of `AddState` with the
same manager, mutex and results (`scans_atomic`).
-/

namespace OpenRtp

namespace ScanPhase

/-- The phase with the position of the search left out. -/
def toAdd : ScanPhase → AddPhase
  | .absent => .absent
  | .allocated pThread => .allocated pThread
  | .locked pThread => .locked pThread
  | .pushed => .pushed
  | .returned (.status ret) => .returned ret
  | _ => .called

/-- The next step of the call is one of its search. -/
def isSearching : ScanPhase → Bool
  | .called => true
  | .comparing _ => true
  | .advancing _ => true
  | _ => false

end ScanPhase

namespace ScanState

variable {ι : Type*} [DecidableEq ι] {args : ι → AddCall} {s s' : ScanState ι} {i : ι}

/-- Callers of `addThread`. -/
def adding (args : ι → AddCall) (i : ι) : ListCall := .addThread (args i).eType (args i).pRoutine

/-- The state with the positions of the searches left out. -/
def toAdd (s : ScanState ι) : AddState ι := ⟨s.manager, s.mutex, fun i => (s.phase i).toAdd⟩

/-- The step without those that only move an iterator. -/
def decides (s : ScanState ι) (i : ι) : List ι :=
  if (s.phase i).isSearching && !s.misses i then [] else [i]

theorem toAdd_enter (s : ScanState ι) (i : ι) (phase : ScanPhase) :
    (s.enter i phase).toAdd = s.toAdd.enter i phase.toAdd := by
  have phases : (fun j => ((s.enter i phase).phase j).toAdd) =
      Function.update s.toAdd.phase i phase.toAdd := funext fun j => by
    rw [enter_phase, Function.update_apply]
    split <;> rfl
  exact congrArg (AddState.mk s.manager s.mutex) phases

/-- Moving the iterator only. -/
theorem toAdd_enter_of_same {phase : ScanPhase} (same : phase.toAdd = (s.phase i).toAdd) :
    (s.enter i phase).toAdd = s.toAdd := by
  rw [toAdd_enter, same]
  exact congrArg (AddState.mk s.manager s.mutex) (Function.update_eq_self i s.toAdd.phase)

/-- A step that decides is the step of `addThread`; the others show nothing. -/
theorem toAdd_refines (s : ScanState ι) (i : ι) (s' : ScanState ι) (inv : Inv (adding args) s)
    (h : step (adding args) s i = some s') :
    run (AddState.step args) s.toAdd (s.decides i) = some s'.toAdd := by
  have decided : ∀ {t : AddState ι}, s.decides i = [i] → AddState.step args s.toAdd i = some t →
      run (AddState.step args) s.toAdd (s.decides i) = some t := by
    intro t one stepped
    rw [one]
    exact run_cons_iff.mpr ⟨t, stepped, rfl⟩
  have moved : s.decides i = [] → s'.toAdd = s.toAdd →
      run (AddState.step args) s.toAdd (s.decides i) = some s'.toAdd := by
    intro nothing same
    rw [nothing, same]
    rfl
  have holds := inv.holds i
  cases Steps.of_step h with
  | begin phase sought list =>
      exact moved (by simp [decides, phase, ScanPhase.isSearching, misses, list])
        (toAdd_enter_of_same (by rw [phase]; rfl))
  | same phase | other phase =>
      exact moved (by simp [decides, phase, ScanPhase.isSearching, misses])
        (toAdd_enter_of_same (by rw [phase]; rfl))
  | next phase member next =>
      exact moved (by simp [decides, phase, ScanPhase.isSearching, misses, next])
        (toAdd_enter_of_same (by rw [phase]; rfl))
  | beginEmpty phase sought list =>
      refine decided (by simp [decides, phase, misses, list]) ?_
      have absent : s.manager.getThread (args i).eType = none := by
        rw [RtpThreadManager.getThread, list]
        rfl
      rw [toAdd_enter]
      simp [AddState.step, toAdd, phase, ScanPhase.toAdd, absent, adding, ListCall.missed]
  | last phase member last =>
      rw [phase] at holds
      obtain ⟨eType, standing, other⟩ := holds
      cases standing.sought
      refine decided (by simp [decides, phase, misses, last]) ?_
      have absent : s.manager.getThread (args i).eType = none :=
        (standing.passed member).find_eq_none member other last
      rw [toAdd_enter]
      simp [AddState.step, toAdd, phase, ScanPhase.toAdd, absent, adding, ListCall.missed]
  | @refuse p eType pRoutine phase member call =>
      rw [phase] at holds
      obtain ⟨eType, standing, same⟩ := holds
      cases standing.sought
      refine decided (by simp [decides, phase, ScanPhase.isSearching]) ?_
      have found : s.manager.getThread (args i).eType = some p :=
        (standing.passed member).find_eq member same
      rw [toAdd_enter]
      simp [AddState.step, toAdd, phase, ScanPhase.toAdd, found]
  | allocate phase call =>
      cases call
      refine decided (by simp [decides, phase, ScanPhase.isSearching]) ?_
      rw [toAdd_enter]
      simp [AddState.step, toAdd, phase, ScanPhase.toAdd]
  | lock phase free =>
      refine decided (by simp [decides, phase, ScanPhase.isSearching]) ?_
      rw [toAdd_enter]
      simp [AddState.step, toAdd, phase, ScanPhase.toAdd, free]
  | push phase =>
      refine decided (by simp [decides, phase, ScanPhase.isSearching]) ?_
      rw [toAdd_enter]
      simp [AddState.step, toAdd, phase, ScanPhase.toAdd, setList]
  | unlock phase =>
      refine decided (by simp [decides, phase, ScanPhase.isSearching]) ?_
      rw [toAdd_enter]
      simp [AddState.step, toAdd, phase, ScanPhase.toAdd]
  | size phase call | sizeZero phase call | yield phase member call | erase phase member call =>
      cases call
  | clear phase =>
      rw [phase] at holds
      cases holds

/-- **Searches are atomic.**  A run of callers of `addThread` that go from node to node is,
with the moves of their iterators left out, a run in which each search is one step. -/
theorem scans_atomic {sched : List ι} (reached : run (step (adding args)) init sched = some s) :
    run (AddState.step args) .init (trace (step (adding args)) decides init sched) =
      some s.toAdd := by
  have refined := run_refines (I := Inv (adding args)) (fun s i t inv _ => step_inv s i t inv)
    (fun s i t inv _ => toAdd_refines s i t inv) inv_init (along_trivial init sched) reached
  exact refined

/-- Two callers with types of their own. -/
def twoTypes : Bool → AddCall := fun i => ⟨cond i .main .capture, some (cond i 1 2)⟩

/-- A search that walks while the other caller locks and pushes. -/
theorem walkDuringPush_atomic :
    ∃ s, run (step (adding twoTypes)) init
        [true, true, true, true, false, true, false, false, false, false] = some s ∧
      run (AddState.step twoTypes) .init
        [true, true, true, true, true, false, false, false] = some s.toAdd := by
  obtain ⟨s, reached⟩ : ∃ s, run (step (adding twoTypes)) init
      [true, true, true, true, false, true, false, false, false, false] = some s := ⟨_, rfl⟩
  exact ⟨s, reached, scans_atomic reached⟩

end ScanState

end OpenRtp
