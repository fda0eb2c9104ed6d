import Mathlib.Data.Fin.VecNotation
import Mathlib.Logic.Function.Basic
import OpenRtp.ConcurrentScan
import OpenRtp.ConcurrentSpawn

/-!
# Concurrent calls of every operation of the manager

Any number of callers of all eight operations, interleaved at every access to the list, to
an entry and to the system's threads.  Only `addThread` takes the mutex.  What an operation
does to the list is a call of `ConcurrentScan`: `spawnThread` and `killThread` begin with
`getThread`.  `spawnAllThreads` and `killAllThreads` walk the list with an iterator of
their own, which stands at a node while the entry of that node is spawned.

`noDangling_iff`: no iterator is ever left at an erased node exactly when every `erase` and
`clear` is made while no other call, whichever operation it is of, stands at what it erases.
-/

namespace OpenRtp

namespace ManagerOp

/-- The call on the list that an operation begins with. -/
def listCall : ManagerOp → Option ListCall
  | .addThread eType pRoutine => some (.addThread eType pRoutine)
  | .getThread eType => some (.getThread eType)
  | .spawnThread eType => some (.getThread eType)
  | .killThread eType => some (.getThread eType)
  | .cleanThread eType => some (.cleanThread eType)
  | .cleanAllThreads => some .cleanAllThreads
  | .spawnAllThreads => none
  | .killAllThreads => none

/-- The operation is a loop over the entries. -/
def loops : ManagerOp → Bool
  | .spawnAllThreads => true
  | .killAllThreads => true
  | _ => false

/-- The operation calls `RtpThread::spawnThread`. -/
def spawns : ManagerOp → Bool
  | .spawnThread _ => true
  | .spawnAllThreads => true
  | _ => false

/-- The operation signals threads, or once did. -/
def kills : ManagerOp → Bool
  | .killThread _ => true
  | .killAllThreads => true
  | _ => false

theorem listCall_eq_none {op : ManagerOp} (loops : op.loops = true) : op.listCall = none := by
  cases op <;> first | rfl | cases loops

theorem acts_of_loops {op : ManagerOp} (loops : op.loops = true) :
    op.spawns = true ∨ op.kills = true := by
  cases op <;> simp_all [ManagerOp.loops, spawns, kills]

end ManagerOp

/-- How far a call has come. -/
inductive CallPhase
  /-- In a call on the list. -/
  | scan (phase : ScanPhase)
  /-- A loop is about to read `*iter`. -/
  | visiting (pThread : Nat)
  /-- About to read the flag in the manager. -/
  | checking (pThread : Nat)
  /-- In `RtpThread::spawnThread`, about to read the flag again. -/
  | entered (pThread : Nat)
  /-- About to call `pthread_create`. -/
  | creating (pThread : Nat)
  /-- About to set the flag. -/
  | created (pThread : Nat)
  /-- In `killThread`, about to read the handle. -/
  | spawned (pThread : Nat)
  /-- About to call `pthread_kill`. -/
  | signalling (pThread : Nat) (handler : RtpThreadHandler)
  /-- About to call `pthread_join`. -/
  | joining (pThread : Nat) (handler : RtpThreadHandler)
  /-- The body of a loop is done, and `iter++` is next. -/
  | advancing (pThread : Nat)
  | returned (ret : RtpResult)
deriving DecidableEq, Repr

namespace CallPhase

/-- The phase of the call on the list; none is under way once it has returned to the
operation, and none ever is in a loop. -/
def onList : CallPhase → ScanPhase
  | .scan phase => phase
  | _ => .called

/-- The call is in a call on the list. -/
def isScan : CallPhase → Bool
  | .scan _ => true
  | _ => false

theorem onList_of_off {phase : CallPhase} (off : phase.isScan = false) :
    phase.onList = .called := by
  cases phase <;> first | rfl | cases off

/-- The entry the operation has in hand. -/
def entry : CallPhase → Option Nat
  | .scan (.returned (.thread found)) => found
  | .visiting pThread => some pThread
  | .checking pThread => some pThread
  | .entered pThread => some pThread
  | .creating pThread => some pThread
  | .created pThread => some pThread
  | .spawned pThread => some pThread
  | .signalling pThread _ => some pThread
  | .joining pThread _ => some pThread
  | .advancing pThread => some pThread
  | _ => none

/-- The node an iterator of the call stands at.  A loop keeps its iterator while it has
an entry in hand, the other operations have left theirs behind in `getThread`. -/
def cursor (op : ManagerOp) (phase : CallPhase) : Option Nat :=
  if op.loops then phase.entry else phase.onList.cursor

end CallPhase

namespace ManagerOp

/-- Where an operation goes when `getThread` has returned to it. -/
def resume : ManagerOp → ScanPhase → Option CallPhase
  | .spawnThread _, .returned (.thread none) => some (.returned .sFail)
  | .spawnThread _, .returned (.thread (some pThread)) => some (.checking pThread)
  | .killThread _, .returned (.thread none) => some (.returned .sFail)
  | .killThread _, .returned (.thread (some pThread)) => some (.checking pThread)
  | _, _ => none

/-- Where an operation goes when it has read the flag of an entry. -/
def checked : ManagerOp → Nat → Bool → Option CallPhase
  | .spawnThread _, pThread, flag =>
      some (if flag then .returned .sFail else .entered pThread)
  | .spawnAllThreads, pThread, flag =>
      some (if flag then .advancing pThread else .entered pThread)
  | .killThread _, pThread, flag =>
      some (if flag then .spawned pThread else .returned .sFail)
  | .killAllThreads, pThread, flag =>
      some (if flag then .advancing pThread else .returned .sFail)
  | _, _, _ => none

/-- Where an operation goes when it has spawned an entry. -/
def spawnedOne (op : ManagerOp) (pThread : Nat) : CallPhase :=
  if op.loops then .advancing pThread else .returned .sOk

end ManagerOp

/-- The manager, the holder of `m_mtxThreadManagerMutex`, and the callers. -/
structure ManagerState (ι : Type*) where
  manager : RtpThreadManager
  mutex : Option ι
  phase : ι → CallPhase

namespace ManagerState

variable {ι : Type*} [DecidableEq ι] {env : PthreadEnv} {calls : ι → ManagerOp}
  {s s' : ManagerState ι} {i j : ι} {p q : Nat}

def init : ManagerState ι := ⟨RtpThreadManager.init, none, fun _ => .scan .called⟩

def enter (s : ManagerState ι) (i : ι) (phase : CallPhase) : ManagerState ι :=
  { s with phase := Function.update s.phase i phase }

/-- The state with another manager. -/
def withManager (s : ManagerState ι) (manager : RtpThreadManager) : ManagerState ι :=
  { s with manager }

/-- The calls on the list; a loop makes none. -/
def listCalls (calls : ι → ManagerOp) (i : ι) : ListCall :=
  (calls i).listCall.getD .cleanAllThreads

/-- What the calls on the list see. -/
def scan (s : ManagerState ι) : ScanState ι := ⟨s.manager, s.mutex, fun i => (s.phase i).onList⟩

/-- The state after `i` has taken a step on the list. -/
def adopt (s : ManagerState ι) (i : ι) (t : ScanState ι) : ManagerState ι :=
  ⟨t.manager, t.mutex, Function.update s.phase i (.scan (t.phase i))⟩

/-- The next step of caller `i`; it waits while another caller holds the mutex. -/
def step (env : PthreadEnv) (calls : ι → ManagerOp) (s : ManagerState ι) (i : ι) :
    Option (ManagerState ι) :=
  match s.phase i with
  | .scan phase =>
      if (calls i).loops then
        match s.manager.listThreadList.head? with
        | some p => some (s.enter i (.visiting p))
        | none => some (s.enter i (.returned .sOk))
      else
        match (calls i).resume phase with
        | some next => some (s.enter i next)
        | none => (ScanState.step (listCalls calls) s.scan i).map (s.adopt i)
  | .visiting p =>
      if p ∈ s.manager.listThreadList then some (s.enter i (.checking p)) else none
  | .checking p =>
      ((calls i).checked p (s.manager.deref p).bThreadSpawned).map (s.enter i)
  | .entered p =>
      if (s.manager.deref p).bThreadSpawned then some (s.enter i (.returned .sFail))
      else some (s.enter i (.creating p))
  | .creating p =>
      let (val, manager) := SpawnState.create env s.manager p
      if val ≠ 0 then some ((s.withManager manager).enter i (.returned .sFail))
      else some ((s.withManager manager).enter i (.created p))
  | .created p =>
      some ((s.withManager (s.manager.setSpawned p)).enter i ((calls i).spawnedOne p))
  | .spawned p => some (s.enter i (.signalling p (s.manager.deref p).ulThreadHandler))
  | .signalling p handler =>
      let (val, system) := s.manager.system.pthreadKill env p handler
      if val ≠ 0 then
        some ((s.withManager { s.manager with system }).enter i (.returned .sFail))
      else some ((s.withManager { s.manager with system }).enter i (.joining p handler))
  | .joining p handler =>
      let (val, system) := s.manager.system.pthreadJoin env p handler
      if val ≠ 0 then
        some ((s.withManager { s.manager with system }).enter i (.returned .sFail))
      else some ((s.withManager { s.manager with system }).enter i (.returned .sOk))
  | .advancing p =>
      if p ∈ s.manager.listThreadList then
        match Cursor.next? s.manager.listThreadList p with
        | some q => some (s.enter i (.visiting q))
        | none => some (s.enter i (.returned .sOk))
      else none
  | .returned _ => none

/-- The steps of `step`, one constructor each. -/
inductive Steps (env : PthreadEnv) (calls : ι → ManagerOp) (s : ManagerState ι) (i : ι) :
    ManagerState ι → Prop
  | scan {phase : ScanPhase} {t : ScanState ι} (here : s.phase i = .scan phase)
      (single : (calls i).loops = false) (running : (calls i).resume phase = none)
      (moved : ScanState.Steps (listCalls calls) s.scan i t) : Steps env calls s i (s.adopt i t)
  | resume {phase : ScanPhase} {after : CallPhase} (here : s.phase i = .scan phase)
      (single : (calls i).loops = false) (resumed : (calls i).resume phase = some after) :
      Steps env calls s i (s.enter i after)
  | begin {phase : ScanPhase} {p : Nat} {ps : List Nat} (here : s.phase i = .scan phase)
      (loops : (calls i).loops = true) (list : s.manager.listThreadList = p :: ps) :
      Steps env calls s i (s.enter i (.visiting p))
  | beginEmpty {phase : ScanPhase} (here : s.phase i = .scan phase)
      (loops : (calls i).loops = true) (list : s.manager.listThreadList = []) :
      Steps env calls s i (s.enter i (.returned .sOk))
  | visit {p : Nat} (here : s.phase i = .visiting p) (member : p ∈ s.manager.listThreadList) :
      Steps env calls s i (s.enter i (.checking p))
  | check {p : Nat} {after : CallPhase} (here : s.phase i = .checking p)
      (checked : (calls i).checked p (s.manager.deref p).bThreadSpawned = some after) :
      Steps env calls s i (s.enter i after)
  | refuse {p : Nat} (here : s.phase i = .entered p)
      (flag : (s.manager.deref p).bThreadSpawned = true) :
      Steps env calls s i (s.enter i (.returned .sFail))
  | read {p : Nat} (here : s.phase i = .entered p)
      (flag : (s.manager.deref p).bThreadSpawned = false) :
      Steps env calls s i (s.enter i (.creating p))
  | createFailed {p : Nat} (here : s.phase i = .creating p)
      (failed : env.create s.manager.system.calls.length ≠ 0) :
      Steps env calls s i ((s.withManager (SpawnState.create env s.manager p).2).enter i
        (.returned .sFail))
  | create {p : Nat} (here : s.phase i = .creating p)
      (created : env.create s.manager.system.calls.length = 0) :
      Steps env calls s i ((s.withManager (SpawnState.create env s.manager p).2).enter i
        (.created p))
  | mark {p : Nat} (here : s.phase i = .created p) :
      Steps env calls s i ((s.withManager (s.manager.setSpawned p)).enter i
        ((calls i).spawnedOne p))
  | handle {p : Nat} (here : s.phase i = .spawned p) :
      Steps env calls s i (s.enter i (.signalling p (s.manager.deref p).ulThreadHandler))
  | signal {p : Nat} {handler : RtpThreadHandler} {after : CallPhase}
      (here : s.phase i = .signalling p handler)
      (result : after = .returned .sFail ∨ after = .joining p handler) :
      Steps env calls s i ((s.withManager { s.manager with
        system := (s.manager.system.pthreadKill env p handler).2 }).enter i after)
  | join {p : Nat} {handler : RtpThreadHandler} (ret : RtpResult)
      (here : s.phase i = .joining p handler) :
      Steps env calls s i ((s.withManager { s.manager with
        system := (s.manager.system.pthreadJoin env p handler).2 }).enter i (.returned ret))
  | advance {p q : Nat} (here : s.phase i = .advancing p)
      (member : p ∈ s.manager.listThreadList)
      (next : Cursor.next? s.manager.listThreadList p = some q) :
      Steps env calls s i (s.enter i (.visiting q))
  | last {p : Nat} (here : s.phase i = .advancing p)
      (member : p ∈ s.manager.listThreadList)
      (last : Cursor.next? s.manager.listThreadList p = none) :
      Steps env calls s i (s.enter i (.returned .sOk))

theorem Steps.of_step (h : step env calls s i = some s') : Steps env calls s i s' := by
  unfold step at h
  split at h
  · next phase here =>
      split at h
      · next loops =>
          split at h
          · next p head =>
              obtain ⟨ps, list⟩ := List.head?_eq_some_iff.mp head
              cases h
              exact .begin here loops list
          · next empty =>
              cases h
              exact .beginEmpty here loops (List.head?_eq_none_iff.mp empty)
      · next single =>
          have single := eq_false_of_ne_true single
          split at h
          · next after resumed => cases h; exact .resume here single resumed
          · next running =>
              obtain ⟨t, moved, rfl⟩ := Option.map_eq_some_iff.mp h
              exact .scan here single running (.of_step moved)
  · next p here =>
      split at h
      · next member => cases h; exact .visit here member
      · cases h
  · next p here =>
      obtain ⟨after, checked, rfl⟩ := Option.map_eq_some_iff.mp h
      exact .check here checked
  · next p here =>
      split at h
      · next flag => cases h; exact .refuse here flag
      · next flag => cases h; exact .read here (eq_false_of_ne_true flag)
  · next p here =>
      have val := SpawnState.create_val env s.manager p
      dsimp only at h
      split at h
      · next failed => cases h; exact .createFailed here (val ▸ failed)
      · next created => cases h; exact .create here (val ▸ of_not_not created)
  · next p here => cases h; exact .mark here
  · next p here => cases h; exact .handle here
  · next p handler here =>
      dsimp only at h
      split at h
      · cases h; exact .signal here (.inl rfl)
      · cases h; exact .signal here (.inr rfl)
  · next p handler here =>
      dsimp only at h
      split at h
      · cases h; exact .join .sFail here
      · cases h; exact .join .sOk here
  · next p here =>
      split at h
      · next member =>
          split at h
          · next q next => cases h; exact .advance here member next
          · next last => cases h; exact .last here member last
      · cases h
  · cases h

@[simp] theorem enter_phase (phase : CallPhase) (j : ι) :
    (s.enter i phase).phase j = if j = i then phase else s.phase j :=
  Function.update_apply _ _ _ _

@[simp] theorem enter_manager (phase : CallPhase) : (s.enter i phase).manager = s.manager := rfl

omit [DecidableEq ι] in
@[simp] theorem withManager_manager (m : RtpThreadManager) : (s.withManager m).manager = m := rfl

theorem adopt_phase (t : ScanState ι) (j : ι) :
    (s.adopt i t).phase j = if j = i then .scan (t.phase i) else s.phase j :=
  Function.update_apply _ _ _ _

theorem Steps.phase_of_ne (h : Steps env calls s i s') (other : j ≠ i) :
    s'.phase j = s.phase j := by
  cases h with
  | scan => exact (adopt_phase _ j).trans (if_neg other)
  | resume | begin | beginEmpty | visit | check | refuse | read | createFailed | create | mark
  | handle | signal | join | advance | last => exact (enter_phase _ j).trans (if_neg other)

/-! ## The list as the calls on it see it -/

theorem scan_enter (phase : CallPhase) :
    (s.enter i phase).scan = s.scan.enter i phase.onList :=
  congrArg (ScanState.mk s.manager s.mutex) (Function.comp_update CallPhase.onList s.phase i phase)

/-- A step on the list is a step of what the calls on the list see. -/
theorem scan_adopt {t : ScanState ι} (moved : ScanState.Steps (listCalls calls) s.scan i t) :
    (s.adopt i t).scan = t := by
  refine congrArg (ScanState.mk t.manager t.mutex) (funext fun j => ?_)
  rw [adopt_phase]
  split
  · next here => rw [here]; rfl
  · next other => exact (moved.phase_of_ne other).symm

end ManagerState

/-! ## Steps that leave the list alone -/

/-- `m'` has the list of `m`, and its entries but for their flags and handles. -/
structure SameEntries (m m' : RtpThreadManager) : Prop where
  list : m'.listThreadList = m.listThreadList
  size : m'.objects.size = m.objects.size
  entryOf : ∀ p, m'.entryOf p = m.entryOf p

theorem SameEntries.refl (m : RtpThreadManager) : SameEntries m m := ⟨rfl, rfl, fun _ => rfl⟩

theorem SameEntries.typeOf {m m' : RtpThreadManager} (same : SameEntries m m') (p : Nat) :
    m'.typeOf p = m.typeOf p :=
  congrArg Prod.fst (same.entryOf p)

/-- Another system has the same entries. -/
theorem SameEntries.system (m : RtpThreadManager) (system : ThreadSystem) :
    SameEntries m { m with system } :=
  ⟨rfl, rfl, fun _ => rfl⟩

theorem SameEntries.create {m : RtpThreadManager} {p : Nat} (env : PthreadEnv)
    (valid : p < m.objects.size) : SameEntries m (SpawnState.create env m p).2 := by
  have stored := SpawnState.handleStored_create env valid
  refine ⟨stored.list, stored.size, fun q => ?_⟩
  rw [RtpThreadManager.entryOf, stored.deref q]
  split
  · next same => rw [same]; rfl
  · rfl

theorem SameEntries.setSpawned {m : RtpThreadManager} {p : Nat} (valid : p < m.objects.size) :
    SameEntries m (m.setSpawned p) := by
  refine ⟨rfl, Table.size_modify _ _ _, fun q => ?_⟩
  rw [RtpThreadManager.entryOf, SpawnState.deref_marked valid q]
  split
  · next same => rw [same]; rfl
  · rfl

/-- What the callers of a list have noted does not depend on flags and handles. -/
theorem ScanState.Inv.withManager {ι : Type*} {calls : ι → ListCall} {s : ScanState ι}
    {m : RtpThreadManager} (inv : Inv calls s) (same : SameEntries s.manager m) :
    Inv calls { s with manager := m } where
  valid p member := same.size ▸ inv.valid p (same.list ▸ member)
  nodup := same.list ▸ inv.nodup
  holds i := by
    refine (inv.holds i).mono same.size.ge (fun q _ => same.entryOf q) ?_ ?_
    · intro q eType _ member passed
      rw [same.list] at member ⊢
      exact (passed member).congr fun q _ => same.typeOf q
    · intro q _ absent
      rwa [same.list]
  apart := inv.apart
  once := inv.once

namespace ManagerState

variable {ι : Type*} [DecidableEq ι] {env : PthreadEnv} {calls : ι → ManagerOp}
  {s s' : ManagerState ι} {i j : ι} {p q : Nat}

/-- The phases an operation can be in. -/
def Fits (op : ManagerOp) : CallPhase → Prop
  | .scan phase => op.loops = true → phase = .called
  | .visiting _ => op.loops = true
  | .advancing _ => op.loops = true
  | .checking _ => op.spawns = true ∨ op.kills = true
  | .entered _ => op.spawns = true
  | .creating _ => op.spawns = true
  | .created _ => op.spawns = true
  | .spawned _ => op.kills = true ∧ op.loops = false
  | .signalling _ _ => op.kills = true ∧ op.loops = false
  | .joining _ _ => op.kills = true ∧ op.loops = false
  | .returned _ => op.spawns = true ∨ op.kills = true

/-- What the calls on the list have noted is true of it, and every entry in hand is an
object that nobody has yet to list. -/
structure Inv (calls : ι → ManagerOp) (s : ManagerState ι) : Prop where
  scan : s.scan.Inv (listCalls calls)
  fits : ∀ i, Fits (calls i) (s.phase i)
  valid : ∀ i p, (s.phase i).entry = some p → p < s.manager.objects.size
  once : ∀ i j p, (s.phase i).onList.unlisted = some p → (s.phase j).entry ≠ some p

omit [DecidableEq ι] in
theorem inv_init : Inv calls init where
  scan := ScanState.inv_init
  fits i := fun _ => rfl
  valid i p here := by cases here
  once i j p unlisted := by cases unlisted

/-- A step of `i` that leaves the list alone keeps the invariant, if the entry `i` has in
hand afterwards is one it had in hand or one that is listed. -/
theorem Inv.move {m : RtpThreadManager} {phase : CallPhase} (inv : Inv calls s)
    (same : SameEntries s.manager m) (off : phase.isScan = false)
    (fits : Fits (calls i) phase)
    (entry : ∀ p, phase.entry = some p → p < s.manager.objects.size ∧
      ∀ j, (s.phase j).onList.unlisted ≠ some p) :
    Inv calls ((s.withManager m).enter i phase) where
  scan := by
    rw [scan_enter, CallPhase.onList_of_off off]
    exact (inv.scan.withManager same).rest trivial rfl rfl
  fits j := by
    rw [enter_phase]
    split
    · next here => rw [here]; exact fits
    · exact inv.fits j
  valid j p here := by
    rw [enter_phase] at here
    rw [enter_manager, withManager_manager, same.size]
    split at here
    · exact (entry p here).1
    · exact inv.valid j p here
  once j k p unlisted := by
    rw [enter_phase] at unlisted
    split at unlisted
    · rw [CallPhase.onList_of_off off] at unlisted
      cases unlisted
    · rw [enter_phase]
      split
      · exact fun here => (entry p here).2 j unlisted
      · exact inv.once j k p unlisted

/-- The entry in hand stays, or is put down. -/
theorem Inv.keep {m : RtpThreadManager} {phase : CallPhase} (inv : Inv calls s)
    (same : SameEntries s.manager m) (off : phase.isScan = false)
    (fits : Fits (calls i) phase) (entry : ∀ p, phase.entry = some p → (s.phase i).entry = some p) :
    Inv calls ((s.withManager m).enter i phase) :=
  inv.move same off fits fun p here =>
    ⟨inv.valid i p (entry p here), fun j unlisted => inv.once j i p unlisted (entry p here)⟩

/-- A loop takes a listed entry in hand. -/
theorem Inv.visit (inv : Inv calls s) (loops : (calls i).loops = true)
    (member : p ∈ s.manager.listThreadList) : Inv calls (s.enter i (.visiting p)) := by
  refine inv.move (.refl s.manager) rfl loops fun q here => ?_
  cases here
  refine ⟨inv.scan.valid p member, fun j unlisted => ?_⟩
  exact ((inv.scan.holds j).made unlisted).unlisted member

end ManagerState

/-! ## Steps on the list -/

namespace ScanState

variable {ι : Type*} [DecidableEq ι] {calls : ι → ListCall} {s s' : ScanState ι} {i : ι} {p : Nat}

theorem Steps.size_le (h : Steps calls s i s') :
    s.manager.objects.size ≤ s'.manager.objects.size := by
  cases h with
  | allocate => exact (Nat.le_succ _).trans_eq (Table.size_add _ _).symm
  | begin | beginEmpty | size | sizeZero | same | other | next | last | refuse | yield | erase
  | clear | lock | push | unlock => exact Nat.le_refl _

/-- An entry not yet listed is one the caller had before, or a new object. -/
theorem Steps.unlisted_cases (h : Steps calls s i s') (unlisted : (s'.phase i).unlisted = some p) :
    (s.phase i).unlisted = some p ∨ p = s.manager.objects.size := by
  cases h with
  | allocate =>
      rw [enter_phase, if_pos rfl] at unlisted
      cases unlisted
      exact .inr rfl
  | lock phase =>
      rw [enter_phase, if_pos rfl] at unlisted
      exact .inl (by rw [phase]; exact unlisted)
  | beginEmpty | last => simp at unlisted
  | begin | size | sizeZero | same | other | next | refuse | yield | erase | clear | push
  | unlock =>
      rw [enter_phase, if_pos rfl] at unlisted
      cases unlisted

/-- The entry `getThread` returns is listed. -/
theorem Steps.found_mem (h : Steps calls s i s')
    (found : s'.phase i = .returned (.thread (some p))) : p ∈ s.manager.listThreadList := by
  cases h with
  | yield phase member call =>
      rw [enter_phase, if_pos rfl] at found
      cases found
      exact member
  | beginEmpty | last =>
      rw [enter_phase, if_pos rfl] at found
      cases call : calls i <;> rw [call] at found <;> cases found
  | begin | size | sizeZero | same | other | next | refuse | erase | clear | allocate | lock
  | push | unlock =>
      rw [enter_phase, if_pos rfl] at found
      cases found

end ScanState

namespace ManagerState

variable {ι : Type*} [DecidableEq ι] {env : PthreadEnv} {calls : ι → ManagerOp}
  {s s' : ManagerState ι} {i j : ι} {p q : Nat}

theorem entry_scan {phase : ScanPhase} (here : (CallPhase.scan phase).entry = some p) :
    phase = .returned (.thread (some p)) := by
  unfold CallPhase.entry at here
  split at here <;> simp_all

theorem Inv.adopt {t : ScanState ι} (inv : Inv calls s) (single : (calls i).loops = false)
    (moved : ScanState.Steps (listCalls calls) s.scan i t) : Inv calls (s.adopt i t) where
  scan := by
    rw [scan_adopt moved]
    exact moved.inv inv.scan
  fits j := by
    rw [adopt_phase]
    split
    · next here => rw [here]; exact fun loops => absurd loops (by simp [single])
    · exact inv.fits j
  valid j p here := by
    rw [adopt_phase] at here
    split at here
    · have holds := (moved.inv inv.scan).holds i
      rw [entry_scan here] at holds
      exact holds p rfl
    · exact (inv.valid j p here).trans_le moved.size_le
  once j k p unlisted here := by
    rw [adopt_phase] at unlisted here
    have mine : ∀ k, k ≠ i → (t.phase i).unlisted = some p → (s.phase k).entry ≠ some p := by
      intro k _ unlisted here
      rcases moved.unlisted_cases unlisted with before | fresh
      · exact inv.once i k p before here
      · exact Nat.ne_of_lt (inv.valid k p here) fresh
    split at unlisted
    · split at here
      · have returned := entry_scan here
        rw [CallPhase.onList, returned] at unlisted
        cases unlisted
      · next other => exact mine k other unlisted here
    · next other =>
        split at here
        · have member := moved.found_mem (entry_scan here)
          exact ((inv.scan.holds j).made unlisted).unlisted member
        · exact inv.once j k p unlisted here

/-- What an operation does with the flag it has read. -/
theorem checked_fits {op : ManagerOp} {flag : Bool} {after : CallPhase}
    (checked : op.checked p flag = some after) :
    after.isScan = false ∧ Fits op after ∧ ∀ q, after.entry = some q → q = p := by
  cases op <;> cases flag <;> cases checked <;>
    simp [CallPhase.isScan, Fits, CallPhase.entry, ManagerOp.spawns, ManagerOp.kills,
      ManagerOp.loops]

theorem resume_fits {op : ManagerOp} {phase : ScanPhase} {after : CallPhase}
    (resumed : op.resume phase = some after) :
    after.isScan = false ∧ Fits op after ∧
      ∀ q, after.entry = some q → (CallPhase.scan phase).entry = some q := by
  unfold ManagerOp.resume at resumed
  split at resumed <;> cases resumed <;>
    simp [CallPhase.isScan, Fits, CallPhase.entry, ManagerOp.spawns, ManagerOp.kills]

theorem spawnedOne_fits {op : ManagerOp} (spawns : op.spawns = true) :
    (op.spawnedOne p).isScan = false ∧ Fits op (op.spawnedOne p) ∧
      ∀ q, (op.spawnedOne p).entry = some q → q = p := by
  cases op <;> cases spawns <;>
    simp [ManagerOp.spawnedOne, CallPhase.isScan, Fits, CallPhase.entry, ManagerOp.loops,
      ManagerOp.spawns]

theorem Steps.inv (h : Steps env calls s i s') (inv : Inv calls s) : Inv calls s' := by
  have fits := inv.fits i
  cases h with
  | scan here single running moved => exact inv.adopt single moved
  | resume here single resumed =>
      obtain ⟨off, fits, entry⟩ := resume_fits resumed
      exact inv.keep (.refl _) off fits (by rw [here]; exact entry)
  | begin here loops list => exact inv.visit loops (by rw [list]; exact List.mem_cons_self)
  | beginEmpty here loops list =>
      exact inv.keep (.refl _) rfl (ManagerOp.acts_of_loops loops) (by simp [CallPhase.entry])
  | visit here member =>
      rw [here] at fits
      exact inv.keep (.refl _) rfl (ManagerOp.acts_of_loops fits) (by rw [here]; exact fun _ => id)
  | check here checked =>
      obtain ⟨off, fits, entry⟩ := checked_fits checked
      refine inv.keep (.refl _) off fits fun q held => ?_
      rw [here, entry q held]
      rfl
  | refuse here flag =>
      rw [here] at fits
      exact inv.keep (.refl _) rfl (.inl fits) (by simp [CallPhase.entry])
  | read here flag =>
      rw [here] at fits
      exact inv.keep (.refl _) rfl fits (by rw [here]; exact fun _ => id)
  | createFailed here failed =>
      rw [here] at fits
      have valid := inv.valid i _ (by rw [here]; rfl)
      exact inv.keep (.create env valid) rfl (.inl fits) (by simp [CallPhase.entry])
  | create here created =>
      rw [here] at fits
      have valid := inv.valid i _ (by rw [here]; rfl)
      exact inv.keep (.create env valid) rfl fits (by rw [here]; exact fun _ => id)
  | mark here =>
      rw [here] at fits
      have valid := inv.valid i _ (by rw [here]; rfl)
      obtain ⟨off, fits, entry⟩ := spawnedOne_fits fits
      refine inv.keep (.setSpawned valid) off fits fun q held => ?_
      rw [here, entry q held]
      rfl
  | handle here =>
      rw [here] at fits
      exact inv.keep (.refl _) rfl fits (by rw [here]; exact fun _ => id)
  | signal here result =>
      rw [here] at fits
      rcases result with rfl | rfl
      · exact inv.keep (.system _ _) rfl (.inr fits.1) (by simp [CallPhase.entry])
      · exact inv.keep (.system _ _) rfl fits (by rw [here]; exact fun _ => id)
  | join ret here =>
      rw [here] at fits
      exact inv.keep (.system _ _) rfl (.inr fits.1) (by simp [CallPhase.entry])
  | advance here member next =>
      rw [here] at fits
      exact inv.visit fits (Cursor.mem_of_next? next)
  | last here member last =>
      rw [here] at fits
      exact inv.keep (.refl _) rfl (ManagerOp.acts_of_loops fits) (by simp [CallPhase.entry])

theorem step_inv (s : ManagerState ι) (i : ι) (s' : ManagerState ι) (inv : Inv calls s)
    (h : step env calls s i = some s') : Inv calls s' :=
  (Steps.of_step h).inv inv

/-! ## Iterators at erased nodes -/

/-- Every iterator stands at a node of the list. -/
def NoDangling (calls : ι → ManagerOp) (s : ManagerState ι) : Prop :=
  ∀ i p, (s.phase i).cursor (calls i) = some p → p ∈ s.manager.listThreadList

/-- Nobody else stands at a node that the next step of `i` erases. -/
def Undisturbed (calls : ι → ManagerOp) (s : ManagerState ι) (i : ι) : Prop :=
  ∀ j, j ≠ i → ∀ p, (s.phase j).cursor (calls j) = some p →
    p ∉ s.scan.erased (listCalls calls) i

instance [Fintype ι] (calls : ι → ManagerOp) (s : ManagerState ι) (i : ι) :
    Decidable (Undisturbed calls s i) :=
  inferInstanceAs (Decidable (∀ j, j ≠ i → ∀ p ∈ (s.phase j).cursor (calls j),
    p ∉ s.scan.erased (listCalls calls) i))

theorem resume_returned {op : ManagerOp} {phase : ScanPhase} {after : CallPhase}
    (resumed : op.resume phase = some after) : ∃ found, phase = .returned (.thread found) := by
  unfold ManagerOp.resume at resumed
  split at resumed
  · exact ⟨_, rfl⟩
  · exact ⟨_, rfl⟩
  · exact ⟨_, rfl⟩
  · exact ⟨_, rfl⟩
  · cases resumed

/-- A step is one on the list, or leaves the list alone while no call on it is under way. -/
theorem Steps.on_list (h : Steps env calls s i s') (inv : Inv calls s) :
    (∃ t, (calls i).loops = false ∧ ScanState.Steps (listCalls calls) s.scan i t ∧
      s' = s.adopt i t) ∨
    (SameEntries s.manager s'.manager ∧ (s'.phase i).isScan = false ∧
      ((s.phase i).onList = .called ∨
        ∃ found, (s.phase i).onList = .returned (.thread found))) := by
  have fits := inv.fits i
  have valid := inv.valid i
  cases h with
  | scan here single running moved => exact .inl ⟨_, single, moved, rfl⟩
  | resume here single resumed =>
      rw [enter_phase, if_pos rfl, here]
      exact .inr ⟨.refl _, (resume_fits resumed).1, .inr (resume_returned resumed)⟩
  | begin here loops | beginEmpty here loops =>
      rw [here] at fits
      rw [enter_phase, if_pos rfl, here]
      exact .inr ⟨.refl _, rfl, .inl (fits loops)⟩
  | check here checked =>
      rw [enter_phase, if_pos rfl, here]
      exact .inr ⟨.refl _, (checked_fits checked).1, .inl rfl⟩
  | visit here | refuse here | read here | handle here | advance here | last here =>
      rw [enter_phase, if_pos rfl, here]
      exact .inr ⟨.refl _, rfl, .inl rfl⟩
  | createFailed here | create here =>
      rw [here] at valid
      rw [enter_phase, if_pos rfl, here]
      exact .inr ⟨.create env (valid _ rfl), rfl, .inl rfl⟩
  | mark here =>
      rw [here] at valid fits
      rw [enter_phase, if_pos rfl, here]
      exact .inr ⟨.setSpawned (valid _ rfl), (spawnedOne_fits fits).1, .inl rfl⟩
  | signal here result =>
      rw [enter_phase, if_pos rfl, here]
      exact .inr ⟨.system _ _, by rcases result with rfl | rfl <;> rfl, .inl rfl⟩
  | join _ here =>
      rw [enter_phase, if_pos rfl, here]
      exact .inr ⟨.system _ _, rfl, .inl rfl⟩

/-- A step takes out of the list what it erases and puts into it what it pushes. -/
theorem Steps.mem_list_iff (h : Steps env calls s i s') (inv : Inv calls s) (q : Nat) :
    q ∈ s'.manager.listThreadList ↔
      (q ∈ s.manager.listThreadList ∧ q ∉ s.scan.erased (listCalls calls) i) ∨
        (s.phase i).onList = .locked q := by
  rcases h.on_list inv with ⟨t, _, moved, rfl⟩ | ⟨same, _, quiet⟩
  · exact moved.mem_list_iff inv.scan q
  · have phase : s.scan.phase i = (s.phase i).onList := rfl
    rw [same.list, ScanState.erased, phase]
    rcases quiet with quiet | ⟨found, quiet⟩ <;> rw [quiet] <;> simp

/-- An entry comes into hand from `getThread`, or from the iterator of a loop. -/
theorem Steps.entry_cases (h : Steps env calls s i s') (inv : Inv calls s)
    (entry : (s'.phase i).entry = some p) :
    (s.phase i).entry = some p ∨
    ((calls i).loops = true ∧ p ∈ s'.manager.listThreadList) ∨
    ∃ t, (calls i).loops = false ∧ ScanState.Steps (listCalls calls) s.scan i t ∧
      s' = s.adopt i t ∧ t.phase i = .returned (.thread (some p)) := by
  have fits := inv.fits i
  cases h with
  | scan here single running moved =>
      rw [adopt_phase, if_pos rfl] at entry
      exact .inr (.inr ⟨_, single, moved, rfl, entry_scan entry⟩)
  | resume here single resumed =>
      rw [enter_phase, if_pos rfl] at entry
      rw [here]
      exact .inl ((resume_fits resumed).2.2 p entry)
  | begin here loops list =>
      rw [enter_phase, if_pos rfl] at entry
      cases entry
      exact .inr (.inl ⟨loops, by rw [enter_manager, list]; exact List.mem_cons_self⟩)
  | advance here member next =>
      rw [here] at fits
      rw [enter_phase, if_pos rfl] at entry
      cases entry
      exact .inr (.inl ⟨fits, Cursor.mem_of_next? next⟩)
  | visit here | read here | create here | handle here =>
      rw [enter_phase, if_pos rfl] at entry
      exact .inl (by rw [here]; exact entry)
  | check here checked =>
      rw [enter_phase, if_pos rfl] at entry
      rw [(checked_fits checked).2.2 p entry, here]
      exact .inl rfl
  | mark here =>
      rw [here] at fits
      rw [enter_phase, if_pos rfl] at entry
      rw [(spawnedOne_fits fits).2.2 p entry, here]
      exact .inl rfl
  | signal here result =>
      rw [enter_phase, if_pos rfl] at entry
      rcases result with rfl | rfl
      · cases entry
      · exact .inl (by rw [here]; exact entry)
  | beginEmpty | refuse | createFailed | join | last =>
      rw [enter_phase, if_pos rfl] at entry
      cases entry

/-- The iterator of a caller that moves stands at a listed node, or stays where it is. -/
theorem Steps.cursor_mem (h : Steps env calls s i s') (inv : Inv calls s)
    (cursor : (s'.phase i).cursor (calls i) = some p) :
    p ∈ s'.manager.listThreadList ∨ (s.phase i).cursor (calls i) = some p ∧
      s'.manager.listThreadList = s.manager.listThreadList := by
  rcases h.on_list inv with ⟨t, single, moved, rfl⟩ | ⟨same, off, _⟩
  · rw [CallPhase.cursor, single, adopt_phase, if_pos rfl] at cursor
    exact .inl (moved.cursor_mem cursor)
  · cases loops : (calls i).loops with
    | true =>
        rw [CallPhase.cursor, loops, if_pos rfl] at cursor ⊢
        rcases h.entry_cases inv cursor with before | ⟨_, member⟩ | ⟨t, single, _⟩
        · exact .inr ⟨before, same.list⟩
        · exact .inl member
        · cases loops.symm.trans single
    | false =>
        rw [CallPhase.cursor, loops, CallPhase.onList_of_off off] at cursor
        cases cursor

/-- Where every iterator stands at a listed node, a step leaves it so exactly when nobody
else stood at what the step erases. -/
theorem Steps.noDangling_iff_undisturbed (h : Steps env calls s i s') (inv : Inv calls s)
    (before : NoDangling calls s) : NoDangling calls s' ↔ Undisturbed calls s i := by
  refine Cursor.Listed.iff_of_move before (fun j other => by rw [h.phase_of_ne other])
    (fun p cursor => ?_) (h.mem_list_iff inv) fun p locked => inv.scan.locked_unlisted locked
  rcases h.cursor_mem inv cursor with member | ⟨stood, same⟩
  · exact member
  · rw [same]
    exact before i p stood

omit [DecidableEq ι] in
theorem noDangling_init : NoDangling calls (init : ManagerState ι) := by
  intro i p cursor
  unfold CallPhase.cursor at cursor
  split at cursor <;> cases cursor

/-- **No iterator at an erased node.**  No state of a run has an iterator at a node that is
no longer in the list exactly when every `erase` and `clear` of the run is made while no
other call stands at a node it erases. -/
theorem noDangling_iff {sched : List ι} (reached : run (step env calls) init sched = some s) :
    Always (step env calls) (NoDangling calls) init sched ↔
      Along (step env calls) (Undisturbed calls) init sched := by
  refine always_iff_along step_inv (fun s i t inv before h => ?_) inv_init noDangling_init reached
  exact (Steps.of_step h).noDangling_iff_undisturbed inv before

/-- Two registrations, a loop that spawns, and an erasing. -/
def fourOps : Fin 4 → ManagerOp :=
  ![.addThread .main (some 1), .addThread .capture (some 2), .spawnAllThreads, .cleanThread .main]

/-- The main thread is erased when the loop has just moved past it. -/
theorem erasedBehindLoop_noDangling :
    ∃ s, run (step .succeeding fourOps) init
        [0, 0, 0, 0, 0, 1, 1, 1, 1, 1, 1, 1, 2, 2, 2, 2, 2, 2, 2, 3, 3, 3, 2] = some s ∧
      s.phase 2 = .checking 1 ∧ Always (step .succeeding fourOps) (NoDangling fourOps) init
        [0, 0, 0, 0, 0, 1, 1, 1, 1, 1, 1, 1, 2, 2, 2, 2, 2, 2, 2, 3, 3, 3, 2] := by
  have undisturbed : Along (step .succeeding fourOps) (Undisturbed fourOps) init
      [0, 0, 0, 0, 0, 1, 1, 1, 1, 1, 1, 1, 2, 2, 2, 2, 2, 2, 2, 3, 3, 3, 2] := by
    decide
  obtain ⟨s, reached, phase⟩ : ∃ s, run (step .succeeding fourOps) init
      [0, 0, 0, 0, 0, 1, 1, 1, 1, 1, 1, 1, 2, 2, 2, 2, 2, 2, 2, 3, 3, 3, 2] = some s ∧
        s.phase 2 = .checking 1 := ⟨_, rfl, rfl⟩
  exact ⟨s, reached, phase, (noDangling_iff reached).mpr undisturbed⟩

/-- Erased while the loop starts its thread, its node is where the loop goes on from. -/
example : ¬ Along (step .succeeding fourOps) (Undisturbed fourOps) init
    [0, 0, 0, 0, 0, 1, 1, 1, 1, 1, 1, 1, 2, 2, 2, 2, 2, 3, 3, 3] := by
  decide

end ManagerState

end OpenRtp
