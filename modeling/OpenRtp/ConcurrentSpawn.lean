import Mathlib.Data.Fintype.Basic
import Mathlib.Logic.Function.Basic
import OpenRtp.EntryThreads

/-!
# Concurrent spawning

Any number of callers of `spawnThread` and `spawnAllThreads` on one list of entries, step
by step.  The spawned flag is read twice before `pthread_create` and set only after it,
and no mutex is held, so a caller that has read it as unset claims the entry until it has
set the flag.

If no caller reads the flag of a claimed entry, each entry creates one thread and keeps
its handle (`spawnedOnce_of_aloneAtRead`).
-/

namespace OpenRtp

/-- A call of one of the two entry points. -/
inductive SpawnCall
  | spawnThread (eType : RtpThreadType)
  | spawnAllThreads
deriving DecidableEq, Repr

/-- How far a call has come; `rest` is what the loop of `spawnAllThreads` has yet to visit,
and `none` in a call of `spawnThread`. -/
inductive SpawnPhase
  | called
  /-- About to read the flag in the manager. -/
  | checking (pThread : Nat) (rest : Option (List Nat))
  /-- In `RtpThread::spawnThread`, about to read the flag again. -/
  | entered (pThread : Nat) (rest : Option (List Nat))
  /-- About to call `pthread_create`. -/
  | creating (pThread : Nat) (rest : Option (List Nat))
  /-- About to set the flag. -/
  | created (pThread : Nat) (rest : Option (List Nat))
  | returned (ret : RtpResult)
deriving DecidableEq, Repr

namespace SpawnPhase

/-- After an entry was dealt with, `spawnAllThreads` goes to the next one. -/
def next : Option (List Nat) → SpawnPhase
  | some (p :: ps) => .checking p (some ps)
  | _ => .returned .sOk

/-- After the manager found the flag set, `spawnAllThreads` goes on, `spawnThread` fails. -/
def skip : Option (List Nat) → SpawnPhase
  | none => .returned .sFail
  | some ps => next (some ps)

/-- The entry whose flag is about to be read in `RtpThread::spawnThread`. -/
def reading : SpawnPhase → Option Nat
  | .entered pThread _ => some pThread
  | _ => none

/-- The entry whose flag was read as unset and has not been set yet. -/
def claimed : SpawnPhase → Option Nat
  | .creating pThread _ => some pThread
  | .created pThread _ => some pThread
  | _ => none

/-- The entries the call is at or has yet to visit. -/
def entries : SpawnPhase → List Nat
  | .checking pThread rest => pThread :: rest.getD []
  | .entered pThread rest => pThread :: rest.getD []
  | .creating pThread rest => pThread :: rest.getD []
  | .created pThread rest => pThread :: rest.getD []
  | _ => []

@[simp] theorem claimed_next (rest : Option (List Nat)) : (next rest).claimed = none := by
  rcases rest with _ | _ | ⟨p, ps⟩ <;> rfl

@[simp] theorem claimed_skip (rest : Option (List Nat)) : (skip rest).claimed = none := by
  cases rest with
  | none => rfl
  | some ps => exact claimed_next (some ps)

theorem entries_next (rest : Option (List Nat)) : (next rest).entries = rest.getD [] := by
  rcases rest with _ | _ | ⟨p, ps⟩ <;> rfl

theorem entries_skip (rest : Option (List Nat)) : (skip rest).entries = rest.getD [] := by
  cases rest with
  | none => rfl
  | some ps => exact entries_next (some ps)

end SpawnPhase

/-- The manager and its callers. -/
structure SpawnState (ι : Type*) where
  manager : RtpThreadManager
  phase : ι → SpawnPhase

namespace SpawnState

open RtpThreadManager

variable {ι : Type*} [DecidableEq ι]

/-- Nobody has started yet. -/
def init (m : RtpThreadManager) : SpawnState ι := ⟨m, fun _ => .called⟩

def enter (s : SpawnState ι) (i : ι) (phase : SpawnPhase) : SpawnState ι :=
  { s with phase := Function.update s.phase i phase }

/-- `pthread_create` for the entry `p`, which stores the handle in the entry: its result
and the manager it leaves. -/
def create (env : PthreadEnv) (m : RtpThreadManager) (p : Nat) : Nat × RtpThreadManager :=
  let attr := PthreadAttr.init.setdetachstate .detached
  let (val, handler, system) := m.system.pthreadCreate env p attr (m.deref p).pThreadRoutine
  (val, { m with system }.setHandler p handler)

/-- The next step of caller `i`. -/
def step (env : PthreadEnv) (calls : ι → SpawnCall) (s : SpawnState ι) (i : ι) :
    Option (SpawnState ι) :=
  match s.phase i with
  | .called =>
      match calls i with
      | .spawnThread eType =>
          match s.manager.getThread eType with
          | none => some (s.enter i (.returned .sFail))
          | some p => some (s.enter i (.checking p none))
      | .spawnAllThreads => some (s.enter i (.next (some s.manager.listThreadList)))
  | .checking p rest =>
      if (s.manager.deref p).bThreadSpawned then some (s.enter i (.skip rest))
      else some (s.enter i (.entered p rest))
  | .entered p rest =>
      if (s.manager.deref p).bThreadSpawned then some (s.enter i (.returned .sFail))
      else some (s.enter i (.creating p rest))
  | .creating p rest =>
      let (val, manager) := create env s.manager p
      if val ≠ 0 then some (enter { s with manager } i (.returned .sFail))
      else some (enter { s with manager } i (.created p rest))
  | .created p rest => some (enter { s with manager := s.manager.setSpawned p } i (.next rest))
  | .returned _ => none

variable {env : PthreadEnv} {calls : ι → SpawnCall} {s s' : SpawnState ι} {i j : ι} {p : Nat}
  {rest : Option (List Nat)}

/-- What a step does.  A `move` touches no entry: it looks an entry up, finds a flag set,
or goes on to read the flag again. -/
inductive Steps (env : PthreadEnv) (s : SpawnState ι) (i : ι) : SpawnState ι → Prop
  | move {phase : SpawnPhase} (idle : (s.phase i).claimed = none) (free : phase.claimed = none)
      (listed : ∀ p ∈ phase.entries, p ∈ s.manager.listThreadList ∨ p ∈ (s.phase i).entries) :
      Steps env s i (s.enter i phase)
  | read {p : Nat} {rest : Option (List Nat)} (phase : s.phase i = .entered p rest)
      (flag : (s.manager.deref p).bThreadSpawned = false) :
      Steps env s i (s.enter i (.creating p rest))
  | createFailed {p : Nat} {rest : Option (List Nat)} (phase : s.phase i = .creating p rest)
      (failed : env.create s.manager.system.calls.length ≠ 0) :
      Steps env s i (enter { s with manager := (create env s.manager p).2 } i
        (.returned .sFail))
  | create {p : Nat} {rest : Option (List Nat)} (phase : s.phase i = .creating p rest)
      (created : env.create s.manager.system.calls.length = 0) :
      Steps env s i (enter { s with manager := (create env s.manager p).2 } i
        (.created p rest))
  | mark {p : Nat} {rest : Option (List Nat)} (phase : s.phase i = .created p rest) :
      Steps env s i (enter { s with manager := s.manager.setSpawned p } i (.next rest))

theorem create_val (env : PthreadEnv) (m : RtpThreadManager) (p : Nat) :
    (create env m p).1 = env.create m.system.calls.length := by
  unfold create ThreadSystem.pthreadCreate
  dsimp only
  split
  · next created => exact created.symm
  · rfl

theorem Steps.of_step (h : step env calls s i = some s') : Steps env s i s' := by
  unfold step at h
  split at h
  · next called =>
      have idle : (s.phase i).claimed = none := by rw [called]; rfl
      split at h
      · split at h
        · cases h
          exact .move idle rfl (by simp [SpawnPhase.entries])
        · next p found =>
            cases h
            refine .move idle rfl fun q member => .inl ?_
            rw [SpawnPhase.entries, Option.getD_none, List.mem_singleton] at member
            exact member ▸ (Keyed.mem_of_find found).1
      · cases h
        refine .move idle (SpawnPhase.claimed_next _) fun q member => .inl ?_
        rwa [SpawnPhase.entries_next] at member
  · next p rest phase =>
      have idle : (s.phase i).claimed = none := by rw [phase]; rfl
      split at h
      · cases h
        refine .move idle (SpawnPhase.claimed_skip _) fun q member => .inr ?_
        rw [SpawnPhase.entries_skip] at member
        rw [phase]
        exact List.mem_cons_of_mem p member
      · cases h
        refine .move idle rfl fun q member => .inr ?_
        rw [phase]
        exact member
  · next p rest phase =>
      split at h
      · cases h
        exact .move (by rw [phase]; rfl) rfl (by simp [SpawnPhase.entries])
      · next flag => cases h; exact .read phase (eq_false_of_ne_true flag)
  · next p rest phase =>
      have val := create_val env s.manager p
      dsimp only at h
      split at h
      · next failed => cases h; exact .createFailed phase (val ▸ failed)
      · next created => cases h; exact .create phase (val ▸ of_not_not created)
  · next p rest phase => cases h; exact .mark phase
  · cases h

/-- Only caller `i` moves. -/
theorem enter_phase (phase : SpawnPhase) (j : ι) :
    (s.enter i phase).phase j = if j = i then phase else s.phase j :=
  Function.update_apply _ _ _ _

/-! ## What a step does to an entry -/

/-- `m'` is `m` with another handle stored in the entry `p`, the threads apart. -/
structure HandleStored (m : RtpThreadManager) (p : Nat) (handler : RtpThreadHandler)
    (m' : RtpThreadManager) : Prop where
  list : m'.listThreadList = m.listThreadList
  size : m'.objects.size = m.objects.size
  deref : ∀ q, m'.deref q =
    if q = p then { m.deref p with ulThreadHandler := handler } else m.deref q

theorem HandleStored.spawned {m m' : RtpThreadManager} {handler : RtpThreadHandler}
    (stored : HandleStored m p handler m') (q : Nat) :
    (m'.deref q).bThreadSpawned = (m.deref q).bThreadSpawned := by
  rw [stored.deref q]
  split
  · next same => rw [same]
  · rfl

/-- `pthread_create` stores a handle whether it succeeds or not. -/
theorem handleStored_create (env : PthreadEnv) {m : RtpThreadManager}
    (valid : p < m.objects.size) :
    HandleStored m p
      (if env.create m.system.calls.length = 0 then m.system.threads.size + 1
        else env.scribble m.system.calls.length)
      (create env m p).2 := by
  have handle : (m.system.pthreadCreate env p (.setdetachstate .init .detached)
      (m.deref p).pThreadRoutine).2.1 =
      if env.create m.system.calls.length = 0 then m.system.threads.size + 1
      else env.scribble m.system.calls.length := by
    unfold ThreadSystem.pthreadCreate
    dsimp only
    split <;> rfl
  refine ⟨rfl, by simp [create, setHandler], fun q => ?_⟩
  rw [create, deref_setHandler valid, ← handle]

theorem creator?_create (env : PthreadEnv) (m : RtpThreadManager) (p : Nat)
    (h : RtpThreadHandler) :
    (create env m p).2.system.creator? h =
      if env.create m.system.calls.length = 0 ∧ h = m.system.threads.size + 1 then some p
      else m.system.creator? h := by
  unfold ThreadSystem.creator? create ThreadSystem.pthreadCreate
  dsimp only
  split
  · next created =>
      rw [setHandler, ThreadSystem.thread?_add]
      split
      · next fresh => rw [if_pos ⟨created, fresh⟩]; rfl
      · next old => rw [if_neg fun both => old both.2]
  · next failed =>
      rw [if_neg fun both => failed both.1]
      exact congrArg _ (ThreadSystem.thread?_congr rfl)

/-- The entry whose thread a handle denotes. -/
def creator? (s : SpawnState ι) (h : RtpThreadHandler) : Option Nat :=
  s.manager.system.creator? h

/-- Each entry has created at most one thread, a spawned entry one whose handle it holds,
and no created thread's handle was overwritten. -/
structure SpawnedOnce (s : SpawnState ι) : Prop where
  once : ∀ h h' p, s.creator? h = some p → s.creator? h' = some p → h = h'
  handle : ∀ p, (s.manager.deref p).bThreadSpawned = true →
    s.creator? (s.manager.deref p).ulThreadHandler = some p
  kept : ∀ h p, s.creator? h = some p → (s.manager.deref p).ulThreadHandler = h

/-- If `i` reads the flag in `RtpThread::spawnThread` as unset, then no caller has read it
as unset and not set it since. -/
def AloneAtRead (s : SpawnState ι) (i : ι) : Prop :=
  ∀ p ∈ (s.phase i).reading, (s.manager.deref p).bThreadSpawned = false →
    ∀ j, (s.phase j).claimed ≠ some p

instance [Fintype ι] (s : SpawnState ι) (i : ι) : Decidable (AloneAtRead s i) :=
  inferInstanceAs (Decidable (∀ p ∈ (s.phase i).reading,
    (s.manager.deref p).bThreadSpawned = false → ∀ j, (s.phase j).claimed ≠ some p))

/-! ## Any run -/

/-- What every run maintains: calls are at listed entries, and an entry about to be marked
has created a thread. -/
structure Inv (s : SpawnState ι) : Prop where
  valid : ∀ p ∈ s.manager.listThreadList, p < s.manager.objects.size
  listed : ∀ i, ∀ p ∈ (s.phase i).entries, p ∈ s.manager.listThreadList
  created : ∀ i p rest, s.phase i = .created p rest → ∃ h, s.creator? h = some p

omit [DecidableEq ι] in
theorem Inv.valid_of_phase (inv : s.Inv) (member : p ∈ (s.phase i).entries) :
    p < s.manager.objects.size :=
  inv.valid p (inv.listed i p member)

omit [DecidableEq ι] in
/-- The next handle denotes no thread yet. -/
theorem ne_fresh {h : RtpThreadHandler} (made : s.creator? h = some p) :
    s.manager.system.threads.size + 1 ≠ h := by
  rintro rfl
  rw [creator?, ThreadSystem.creator?, ThreadSystem.thread?_fresh] at made
  cases made

/-- A created thread keeps its creator. -/
theorem Steps.creator?_to {h : RtpThreadHandler} (steps : Steps env s i s')
    (made : s.creator? h = some p) : s'.creator? h = some p := by
  cases steps with
  | move | read | mark => exact made
  | createFailed | create =>
      refine (creator?_create env s.manager _ h).trans ?_
      rw [if_neg, ← made]
      · rfl
      · exact fun both => ne_fresh made both.2.symm

theorem Steps.list (steps : Steps env s i s') :
    s'.manager.listThreadList = s.manager.listThreadList := by
  cases steps <;> rfl

theorem Steps.size (steps : Steps env s i s') :
    s'.manager.objects.size = s.manager.objects.size := by
  cases steps with
  | move | read => rfl
  | createFailed | create | mark => exact Table.size_modify _ _ _

/-- A caller stays at listed entries it had yet to visit, and only `pthread_create` leads to
the flag. -/
theorem Steps.phase (steps : Steps env s i s') (j : ι) :
    (∀ p ∈ (s'.phase j).entries, p ∈ s.manager.listThreadList ∨ p ∈ (s.phase j).entries) ∧
    (∀ p rest, s'.phase j = .created p rest →
      s.phase j = .created p rest ∨ ∃ h, s'.creator? h = some p) := by
  rcases eq_or_ne j i with rfl | differs
  · cases steps with
    | move idle free listed =>
        simp only [enter_phase, if_true]
        refine ⟨listed, fun p rest created => ?_⟩
        rw [created] at free
        cases free
    | read phase flag =>
        simp only [enter_phase, if_true, phase]
        exact ⟨fun q member => .inr member, fun q rest created => by cases created⟩
    | createFailed phase failed =>
        simp only [enter_phase, if_true]
        exact ⟨by simp [SpawnPhase.entries], fun q rest created => by cases created⟩
    | @create p rest phase created =>
        simp only [enter_phase, if_true, phase]
        refine ⟨fun q member => .inr member, fun q rest' here => ?_⟩
        cases here
        exact .inr ⟨_, (creator?_create env s.manager p _).trans (if_pos ⟨created, rfl⟩)⟩
    | @mark p rest phase =>
        simp only [enter_phase, if_true, phase]
        refine ⟨fun q member => .inr ?_, fun q rest' created => ?_⟩
        · rw [SpawnPhase.entries_next] at member
          exact List.mem_cons_of_mem p member
        · have free := SpawnPhase.claimed_next rest
          rw [created] at free
          cases free
  · have other : s'.phase j = s.phase j := by
      cases steps <;> exact (enter_phase _ j).trans (if_neg differs)
    rw [other]
    exact ⟨fun q member => .inr member, fun q rest created => .inl created⟩

theorem Inv.step (inv : s.Inv) (steps : Steps env s i s') : s'.Inv where
  valid p member := steps.size ▸ inv.valid p (steps.list ▸ member)
  listed j p member := by
    rw [steps.list]
    exact ((steps.phase j).1 p member).elim id (inv.listed j p)
  created j p rest here := by
    rcases (steps.phase j).2 p rest here with before | made
    · obtain ⟨h, made⟩ := inv.created j p rest before
      exact ⟨h, steps.creator?_to made⟩
    · exact made

/-! ## Runs in which every claim is alone -/

/-- An entry has one claimant, and no thread before that claimant creates it; an entry
with a thread holds its handle. -/
structure Alone (s : SpawnState ι) : Prop where
  one : ∀ i j p, (s.phase i).claimed = some p → (s.phase j).claimed = some p → i = j
  free : ∀ i p rest, s.phase i = .creating p rest →
    (s.manager.deref p).bThreadSpawned = false ∧ ∀ h, s.creator? h ≠ some p
  held : ∀ h p, s.creator? h = some p → (s.manager.deref p).ulThreadHandler = h ∧
    ((s.manager.deref p).bThreadSpawned = true ∨ ∃ i rest, s.phase i = .created p rest)
  marked : ∀ p, (s.manager.deref p).bThreadSpawned = true →
    s.creator? (s.manager.deref p).ulThreadHandler = some p

omit [DecidableEq ι] in
theorem Alone.spawnedOnce (alone : s.Alone) : s.SpawnedOnce where
  once h h' p made made' := (alone.held h p made).1.symm.trans (alone.held h' p made').1
  handle := alone.marked
  kept h p made := (alone.held h p made).1

omit [DecidableEq ι] in
/-- Where an entry is about to be created, it is not any entry with a thread. -/
theorem Alone.ne_of_made {h : RtpThreadHandler} {q : Nat} (alone : s.Alone)
    (phase : s.phase i = .creating p rest) (made : s.creator? h = some q) : q ≠ p := by
  rintro rfl
  exact (alone.free i q rest phase).2 h made

omit [DecidableEq ι] in
/-- Two callers that create different threads. -/
theorem Alone.ne_of_creating {q : Nat} (alone : s.Alone) (phase : (s.phase i).claimed = some p)
    (other : j ≠ i) (phase' : (s.phase j).claimed = some q) : q ≠ p := by
  rintro rfl
  exact other (alone.one j i q phase' phase)

/-- Claims only go, but for the caller that reads. -/
theorem claimed_enter {phase : SpawnPhase} (manager : RtpThreadManager)
    (kept : phase.claimed = none ∨ phase.claimed = (s.phase i).claimed)
    (claimed : ((enter { s with manager } i phase).phase j).claimed = some p) :
    (s.phase j).claimed = some p := by
  rw [enter_phase] at claimed
  split at claimed
  · next same =>
      subst same
      rcases kept with free | same
      · rw [free] at claimed
        cases claimed
      · rw [← same, claimed]
  · exact claimed

/-- A caller that is not about to set the flag of `p` leaves those who are. -/
theorem created_enter {phase : SpawnPhase} (manager : RtpThreadManager)
    (apart : ∀ rest, s.phase i ≠ .created p rest)
    (created : ∃ j rest, s.phase j = .created p rest) :
    ∃ j rest, (enter { s with manager } i phase).phase j = .created p rest := by
  obtain ⟨j, rest, created⟩ := created
  refine ⟨j, rest, (enter_phase phase j).trans ((if_neg ?_).trans created)⟩
  rintro rfl
  exact apart rest created

theorem Alone.move {phase : SpawnPhase} (alone : s.Alone) (idle : (s.phase i).claimed = none)
    (free : phase.claimed = none) : (s.enter i phase).Alone where
  one j k p claimed claimed' :=
    alone.one j k p (claimed_enter s.manager (.inl free) claimed)
      (claimed_enter s.manager (.inl free) claimed')
  free j p rest here := by
    rw [enter_phase] at here
    split at here
    · rw [here] at free
      cases free
    · exact alone.free j p rest here
  held h p made := by
    rcases alone.held h p made with ⟨handle, state⟩
    have apart : ∀ rest, s.phase i ≠ .created p rest := by
      intro rest created
      rw [created] at idle
      cases idle
    exact ⟨handle, state.imp_right (created_enter s.manager apart)⟩
  marked := alone.marked

/-- Who claims an entry after `i` has read the flag of `p` as unset. -/
theorem claimed_read {q : Nat} (nobody : ∀ j, (s.phase j).claimed ≠ some p)
    (claimed : ((s.enter i (.creating p rest)).phase j).claimed = some q) :
    j = i ∧ q = p ∨ q ≠ p ∧ (s.phase j).claimed = some q := by
  rw [enter_phase] at claimed
  split at claimed
  · next same =>
      cases claimed
      exact .inl ⟨same, rfl⟩
  · have other : q ≠ p := by
      rintro rfl
      exact nobody j claimed
    exact .inr ⟨other, claimed⟩

theorem Alone.read (alone : s.Alone) (phase : s.phase i = .entered p rest)
    (flag : (s.manager.deref p).bThreadSpawned = false)
    (nobody : ∀ j, (s.phase j).claimed ≠ some p) : (s.enter i (.creating p rest)).Alone where
  one j k q claimed claimed' := by
    rcases claimed_read nobody claimed with ⟨rfl, rfl⟩ | ⟨other, before⟩
    · rcases claimed_read nobody claimed' with ⟨rfl, _⟩ | ⟨other, _⟩
      · rfl
      · exact absurd rfl other
    · rcases claimed_read nobody claimed' with ⟨_, rfl⟩ | ⟨_, before'⟩
      · exact absurd rfl other
      · exact alone.one j k q before before'
  free j q rest' here := by
    rw [enter_phase] at here
    split at here
    · cases here
      have fresh : ∀ h, s.creator? h ≠ some p := by
        intro h made
        rcases (alone.held h p made).2 with set | ⟨j, rest, created⟩
        · rw [flag] at set
          cases set
        · exact nobody j (by rw [created]; rfl)
      exact ⟨flag, fresh⟩
    · exact alone.free j q rest' here
  held h q made := by
    rcases alone.held h q made with ⟨handle, state⟩
    have apart : ∀ rest', s.phase i ≠ .created q rest' := by
      intro rest' created
      rw [phase] at created
      cases created
    exact ⟨handle, state.imp_right (created_enter s.manager apart)⟩
  marked := alone.marked

omit [DecidableEq ι] in
theorem Inv.handleStored (inv : s.Inv) (env : PthreadEnv)
    (phase : s.phase i = .creating p rest) :
    HandleStored s.manager p
      (if env.create s.manager.system.calls.length = 0 then s.manager.system.threads.size + 1
        else env.scribble s.manager.system.calls.length)
      (create env s.manager p).2 := by
  refine handleStored_create env (inv.valid_of_phase (i := i) ?_)
  rw [phase]
  exact List.mem_cons_self

/-- `pthread_create` for one entry leaves the others their handles. -/
theorem Alone.held_create {phase' : SpawnPhase} {h : RtpThreadHandler} {q : Nat}
    (alone : s.Alone) (inv : s.Inv) (phase : s.phase i = .creating p rest)
    (made : s.creator? h = some q) :
    ((create env s.manager p).2.deref q).ulThreadHandler = h ∧
      (((create env s.manager p).2.deref q).bThreadSpawned = true ∨ ∃ j rest,
        (enter { s with manager := (create env s.manager p).2 } i phase').phase j =
          .created q rest) := by
  have stored := inv.handleStored env phase
  have same := (stored.deref q).trans (if_neg (alone.ne_of_made phase made))
  have apart : ∀ rest', s.phase i ≠ .created q rest' := by
    intro rest' created
    rw [phase] at created
    cases created
  rcases alone.held h q made with ⟨handle, state⟩
  exact ⟨(congrArg _ same).trans handle,
    state.imp (stored.spawned q).trans (created_enter _ apart)⟩

omit [DecidableEq ι] in
/-- And their marks. -/
theorem Alone.marked_create {q : Nat} (alone : s.Alone) (inv : s.Inv)
    (phase : s.phase i = .creating p rest)
    (flag : ((create env s.manager p).2.deref q).bThreadSpawned = true) :
    s.creator? ((create env s.manager p).2.deref q).ulThreadHandler = some q := by
  have stored := inv.handleStored env phase
  have made := alone.marked q ((stored.spawned q).symm.trans flag)
  rw [(stored.deref q).trans (if_neg (alone.ne_of_made phase made))]
  exact made

theorem Alone.createFailed (alone : s.Alone) (inv : s.Inv)
    (phase : s.phase i = .creating p rest)
    (failed : env.create s.manager.system.calls.length ≠ 0) :
    (enter { s with manager := (create env s.manager p).2 } i (.returned .sFail)).Alone := by
  have stored := inv.handleStored env phase
  have creators : ∀ h, (create env s.manager p).2.system.creator? h = s.creator? h := fun h =>
    (creator?_create env s.manager p h).trans (if_neg fun both => failed both.1)
  exact {
    one := fun j k q claimed claimed' =>
      alone.one j k q (claimed_enter _ (.inl rfl) claimed) (claimed_enter _ (.inl rfl) claimed')
    free := by
      intro j q rest' here
      rw [enter_phase] at here
      split at here
      · cases here
      · rcases alone.free j q rest' here with ⟨unset, fresh⟩
        exact ⟨(stored.spawned q).trans unset, fun h made =>
          fresh h ((creators h).symm.trans made)⟩
    held := fun h q made => alone.held_create inv phase ((creators h).symm.trans made)
    marked := fun q flag => (creators _).trans (alone.marked_create inv phase flag) }

theorem Alone.created (alone : s.Alone) (inv : s.Inv) (phase : s.phase i = .creating p rest)
    (created : env.create s.manager.system.calls.length = 0) :
    (enter { s with manager := (create env s.manager p).2 } i (.created p rest)).Alone := by
  have stored := inv.handleStored env phase
  rw [if_pos created] at stored
  have claims : (s.phase i).claimed = some p := by rw [phase]; rfl
  have creators : ∀ h, (create env s.manager p).2.system.creator? h =
      if h = s.manager.system.threads.size + 1 then some p else s.creator? h := by
    intro h
    rw [creator?_create env s.manager p h]
    simp only [created, true_and]
    rfl
  have kept : (SpawnPhase.created p rest).claimed = none ∨
      (SpawnPhase.created p rest).claimed = (s.phase i).claimed := .inr claims.symm
  exact {
    one := fun j k q claimed claimed' =>
      alone.one j k q (claimed_enter _ kept claimed) (claimed_enter _ kept claimed')
    free := by
      intro j q rest' here
      rw [enter_phase] at here
      split at here
      · cases here
      · next other =>
          rcases alone.free j q rest' here with ⟨unset, fresh⟩
          have apart : q ≠ p := alone.ne_of_creating claims other (by rw [here]; rfl)
          have still : ∀ h, (create env s.manager p).2.system.creator? h ≠ some q := by
            intro h made
            rw [creators] at made
            split at made
            · cases made
              exact apart rfl
            · exact fresh h made
          exact ⟨(stored.spawned q).trans unset, still⟩
    held := by
      intro h q made
      rw [creator?, enter, creators] at made
      split at made
      · next fresh =>
          cases made
          have handle := congrArg RtpThread.ulThreadHandler
            ((stored.deref p).trans (if_pos rfl))
          exact ⟨handle.trans fresh.symm, .inr ⟨i, rest, (enter_phase _ i).trans (if_pos rfl)⟩⟩
      · exact alone.held_create inv phase made
    marked := by
      intro q flag
      have made := alone.marked_create inv phase flag
      exact (creators _).trans ((if_neg (ne_fresh made).symm).trans made) }

/-- What setting the flag of `p` does to the entries. -/
theorem deref_marked {m : RtpThreadManager} (valid : p < m.objects.size) (q : Nat) :
    (m.setSpawned p).deref q =
      if q = p then { m.deref p with bThreadSpawned := true } else m.deref q :=
  deref_modify _ valid _ _ q

theorem handle_marked {m : RtpThreadManager} (valid : p < m.objects.size) (q : Nat) :
    ((m.setSpawned p).deref q).ulThreadHandler = (m.deref q).ulThreadHandler := by
  rw [deref_marked valid q]
  split
  · next same => rw [same]
  · rfl

theorem Alone.mark (alone : s.Alone) (inv : s.Inv) (phase : s.phase i = .created p rest) :
    (enter { s with manager := s.manager.setSpawned p } i (.next rest)).Alone := by
  have valid : p < s.manager.objects.size := by
    refine inv.valid_of_phase (i := i) ?_
    rw [phase]
    exact List.mem_cons_self
  have claims : (s.phase i).claimed = some p := by rw [phase]; rfl
  have unclaims := SpawnPhase.claimed_next rest
  exact {
    one := fun j k q claimed claimed' =>
      alone.one j k q (claimed_enter _ (.inl unclaims) claimed)
        (claimed_enter _ (.inl unclaims) claimed')
    free := by
      intro j q rest' here
      rw [enter_phase] at here
      split at here
      · rw [here] at unclaims
        cases unclaims
      · next other =>
          rcases alone.free j q rest' here with ⟨unset, fresh⟩
          have apart : q ≠ p := alone.ne_of_creating claims other (by rw [here]; rfl)
          have same := (deref_marked valid q).trans (if_neg apart)
          exact ⟨(congrArg _ same).trans unset, fresh⟩
    held := by
      intro h q made
      rcases alone.held h q made with ⟨handle, state⟩
      rcases eq_or_ne q p with same | other
      · have set := congrArg RtpThread.bThreadSpawned
          ((deref_marked valid q).trans (if_pos same))
        exact ⟨(handle_marked valid q).trans handle, .inl set⟩
      · have unchanged := (deref_marked valid q).trans (if_neg other)
        have apart : ∀ rest', s.phase i ≠ .created q rest' := by
          intro rest' created
          rw [phase] at created
          cases created
          exact other rfl
        exact ⟨(handle_marked valid q).trans handle,
          state.imp (congrArg _ unchanged).trans (created_enter _ apart)⟩
    marked := by
      intro q flag
      have made : s.creator? (s.manager.deref q).ulThreadHandler = some q := by
        rcases eq_or_ne q p with rfl | other
        · rcases inv.created i q rest phase with ⟨h, made⟩
          rwa [(alone.held h q made).1]
        · have unchanged := (deref_marked valid q).trans (if_neg other)
          exact alone.marked q ((congrArg RtpThread.bThreadSpawned unchanged).symm.trans flag)
      exact (congrArg s.creator? (handle_marked valid q)).trans made }

theorem Alone.step (alone : s.Alone) (inv : s.Inv) (met : s.AloneAtRead i)
    (steps : Steps env s i s') : s'.Alone := by
  cases steps with
  | move idle free listed => exact alone.move idle free
  | read phase flag => exact alone.read phase flag (met _ (by rw [phase]; rfl) flag)
  | createFailed phase failed => exact alone.createFailed inv phase failed
  | create phase created => exact alone.created inv phase created
  | mark phase => exact alone.mark inv phase

/-! ## Runs in which a claim is not alone -/

/-- Two threads of one entry, or callers about to create them. -/
inductive Conflict (s : SpawnState ι) : Prop
  | callers {i j : ι} {p : Nat} {rest rest' : Option (List Nat)} (other : i ≠ j)
      (first : s.phase i = .creating p rest) (second : s.phase j = .creating p rest')
  | caller {i : ι} {p : Nat} {rest : Option (List Nat)} {h : RtpThreadHandler}
      (creating : s.phase i = .creating p rest) (made : s.creator? h = some p)
  | threads {p : Nat} {h h' : RtpThreadHandler} (other : h ≠ h') (made : s.creator? h = some p)
      (made' : s.creator? h' = some p)

omit [DecidableEq ι] in
/-- Once nobody is about to create a thread, a conflict is between two threads. -/
theorem Conflict.not_spawnedOnce (conflict : s.Conflict)
    (quiet : ∀ i p rest, s.phase i ≠ .creating p rest) : ¬ s.SpawnedOnce := by
  intro once
  cases conflict with
  | callers other first second => exact quiet _ _ _ first
  | caller creating made => exact quiet _ _ _ creating
  | threads other made made' => exact other (once.once _ _ _ made made')

/-- Where `pthread_create` succeeds, a caller that is about to call it goes on to a thread. -/
theorem Steps.creating_to (steps : Steps env s i s') (succeeds : ∀ n, env.create n = 0)
    (creating : s.phase j = .creating p rest) :
    s'.phase j = .creating p rest ∨
      j = i ∧ s'.creator? (s.manager.system.threads.size + 1) = some p := by
  rcases eq_or_ne j i with rfl | other
  · cases steps with
    | move idle free listed =>
        rw [creating] at idle
        cases idle
    | read phase flag | mark phase =>
        rw [creating] at phase
        cases phase
    | createFailed phase failed => exact absurd (succeeds _) failed
    | create phase created =>
        rw [creating] at phase
        cases phase
        exact .inr ⟨rfl, (creator?_create env s.manager p _).trans (if_pos ⟨created, rfl⟩)⟩
  · refine .inl ?_
    cases steps <;> exact (enter_phase _ j).trans ((if_neg other).trans creating)

theorem Conflict.step (conflict : s.Conflict) (succeeds : ∀ n, env.create n = 0)
    (steps : Steps env s i s') : s'.Conflict := by
  cases conflict with
  | @callers j k p rest rest' other first second =>
      rcases steps.creating_to succeeds first with first' | ⟨rfl, made⟩
      · rcases steps.creating_to succeeds second with second' | ⟨rfl, made⟩
        · exact .callers other first' second'
        · exact .caller first' made
      · rcases steps.creating_to succeeds second with second' | ⟨rfl, _⟩
        · exact .caller second' made
        · exact absurd rfl other
  | caller creating made =>
      rcases steps.creating_to succeeds creating with creating' | ⟨rfl, made'⟩
      · exact .caller creating' (steps.creator?_to made)
      · exact .threads (ne_fresh made) made' (steps.creator?_to made)
  | threads other made made' =>
      exact .threads other (steps.creator?_to made) (steps.creator?_to made')

/-- Reading the flag of a claimed entry as unset makes a conflict. -/
theorem conflict_of_not_alone (inv : s.Inv) (stepped : step env calls s i = some s')
    (claimed : ¬ s.AloneAtRead i) : s'.Conflict := by
  unfold AloneAtRead at claimed
  push Not at claimed
  obtain ⟨p, reading, flag, j, claims⟩ := claimed
  cases phase : s.phase i with
  | entered q rest =>
      rw [phase] at reading
      cases reading
      have other : j ≠ i := by
        rintro rfl
        rw [phase] at claims
        cases claims
      have result : s' = s.enter i (.creating p rest) := by
        rw [step, phase] at stepped
        simpa [flag] using stepped.symm
      subst result
      have first : (s.enter i (.creating p rest)).phase i = .creating p rest :=
        (enter_phase _ i).trans (if_pos rfl)
      cases phase' : s.phase j with
      | creating q rest' =>
          rw [phase'] at claims
          cases claims
          have second : (s.enter i (.creating p rest)).phase j = .creating p rest' :=
            (enter_phase _ j).trans ((if_neg other).trans phase')
          exact .callers (Ne.symm other) first second
      | created q rest' =>
          rw [phase'] at claims
          cases claims
          obtain ⟨h, made⟩ := inv.created j p rest' phase'
          exact .caller first made
      | called | checking | entered | returned =>
          rw [phase'] at claims
          cases claims
  | called | checking | creating | created | returned =>
      rw [phase] at reading
      cases reading

/-! ## Runs from a manager that sequential calls built -/

omit [DecidableEq ι] in
theorem inv_init {m : RtpThreadManager} (wf : m.Wf) : (init m : SpawnState ι).Inv where
  valid := wf.valid
  listed i p member := by cases member
  created i p rest here := by cases here

omit [DecidableEq ι] in
theorem alone_init {m : RtpThreadManager} (entries : m.EntriesHold) :
    (init m : SpawnState ι).Alone where
  one i j p claimed := by cases claimed
  free i p rest here := by cases here
  held h p made := by
    obtain ⟨t, found, rfl⟩ := Option.map_eq_some_iff.mp made
    exact ⟨(entries.held h t found).2, .inl (entries.held h t found).1⟩
  marked p flag := by
    obtain ⟨t, found, creator⟩ := entries.created p flag
    exact Option.map_eq_some_iff.mpr ⟨t, found, creator⟩

/-- **Spawning once.** Callers start on a manager that sequential calls built.  If in a run
nobody reads the flag of an entry as unset while another caller has read it so and not set
it since, then every entry creates at most one thread and keeps its handle throughout.  If
every `pthread_create` succeeds and nobody is left about to call it, it takes no less. -/
theorem spawnedOnce_of_aloneAtRead {env₀ : PthreadEnv} {ops : List ManagerOp}
    {m : RtpThreadManager} (built : run (RtpThreadManager.step env₀) .init ops = some m)
    {sched : List ι} (reached : run (step env calls) (init m) sched = some s) :
    (Along (step env calls) AloneAtRead (init m) sched →
      Always (step env calls) SpawnedOnce (init m) sched) ∧
    ((∀ n, env.create n = 0) → (∀ i p rest, s.phase i ≠ .creating p rest) →
      Always (step env calls) SpawnedOnce (init m) sched →
      Along (step env calls) AloneAtRead (init m) sched) := by
  have invariant : (init m : SpawnState ι).Inv := inv_init (run_wf built)
  have preserved : ∀ (s : SpawnState ι) i t, s.Inv → step env calls s i = some t → t.Inv :=
    fun s i t inv stepped => inv.step (.of_step stepped)
  constructor
  · exact always_of_along (Q := fun s => s.Inv ∧ s.Alone)
      (fun s i t ⟨inv, alone⟩ met stepped =>
        ⟨preserved s i t inv stepped, alone.step inv met (.of_step stepped)⟩)
      (fun s ⟨_, alone⟩ => alone.spawnedOnce)
      ⟨invariant, alone_init (run_entriesHold built)⟩
  · intro succeeds quiet once
    refine along_of_persistent (K := Conflict) preserved
      (fun s i t inv claimed stepped => conflict_of_not_alone inv stepped claimed)
      (fun s i t inv conflict stepped => conflict.step succeeds (.of_step stepped))
      invariant reached fun conflict => ?_
    exact conflict.not_spawnedOnce quiet (once.last reached)

/-- Two callers that both read the flag before either calls `pthread_create` start the
routine of the one entry twice, and the second handle overwrites the first. -/
theorem routine_started_twice :
    ∃ m s, run (RtpThreadManager.step .succeeding) .init [.addThread .main (some 1)] = some m ∧
      run (step .succeeding fun _ => .spawnThread .main) (init m : SpawnState Bool)
        [false, false, false, true, true, true, false, true, false, true] = some s ∧
      s.creator? 1 = some 0 ∧ s.creator? 2 = some 0 ∧
      s.manager.deref 0 = ⟨.main, some 1, 2, true⟩ ∧ ¬ s.SpawnedOnce := by
  refine ⟨_, _, rfl, rfl, rfl, rfl, rfl, fun once => ?_⟩
  have same : 1 = 2 := once.once 1 2 0 rfl rfl
  cases same

/-- One after the other, `spawnAllThreads` skips what `spawnThread` has spawned. -/
theorem spawnedOnce_of_aloneAtRead_two :
    ∃ m s, run (RtpThreadManager.step .succeeding) .init [.addThread .main (some 1)] = some m ∧
      run (step .succeeding fun all => if all then .spawnAllThreads else .spawnThread .main)
        (init m : SpawnState Bool) [false, true, false, false, false, false, true] = some s ∧
      s.phase false = .returned .sOk ∧ s.phase true = .returned .sOk ∧
      Always (step .succeeding fun all => if all then .spawnAllThreads else .spawnThread .main)
        SpawnedOnce (init m) [false, true, false, false, false, false, true] := by
  refine ⟨_, _, rfl, rfl, rfl, rfl, ?_⟩
  have built : run (RtpThreadManager.step .succeeding) .init [.addThread .main (some 1)] =
      some _ := rfl
  exact (spawnedOnce_of_aloneAtRead built rfl).1 (by decide)

/-! ## A call that nobody interrupts -/

omit [DecidableEq ι] in
theorem spawnThread_eq (env : PthreadEnv) (m : RtpThreadManager) (p : Nat) :
    RtpThread.spawnThread env m p =
      if (m.deref p).bThreadSpawned then (.sFail, m)
      else if (create env m p).1 ≠ 0 then (.sFail, (create env m p).2)
      else (.sOk, (create env m p).2.setSpawned p) := rfl

/-- `i` alone takes the system from `s` to a state with this manager and this phase. -/
def Leads (env : PthreadEnv) (calls : ι → SpawnCall) (s : SpawnState ι) (i : ι)
    (m : RtpThreadManager) (phase : SpawnPhase) : Prop :=
  ∃ n t, run (step env calls) s (List.replicate n i) = some t ∧ t.manager = m ∧ t.phase i = phase

theorem Leads.step {m : RtpThreadManager} {phase : SpawnPhase}
    (stepped : step env calls s i = some s') (rest : Leads env calls s' i m phase) :
    Leads env calls s i m phase := by
  obtain ⟨n, t, reached, result⟩ := rest
  exact ⟨n + 1, t, run_cons_iff.mpr ⟨s', stepped, reached⟩, result⟩

theorem Leads.done {m : RtpThreadManager} {phase : SpawnPhase} (left : s.manager = m)
    (here : s.phase i = phase) : Leads env calls s i m phase :=
  ⟨0, s, rfl, left, here⟩

theorem Leads.enter {phase : SpawnPhase} {m : RtpThreadManager} (m' : RtpThreadManager)
    (phase' : SpawnPhase) (stepped : SpawnState.step env calls s i =
      some (SpawnState.enter { s with manager := m' } i phase'))
    (rest : ∀ t : SpawnState ι, t.manager = m' → t.phase i = phase' →
      Leads env calls t i m phase) : Leads env calls s i m phase :=
  .step stepped (rest _ rfl ((enter_phase phase' i).trans (if_pos rfl)))

/-- The steps of one entry, uninterrupted, are `RtpThread::spawnThread`. -/
theorem entered_alone {m : RtpThreadManager} {phase : SpawnPhase}
    (here : s.phase i = .entered p rest)
    (after : ∀ t : SpawnState ι,
      t.manager = (RtpThread.spawnThread env s.manager p).2 →
      t.phase i = (match (RtpThread.spawnThread env s.manager p).1 with
        | .sOk => .next rest
        | .sFail => .returned .sFail) → Leads env calls t i m phase) :
    Leads env calls s i m phase := by
  rw [spawnThread_eq] at after
  cases flag : (s.manager.deref p).bThreadSpawned with
  | true =>
      rw [flag, if_pos rfl] at after
      exact .enter s.manager _ (by rw [SpawnState.step, here]; simp [flag]) after
  | false =>
      rw [flag, if_neg Bool.false_ne_true] at after
      refine .enter s.manager (.creating p rest)
        (by rw [SpawnState.step, here]; simp [flag]) fun t manager creating => ?_
      rw [← manager] at after
      by_cases failed : (create env t.manager p).1 ≠ 0
      · rw [if_pos failed] at after
        exact .enter _ _ (by rw [SpawnState.step, creating]; exact if_pos failed) after
      · rw [if_neg failed] at after
        refine .enter (create env t.manager p).2 (.created p rest)
          (by rw [SpawnState.step, creating]; exact if_neg failed) fun u manager' created => ?_
        rw [← manager'] at after
        exact .enter _ _ (by rw [SpawnState.step, created]) after

theorem spawnFrom_alone (ps : List Nat) (here : s.phase i = .next (some ps)) :
    Leads env calls s i (s.manager.spawnFrom env ps).2
      (.returned (s.manager.spawnFrom env ps).1) := by
  induction ps generalizing s with
  | nil => exact .done rfl here
  | cons p ps ih =>
      have here : s.phase i = .checking p (some ps) := here
      rw [spawnFrom]
      cases flag : (s.manager.deref p).bThreadSpawned with
      | true =>
          refine .enter s.manager (.next (some ps))
            (by rw [SpawnState.step, here]; simp [flag, SpawnPhase.skip]) fun t manager next => ?_
          rw [if_pos rfl, ← manager]
          exact ih next
      | false =>
          refine .enter s.manager (.entered p (some ps))
            (by rw [SpawnState.step, here]; simp [flag]) fun t manager entered => ?_
          rw [if_neg Bool.false_ne_true, ← manager]
          refine entered_alone entered fun u left phase => ?_
          rcases result : RtpThread.spawnThread env t.manager p with ⟨ret, m'⟩
          rw [result] at left phase
          subst left
          cases ret with
          | sOk => exact ih phase
          | sFail => exact .done rfl phase

/-- **Callers and the sequential manager.** A caller that nobody interrupts does what the
sequential `spawnThread` or `spawnAllThreads` does, and returns what it returns. -/
theorem call_alone (m : RtpThreadManager) (i : ι) :
    match calls i with
    | .spawnThread eType =>
        Leads env calls (init m) i (m.spawnThread env eType).2
          (.returned (m.spawnThread env eType).1)
    | .spawnAllThreads =>
        Leads env calls (init m) i (m.spawnAllThreads env).2
          (.returned (m.spawnAllThreads env).1) := by
  cases call : calls i with
  | spawnAllThreads =>
      refine .enter m (.next (some m.listThreadList))
        (by rw [SpawnState.step, call]; rfl) fun t manager phase => ?_
      rw [spawnAllThreads, ← manager]
      exact spawnFrom_alone t.manager.listThreadList (manager ▸ phase)
  | spawnThread eType =>
      dsimp only
      rw [RtpThreadManager.spawnThread]
      cases found : m.getThread eType with
      | none =>
          refine .enter m (.returned .sFail)
            (by simp [SpawnState.step, init, call, found]) fun t manager phase => ?_
          exact .done manager phase
      | some p =>
          refine .enter m (.checking p none)
            (by simp [SpawnState.step, init, call, found]) fun t manager checking => ?_
          subst manager
          dsimp only
          cases flag : (t.manager.deref p).bThreadSpawned with
          | true =>
              rw [if_pos rfl]
              refine .enter t.manager (.returned .sFail)
                (by rw [SpawnState.step, checking]; simp [flag, SpawnPhase.skip])
                fun u manager phase => ?_
              exact .done manager phase
          | false =>
              rw [if_neg Bool.false_ne_true]
              refine .enter t.manager (.entered p none)
                (by rw [SpawnState.step, checking]; simp [flag]) fun u manager entered => ?_
              rw [← manager]
              refine entered_alone entered fun v left phase => ?_
              rcases result : RtpThread.spawnThread env u.manager p with ⟨ret, m'⟩
              rw [result] at left phase
              cases ret <;> exact .done left phase

end SpawnState

end OpenRtp
