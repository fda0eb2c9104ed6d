import OpenRtp.EntryThreads

/-!
# All or nothing in `killThread`

`killThread` ends the thread with `pthread_kill` and then joins it, and never clears the
spawned flag.  So it does what its result says only when it leaves the thread alone
(`allOrNothing_iff`), and the spawned flags tell which threads were not ended exactly along
the runs in which no `killThread` ends one (`killThread_exact`).
-/

namespace OpenRtp.RtpThreadManager

variable {env : PthreadEnv} {m m' : RtpThreadManager} {eType : RtpThreadType} {p : Nat}

/-- What `RTP_S_OK` says about the entry `p`: `m` is the manager before the call, `m'` the
one after it. -/
structure Killed (env : PthreadEnv) (m : RtpThreadManager) (eType : RtpThreadType) (p : Nat)
    (m' : RtpThreadManager) : Prop where
  ended : ∃ t, m'.system.thread? (m.deref p).ulThreadHandler = some t ∧
    t.signalled = true ∧ t.joined = true
  unmarked : (m'.deref p).bThreadSpawned = false
  killedOnce : m'.killThread env eType = (.sFail, m')
  spawnable : ∃ val, (m'.spawnThread env eType).2.system.calls =
    m'.system.calls ++ [.create p ⟨.detached⟩ val]

/-- What `RTP_S_FAIL` says about the entry `p`. -/
structure LeftAlone (m : RtpThreadManager) (p : Nat) (m' : RtpThreadManager) : Prop where
  unchanged : m'.deref p = m.deref p
  alive : (m.deref p).bThreadSpawned = true →
    ∃ t, m'.system.thread? (m.deref p).ulThreadHandler = some t ∧ t.signalled = false

/-- `killThread` does what its result says. -/
def AllOrNothing (env : PthreadEnv) (m : RtpThreadManager) (eType : RtpThreadType) : Prop :=
  match m.killThread env eType with
  | (.sOk, m') => ∃ p, m.getThread eType = some p ∧ Killed env m eType p m'
  | (.sFail, m') => ∀ p, m.getThread eType = some p → LeftAlone m p m'

/-- If the entry of the type is marked spawned, its thread was not ended before, and
`pthread_kill` fails. -/
def EndsNone (env : PthreadEnv) (m : RtpThreadManager) (eType : RtpThreadType) : Prop :=
  ∀ p ∈ m.getThread eType, (m.deref p).bThreadSpawned = true →
    env.kill m.system.calls.length ≠ 0 ∧
      ∀ t ∈ m.system.thread? (m.deref p).ulThreadHandler, t.signalled = false

instance : Decidable (EndsNone env m eType) :=
  inferInstanceAs (Decidable (∀ p ∈ m.getThread eType, (m.deref p).bThreadSpawned = true →
    env.kill m.system.calls.length ≠ 0 ∧
      ∀ t ∈ m.system.thread? (m.deref p).ulThreadHandler, t.signalled = false))

/-- The entries marked spawned are those whose thread was created and not ended. -/
def FlagsExact (m : RtpThreadManager) : Prop :=
  ∀ p ∈ m.listThreadList, (m.deref p).bThreadSpawned = true ↔
    ∃ h t, m.system.thread? h = some t ∧ t.creator = p ∧ t.signalled = false

/-- The operation is no `killThread` that ends a thread. -/
def KillsNone (env : PthreadEnv) (m : RtpThreadManager) : ManagerOp → Prop
  | .killThread eType => EndsNone env m eType
  | _ => True

instance : ∀ op, Decidable (KillsNone env m op)
  | .killThread eType => inferInstanceAs (Decidable (EndsNone env m eType))
  | .addThread _ _ | .getThread _ | .spawnThread _ | .spawnAllThreads | .killAllThreads
  | .cleanThread _ | .cleanAllThreads => isTrue trivial

/-! ## One call -/

/-- Where `pthread_kill` succeeds, the entry stays marked and its thread is ended. -/
theorem ended_of_kill (entries : m.EntriesHold) (found : m.getThread eType = some p)
    (flag : (m.deref p).bThreadSpawned = true) (killed : env.kill m.system.calls.length = 0) :
    (m.killThread env eType).2.objects = m.objects ∧
      (m.killThread env eType).2.listThreadList = m.listThreadList ∧
      ∃ t, (m.killThread env eType).2.system.thread? (m.deref p).ulThreadHandler = some t ∧
        t.creator = p ∧ t.signalled = true := by
  obtain ⟨t, created, creator⟩ := entries.created p flag
  rcases killThread_cases env m eType with
    ⟨_, unspawned⟩ | ⟨q, here, _, ⟨failed, _⟩ | ⟨_, _, result⟩ | ⟨_, result⟩⟩
  · rw [unspawned p found] at flag
    cases flag
  · exact absurd killed failed
  all_goals
    cases found.symm.trans here
    rw [result]
    refine ⟨rfl, rfl, ?_⟩
    rw [ThreadSystem.thread?_modifyThread, if_pos rfl, created]
    exact ⟨_, rfl, creator, rfl⟩

/-- **One `killThread`.** It does what its result says exactly when it meets no entry marked
spawned, or a thread that nobody has ended and that `pthread_kill` fails to end. -/
theorem allOrNothing_iff (entries : m.EntriesHold) (env : PthreadEnv) (eType : RtpThreadType) :
    AllOrNothing env m eType ↔ EndsNone env m eType := by
  constructor
  · intro kept p found flag
    obtain ⟨t, created, creator⟩ := entries.created p flag
    unfold AllOrNothing at kept
    rcases killThread_cases env m eType with
      ⟨_, unspawned⟩ | ⟨q, here, _, ⟨failed, result⟩ | ⟨killed, _, result⟩ | ⟨killed, result⟩⟩
    · rw [unspawned p found] at flag
      cases flag
    · refine ⟨failed, fun t created => ?_⟩
      rw [result] at kept
      obtain ⟨t', after, alive⟩ := (kept p found).alive flag
      have same := after.symm.trans ((ThreadSystem.thread?_congr rfl).trans created)
      exact Option.some.inj same ▸ alive
    · obtain ⟨_, _, t', after, _, signalled⟩ := ended_of_kill entries found flag killed
      rw [result] at kept after
      obtain ⟨t'', after', alive⟩ := (kept p found).alive flag
      cases after.symm.trans after'
      rw [signalled] at alive
      cases alive
    · rw [result] at kept
      obtain ⟨q, here', unmarked⟩ := kept
      cases found.symm.trans here'
      have still : (m.deref p).bThreadSpawned = false := unmarked.unmarked
      rw [still] at flag
      cases flag
  · intro none
    unfold AllOrNothing
    rcases killThread_cases env m eType with
      ⟨result, unspawned⟩ | ⟨p, found, flag, ⟨failed, result⟩ | ⟨killed, _⟩ | ⟨killed, _⟩⟩
    · rw [result]
      refine fun p found => ⟨rfl, fun flag => ?_⟩
      rw [unspawned p found] at flag
      cases flag
    · rw [result]
      intro q found'
      cases found.symm.trans found'
      refine ⟨rfl, fun flag => ?_⟩
      obtain ⟨t, created, _⟩ := entries.created p flag
      exact ⟨t, (ThreadSystem.thread?_congr rfl).trans created, (none p found flag).2 t created⟩
    · exact absurd killed (none p found flag).1
    · exact absurd killed (none p found flag).1

/-! ## Runs -/

/-- No thread was ended. -/
def NoneEnded (m : RtpThreadManager) : Prop :=
  ∀ h t, m.system.thread? h = some t → t.signalled = false

theorem NoneEnded.flagsExact (alive : m.NoneEnded) (entries : m.EntriesHold) :
    m.FlagsExact := by
  intro p listed
  constructor
  · intro flag
    obtain ⟨t, created, creator⟩ := entries.created p flag
    exact ⟨_, t, created, creator, alive _ t created⟩
  · intro created
    obtain ⟨h, t, created, rfl, _⟩ := created
    exact (entries.held h t created).1

theorem SpawnEffect.noneEnded (effect : SpawnEffect env m m') (alive : m.NoneEnded) :
    m'.NoneEnded := by
  intro h t found
  cases effect with
  | failed listed failed => exact alive h t (failed.thread? h ▸ found)
  | spawned listed spawned =>
      rw [spawned.thread? h] at found
      split at found
      · cases found; rfl
      · exact alive h t found

theorem step_noneEnded {op : ManagerOp} (wf : m.Wf) (alive : m.NoneEnded)
    (none : KillsNone env m op) (stepped : step env m op = some m') : m'.NoneEnded := by
  have spawns : SpawnEffects env m m' → m'.NoneEnded :=
    effects_invariant (fun _ _ alive effect => effect.noneEnded alive) alive
  cases op with
  | addThread eType pRoutine =>
      cases stepped
      unfold addThread
      split <;> exact alive
  | getThread eType | killAllThreads | cleanThread eType => cases stepped; exact alive
  | spawnThread eType => cases stepped; exact spawns (spawnThread_effects wf eType)
  | spawnAllThreads => cases stepped; exact spawns (spawnFrom_effects wf fun p member => member)
  | cleanAllThreads =>
      cases stepped
      rw [cleanAllThreads_eq]
      exact alive
  | killThread eType =>
      cases stepped
      rcases killThread_cases env m eType with
        ⟨result, _⟩ | ⟨p, found, flag, ⟨_, result⟩ | ⟨killed, _⟩ | ⟨killed, _⟩⟩
      · rw [result]
        exact alive
      · rw [result]
        exact fun h t created => alive h t ((ThreadSystem.thread?_congr rfl).trans created)
      · exact absurd killed (none p found flag).1
      · exact absurd killed (none p found flag).1

/-- A `killThread` that ends a thread leaves its entry marked. -/
theorem killsNone_of_flagsExact {op : ManagerOp} (wf : m.Wf) (entries : m.EntriesHold)
    (before : m.FlagsExact) (stepped : step env m op = some m') (after : m'.FlagsExact) :
    KillsNone env m op := by
  cases op with
  | killThread eType =>
      intro p found flag
      have listed := (wf.getThread_eq_some_iff.mp found).1
      obtain ⟨t, created, creator⟩ := entries.created p flag
      constructor
      · intro killed
        have entries' : m'.EntriesHold := step_entriesHold wf entries stepped
        cases stepped
        obtain ⟨objects, list, t', ended, creator', signalled⟩ :=
          ended_of_kill entries found flag killed
        have marked : ((m.killThread env eType).2.deref p).bThreadSpawned = true := by
          rw [deref, objects, ← deref]
          exact flag
        obtain ⟨h, t'', alive, creator'', unended⟩ := (after p (list ▸ listed)).mp marked
        cases entries'.handle_unique ended alive (creator'.trans creator''.symm)
        cases ended.symm.trans alive
        rw [signalled] at unended
        cases unended
      · intro t' created'
        obtain ⟨h, t'', alive, creator'', unended⟩ := (before p listed).mp flag
        cases created.symm.trans created'
        cases entries.handle_unique created alive (creator.trans creator''.symm)
        cases created.symm.trans alive
        exact unended
  | addThread | getThread | spawnThread | spawnAllThreads | killAllThreads | cleanThread
  | cleanAllThreads => trivial

/-- **All or nothing.** In every manager a run from the empty one reaches, `killThread` does
what its result says exactly when it ends no thread; and the spawned flags are exact in every
state of the run exactly when no `killThread` of the run ends a thread. -/
theorem killThread_exact {ops : List ManagerOp} (reached : run (step env) init ops = some m) :
    (∀ eType, AllOrNothing env m eType ↔ EndsNone env m eType) ∧
      (Always (step env) FlagsExact init ops ↔ Along (step env) (KillsNone env) init ops) := by
  refine ⟨allOrNothing_iff (run_entriesHold reached) env, ?_, ?_⟩
  · exact along_of_always (I := fun m => m.Wf ∧ m.EntriesHold)
      (fun _ _ _ ⟨wf, entries⟩ stepped => ⟨step_wf wf stepped, step_entriesHold wf entries stepped⟩)
      (fun _ _ _ ⟨wf, entries⟩ before stepped after =>
        killsNone_of_flagsExact wf entries before stepped after)
      ⟨wf_init, entriesHold_init⟩ reached
  · exact always_of_along (Q := fun m => m.Wf ∧ m.EntriesHold ∧ m.NoneEnded)
      (fun _ _ _ ⟨wf, entries, alive⟩ none stepped =>
        ⟨step_wf wf stepped, step_entriesHold wf entries stepped,
          step_noneEnded wf alive none stepped⟩)
      (fun _ ⟨_, entries, alive⟩ => alive.flagsExact entries)
      ⟨wf_init, entriesHold_init, fun h t created => by simp [init] at created⟩

/-- A successful `killThread` leaves its entry marked spawned, and one whose `pthread_join`
fails has ended the thread all the same. -/
theorem killed_entry_marked :
    ∃ m, run (step .succeeding) init [.addThread .main (some 1), .spawnThread .main] = some m ∧
      (m.killThread .succeeding .main).1 = .sOk ∧
      (m.killThread .succeeding .main).2.deref 0 = ⟨.main, some 1, 1, true⟩ ∧
      ¬ AllOrNothing .succeeding m .main ∧ ¬ (m.killThread .succeeding .main).2.FlagsExact ∧
      let env := { PthreadEnv.succeeding with join := fun _ => 22 }
      (m.killThread env .main).1 = .sFail ∧
      (m.killThread env .main).2.system.thread? 1 = some ⟨0, some 1, .detached, true, false⟩ ∧
      ¬ AllOrNothing env m .main := by
  refine ⟨_, rfl, rfl, rfl, fun kept => ?_, fun exactly => ?_, rfl, rfl, fun kept => ?_⟩
  · obtain ⟨p, found, killed⟩ := kept
    cases found
    cases killed.unmarked
  · obtain ⟨h, t, created, _, alive⟩ := (exactly 0 (by decide)).mp rfl
    rcases h with _ | _ | h
    · cases created
    · cases created
      cases alive
    · cases created
  · obtain ⟨t, created, alive⟩ := (kept 0 rfl).alive rfl
    cases created
    cases alive

/-- Where `pthread_kill` finds no thread, `killThread` changes nothing. -/
theorem killThread_exact_refused :
    ∃ m, run (step { PthreadEnv.succeeding with kill := fun _ => 3 }) init
        [.addThread .main (some 1), .spawnThread .main, .killThread .main] = some m ∧
      AllOrNothing { PthreadEnv.succeeding with kill := fun _ => 3 } m .main ∧
      Always (step { PthreadEnv.succeeding with kill := fun _ => 3 }) FlagsExact init
        [.addThread .main (some 1), .spawnThread .main, .killThread .main] := by
  refine ⟨_, rfl, ?_⟩
  have reached : run (step { PthreadEnv.succeeding with kill := fun _ => 3 }) init
      [.addThread .main (some 1), .spawnThread .main, .killThread .main] = some _ := rfl
  obtain ⟨call, exactly⟩ := killThread_exact reached
  exact ⟨(call .main).mpr (by decide), exactly.mpr (by decide)⟩

end OpenRtp.RtpThreadManager
