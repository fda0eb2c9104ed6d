import OpenRtp.EntryThreads

/-!
# Running threads and the entries that reach them

A thread runs from the `pthread_create` that started it until a `killThread` joins it.
`cleanThread` and `cleanAllThreads` drop entries whatever their thread does, so each
type has at most one running thread, held by a listed entry, exactly along the runs
that clean no type with a running thread (`running_reachable_iff`).
-/

namespace OpenRtp.RtpThreadManager

variable {env : PthreadEnv} {m m' : RtpThreadManager} {h : RtpThreadHandler} {t : Pthread}

/-- `h` denotes the thread `t`, and no `killThread` has signalled and joined it. -/
structure Running (m : RtpThreadManager) (h : RtpThreadHandler) (t : Pthread) : Prop where
  created : m.system.thread? h = some t
  unjoined : t.joined = false

/-- The type a thread was created for. -/
def typeOfThread (m : RtpThreadManager) (t : Pthread) : RtpThreadType := m.typeOf t.creator

/-- At most one thread of each type runs, and the listed entry of its type holds its
handle. -/
structure RunningReachable (m : RtpThreadManager) : Prop where
  unique : ∀ h t h' t', m.Running h t → m.Running h' t' →
    m.typeOfThread t = m.typeOfThread t' → h = h'
  held : ∀ h t, m.Running h t → ∃ p ∈ m.listThreadList,
    m.typeOf p = m.typeOfThread t ∧ (m.deref p).bThreadSpawned = true ∧
      (m.deref p).ulThreadHandler = h

/-- The operation cleans no type that has a running thread. -/
def CleansNoRunning (m : RtpThreadManager) (op : ManagerOp) : Prop :=
  (∀ eType, op = .cleanThread eType → ∀ h t, m.Running h t → m.typeOfThread t ≠ eType) ∧
    (op = .cleanAllThreads → ∀ h t, ¬ m.Running h t)

/-! ## The invariant -/

/-- Every thread is the one its creator holds, and running threads have their creator
listed. -/
structure HeldByCreator (m : RtpThreadManager) : Prop where
  valid : ∀ h t, m.system.thread? h = some t → t.creator < m.objects.size
  spawned : ∀ h t, m.system.thread? h = some t →
    (m.deref t.creator).bThreadSpawned = true ∧ (m.deref t.creator).ulThreadHandler = h
  listed : ∀ h t, m.Running h t → t.creator ∈ m.listThreadList

/-- What the manager keeps implies what it promises. -/
theorem HeldByCreator.runningReachable (wf : m.Wf) (inv : m.HeldByCreator) :
    m.RunningReachable where
  unique h t h' t' running running' same := by
    have creator : t.creator = t'.creator :=
      wf.unique.eq_of_key (inv.listed h t running) (inv.listed h' t' running') same
    rw [← (inv.spawned h t running.created).2, ← (inv.spawned h' t' running'.created).2,
      creator]
  held h t running :=
    ⟨t.creator, inv.listed h t running, rfl, inv.spawned h t running.created⟩

/-- Where entries and threads belong together, only the listing is left to say. -/
theorem EntriesHold.heldByCreator (entries : m.EntriesHold)
    (listed : ∀ h t, m.Running h t → t.creator ∈ m.listThreadList) : m.HeldByCreator where
  valid := entries.valid
  spawned := entries.held
  listed := listed

/-! ## What each effect keeps -/

theorem SpawnEffect.listed (effect : SpawnEffect env m m')
    (before : ∀ h t, m.Running h t → t.creator ∈ m.listThreadList) :
    ∀ h t, m'.Running h t → t.creator ∈ m'.listThreadList := by
  intro h t running
  cases effect with
  | failed _ failed =>
      rw [failed.list]
      exact before h t ⟨failed.thread? h ▸ running.created, running.unjoined⟩
  | spawned listed spawned =>
      have found := running.created
      rw [spawned.thread? h] at found
      rw [spawned.list]
      split at found
      · cases found
        exact listed
      · exact before h t ⟨found, running.unjoined⟩

theorem spawnEffects_listed (effects : SpawnEffects env m m')
    (before : ∀ h t, m.Running h t → t.creator ∈ m.listThreadList) :
    ∀ h t, m'.Running h t → t.creator ∈ m'.listThreadList :=
  effects_invariant (P := fun m => ∀ h t, m.Running h t → t.creator ∈ m.listThreadList)
    (fun _ _ before effect => effect.listed before) before effects

theorem KillEffect.listed (effect : KillEffect m m')
    (before : ∀ h t, m.Running h t → t.creator ∈ m.listThreadList) :
    ∀ h t, m'.Running h t → t.creator ∈ m'.listThreadList := by
  intro h t running
  obtain ⟨_, list⟩ := effect.objects
  obtain ⟨t', found, creator, _, joins⟩ := effect.thread_of running.created
  rw [list, creator]
  exact before h t' ⟨found, joins running.unjoined⟩

theorem step_listed {op : ManagerOp} (wf : m.Wf) (inv : m.HeldByCreator)
    (cleans : CleansNoRunning m op) (stepped : step env m op = some m') :
    ∀ h t, m'.Running h t → t.creator ∈ m'.listThreadList := by
  cases op with
  | addThread eType pRoutine =>
      cases stepped
      cases found : m.getThread eType with
      | some p => rw [addThread, found]; exact inv.listed
      | none =>
          rw [addThread_of_absent found]
          exact fun h t running =>
            List.mem_append_left _ (inv.listed h t ⟨running.created, running.unjoined⟩)
  | getThread eType => cases stepped; exact inv.listed
  | spawnThread eType =>
      cases stepped
      exact spawnEffects_listed (spawnThread_effects wf eType) inv.listed
  | spawnAllThreads =>
      cases stepped
      exact spawnEffects_listed (spawnFrom_effects wf fun p member => member) inv.listed
  | killThread eType =>
      cases stepped
      rcases killThread_effect wf env eType with same | effect
      · rw [same]; exact inv.listed
      · exact effect.listed inv.listed
  | killAllThreads => cases stepped; exact inv.listed
  | cleanThread eType =>
      cases stepped
      intro h t running
      have before : m.Running h t := ⟨running.created, running.unjoined⟩
      exact (Keyed.mem_erase_iff wf.unique).mpr
        ⟨inv.listed h t before, cleans.1 eType rfl h t before⟩
  | cleanAllThreads =>
      cases stepped
      intro h t running
      rw [cleanAllThreads_eq] at running
      exact absurd ⟨running.created, running.unjoined⟩ (cleans.2 rfl h t)

theorem step_heldByCreator {op : ManagerOp} (wf : m.Wf) (entries : m.EntriesHold)
    (inv : m.HeldByCreator) (cleans : CleansNoRunning m op)
    (stepped : step env m op = some m') : m'.HeldByCreator :=
  (step_entriesHold wf entries stepped).heldByCreator (step_listed wf inv cleans stepped)

/-- An entry that goes while its thread runs leaves the thread out of reach. -/
theorem cleansNoRunning_of_reachable {op : ManagerOp} (wf : m.Wf)
    (stepped : step env m op = some m') (after : m'.RunningReachable) :
    CleansNoRunning m op := by
  constructor
  · rintro eType rfl h t running rfl
    cases stepped
    obtain ⟨p, member, type, _⟩ := after.held h t ⟨running.created, running.unjoined⟩
    exact ((Keyed.mem_erase_iff wf.unique).mp member).2 type
  · rintro rfl h t running
    cases stepped
    rw [cleanAllThreads_eq] at after
    obtain ⟨p, member, _⟩ := after.held h t ⟨running.created, running.unjoined⟩
    cases member

/-- **Running threads stay reachable.**  In every state of a run from the empty manager
each type has at most one running thread, held by a listed entry, exactly when no
`cleanThread` or `cleanAllThreads` of the run meets a type with a running thread. -/
theorem running_reachable_iff (env : PthreadEnv) (ops : List ManagerOp) :
    Always (step env) RunningReachable init ops ↔
      Along (step env) CleansNoRunning init ops := by
  constructor
  · obtain ⟨m, reached⟩ := run_total env init ops
    exact along_of_always (I := Wf) (fun _ _ _ => step_wf)
      (fun _ _ _ wf _ stepped after => cleansNoRunning_of_reachable wf stepped after)
      wf_init reached
  · have initial : init.HeldByCreator :=
      entriesHold_init.heldByCreator fun h t running => by
        simpa [init] using running.created
    exact always_of_along (Q := fun m => m.Wf ∧ m.EntriesHold ∧ m.HeldByCreator)
      (fun _ _ _ inv cleans stepped =>
        ⟨step_wf inv.1 stepped, step_entriesHold inv.1 inv.2.1 stepped,
          step_heldByCreator inv.1 inv.2.1 inv.2.2 cleans stepped⟩)
      (fun _ inv => inv.2.2.runningReachable inv.1)
      ⟨wf_init, entriesHold_init, initial⟩

/-- Cleaning a type while its thread runs and starting it again leaves two running
threads of that type, the first with its handle in no listed entry. -/
theorem cleaned_thread_runs :
    ∃ m, run (step .succeeding) init
        [.addThread .main (some 1), .spawnThread .main, .cleanThread .main,
          .addThread .main (some 1), .spawnThread .main] = some m ∧
      m.Running 1 ⟨0, some 1, .detached, false, false⟩ ∧
      m.Running 2 ⟨1, some 1, .detached, false, false⟩ ∧
      m.typeOf 0 = m.typeOf 1 ∧
      (∀ p ∈ m.listThreadList, (m.deref p).ulThreadHandler ≠ 1) ∧
      ¬ m.RunningReachable := by
  refine ⟨_, rfl, ⟨rfl, rfl⟩, ⟨rfl, rfl⟩, rfl, by decide, fun reachable => ?_⟩
  have same := reachable.unique 1 ⟨0, some 1, .detached, false, false⟩
    2 ⟨1, some 1, .detached, false, false⟩ ⟨rfl, rfl⟩ ⟨rfl, rfl⟩ rfl
  cases same

end OpenRtp.RtpThreadManager
