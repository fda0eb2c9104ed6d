import OpenRtp.RtpThreadManager

/-!
# Entries and their threads

Every entry creates at most one thread, because the spawned flag is set once and never
cleared: each thread is the one its creator holds, and a spawned entry holds a thread it
created (`EntriesHold`).  Signals and joins change neither.
-/

namespace OpenRtp.RtpThreadManager

variable {env : PthreadEnv} {m m' : RtpThreadManager} {h : RtpThreadHandler} {t : Pthread}
  {p : Nat}

/-- Threads and spawned entries belong together one to one. -/
structure EntriesHold (m : RtpThreadManager) : Prop where
  valid : ∀ h t, m.system.thread? h = some t → t.creator < m.objects.size
  held : ∀ h t, m.system.thread? h = some t →
    (m.deref t.creator).bThreadSpawned = true ∧ (m.deref t.creator).ulThreadHandler = h
  created : ∀ p, (m.deref p).bThreadSpawned = true →
    ∃ t, m.system.thread? (m.deref p).ulThreadHandler = some t ∧ t.creator = p

theorem entriesHold_init : init.EntriesHold where
  valid h t found := by simp [init] at found
  held h t found := by simp [init] at found
  created p flag := by cases flag

/-- An entry that is not spawned created no thread. -/
theorem EntriesHold.creator_ne (entries : m.EntriesHold)
    (flag : (m.deref p).bThreadSpawned = false) (found : m.system.thread? h = some t) :
    t.creator ≠ p := by
  rintro rfl
  rw [(entries.held h t found).1] at flag
  cases flag

/-- Two threads of one entry are one thread. -/
theorem EntriesHold.handle_unique (entries : m.EntriesHold) {h' : RtpThreadHandler}
    {t' : Pthread} (found : m.system.thread? h = some t) (found' : m.system.thread? h' = some t')
    (same : t.creator = t'.creator) : h = h' := by
  rw [← (entries.held h t found).2, ← (entries.held h' t' found').2, same]

/-! ## What each effect keeps -/

theorem Spawned.entriesHold (spawned : Spawned m p m') (valid : p < m.objects.size)
    (entries : m.EntriesHold) : m'.EntriesHold := by
  refine ⟨fun h t found => ?_, fun h t found => ?_, fun q flag => ?_⟩
  · rw [spawned.thread? h] at found
    rw [spawned.size]
    split at found
    · cases found
      exact valid
    · exact entries.valid h t found
  · rw [spawned.thread? h] at found
    split at found
    · next fresh =>
        cases found
        rw [spawned.deref, if_pos rfl]
        exact ⟨rfl, fresh.symm⟩
    · rw [spawned.deref, if_neg (entries.creator_ne spawned.unspawned found)]
      exact entries.held h t found
  · rw [spawned.deref] at flag ⊢
    split
    · next same => exact ⟨_, by rw [spawned.thread?, if_pos rfl], same.symm⟩
    · next other =>
        rw [if_neg other] at flag
        obtain ⟨t, found, creator⟩ := entries.created q flag
        refine ⟨t, ?_, creator⟩
        rw [spawned.thread?, if_neg, found]
        intro fresh
        rw [fresh, ThreadSystem.thread?_fresh] at found
        cases found

theorem SpawnFailed.entriesHold (failed : SpawnFailed env m p m') (entries : m.EntriesHold) :
    m'.EntriesHold := by
  refine ⟨fun h t found => ?_, fun h t found => ?_, fun q flag => ?_⟩
  · rw [failed.size]
    exact entries.valid h t (failed.thread? h ▸ found)
  · rw [failed.thread? h] at found
    rw [failed.deref, if_neg (entries.creator_ne failed.unspawned found)]
    exact entries.held h t found
  · rw [failed.deref] at flag ⊢
    split
    · next same =>
        rw [if_pos same, failed.unspawned] at flag
        cases flag
    · next other =>
        rw [if_neg other] at flag
        obtain ⟨t, found, creator⟩ := entries.created q flag
        exact ⟨t, (failed.thread? _).trans found, creator⟩

/-- A kill keeps every thread and its creator. -/
theorem KillEffect.thread_to (effect : KillEffect m m') (found : m.system.thread? h = some t) :
    ∃ t', m'.system.thread? h = some t' ∧ t'.creator = t.creator := by
  cases effect with
  | killFailed listed flag failed =>
      refine ⟨t, ?_, rfl⟩
      cases h with
      | zero => cases found
      | succ i => exact found
  | joinFailed | killed =>
      rw [ThreadSystem.thread?_modifyThread, found]
      split
      · exact ⟨_, rfl, rfl⟩
      · exact ⟨t, rfl, rfl⟩

theorem KillEffect.entriesHold (effect : KillEffect m m') (entries : m.EntriesHold) :
    m'.EntriesHold := by
  obtain ⟨objects, _⟩ := effect.objects
  have same : ∀ q, m'.deref q = m.deref q := fun q => by rw [deref, objects, ← deref]
  refine ⟨fun h t found => ?_, fun h t found => ?_, fun q flag => ?_⟩
  · obtain ⟨t', before, creator, _⟩ := effect.thread_of found
    rw [objects, creator]
    exact entries.valid h t' before
  · obtain ⟨t', before, creator, _⟩ := effect.thread_of found
    rw [same, creator]
    exact entries.held h t' before
  · rw [same] at flag ⊢
    obtain ⟨t, before, rfl⟩ := entries.created q flag
    exact effect.thread_to before

theorem Effect.entriesHold (effect : Effect env m m') (wf : m.Wf) (entries : m.EntriesHold) :
    m'.EntriesHold := by
  cases effect with
  | @added eType pRoutine absent =>
      refine ⟨fun h t found => ?_, fun h t found => ?_, fun q flag => ?_⟩
      · rw [Table.size_add]
        exact Nat.lt_succ_of_lt (entries.valid h t found)
      · rw [deref_add_of_lt (entries.valid h t found)]
        exact entries.held h t found
      · rw [deref_add] at flag ⊢
        split
        · next new =>
            rw [if_pos new] at flag
            cases flag
        · next old =>
            rw [if_neg old] at flag
            exact entries.created q flag
  | spawn effect =>
      cases effect with
      | @failed p _ listed failed => exact failed.entriesHold entries
      | @spawned p _ listed spawned => exact spawned.entriesHold (wf.valid p listed) entries
  | kill effect => exact effect.entriesHold entries
  | erased | cleared => exact ⟨entries.valid, entries.held, entries.created⟩

theorem step_entriesHold {op : ManagerOp} (wf : m.Wf) (entries : m.EntriesHold)
    (stepped : step env m op = some m') : m'.EntriesHold :=
  step_invariant (fun _ _ wf entries effect => effect.entriesHold wf entries) wf entries stepped

/-- In every state a run from the empty manager reaches, entries and threads belong
together. -/
theorem run_entriesHold {ops : List ManagerOp} (reached : run (step env) init ops = some m) :
    m.EntriesHold :=
  (run_invariant (P := fun m => m.Wf ∧ m.EntriesHold)
    (fun _ _ _ ⟨wf, entries⟩ stepped => ⟨step_wf wf stepped, step_entriesHold wf entries stepped⟩)
    ⟨wf_init, entriesHold_init⟩ reached).2

end OpenRtp.RtpThreadManager
