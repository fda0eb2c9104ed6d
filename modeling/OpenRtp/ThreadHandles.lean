import OpenRtp.RtpThreadManager

/-!
# The handles `killThread` uses

`RtpThread::spawnThread` creates every thread detached, and `killThread` signals and
joins the handle of a spawned entry.  A detached thread cannot be joined, so the
handles are killable along a run exactly when no `killThread` of the run gets as far
as a pthread call (`handles_killable_iff`).
-/

namespace OpenRtp.RtpThreadManager

variable {env : PthreadEnv} {m m' : RtpThreadManager}

/-- The handle denotes a thread that the entry created joinable and that was not
killed or joined before. -/
def Killable (m : RtpThreadManager) (caller : Nat) (handler : RtpThreadHandler) : Prop :=
  ∃ t, m.system.thread? handler = some t ∧ t.creator = caller ∧
    t.detachstate = .joinable ∧ t.signalled = false ∧ t.joined = false

/-- A call's handle, if it is given one, is killable. -/
def HandleKillable (m : RtpThreadManager) : PthreadCall → Prop
  | .create _ _ _ => True
  | .kill caller handler _ => m.Killable caller handler
  | .join caller handler _ => m.Killable caller handler

/-- The handles of all pthread calls an operation makes are killable before it. -/
def HandlesKillable (env : PthreadEnv) (m : RtpThreadManager) (op : ManagerOp) : Prop :=
  ∀ m', step env m op = some m' →
    ∀ call ∈ m'.system.calls.drop m.system.calls.length, m.HandleKillable call

/-- The operation is not a `killThread` of a type whose entry is marked spawned. -/
def KillsNoSpawned (m : RtpThreadManager) (op : ManagerOp) : Prop :=
  ∀ eType, op = .killThread eType →
    ∀ p, m.getThread eType = some p → (m.deref p).bThreadSpawned = false

/-! ## Every thread is detached -/

def AllDetached (m : RtpThreadManager) : Prop :=
  ∀ h t, m.system.thread? h = some t → t.detachstate = .detached

theorem Effect.allDetached (effect : Effect env m m') (detached : m.AllDetached) :
    m'.AllDetached := by
  intro h t found
  cases effect with
  | added | erased | cleared => exact detached h t found
  | spawn effect =>
      cases effect with
      | failed listed failed => exact detached h t (failed.thread? h ▸ found)
      | spawned listed spawned =>
          rw [spawned.thread? h] at found
          split at found
          · cases found; rfl
          · exact detached h t found
  | kill effect =>
      obtain ⟨t', before, _, same, _⟩ := effect.thread_of found
      exact same.trans (detached h t' before)

/-! ## The calls of one operation -/

/-- Spawning makes `pthread_create` calls only. -/
theorem calls_of_spawnEffects (effects : SpawnEffects env m m') :
    ∃ created, m'.system.calls = m.system.calls ++ created ∧
      ∀ call ∈ created, m.HandleKillable call := by
  refine effects_invariant (P := fun n => ∃ created, n.system.calls = m.system.calls ++ created ∧
    ∀ call ∈ created, m.HandleKillable call) ?_ ⟨[], by simp, by simp⟩ effects
  intro n n' sofar effect
  rcases sofar with ⟨created, calls, killable⟩
  have one : ∃ p val, n'.system.calls = n.system.calls ++ [.create p ⟨.detached⟩ val] := by
    cases effect with
    | failed listed failed => exact ⟨_, _, failed.calls⟩
    | spawned listed spawned => exact ⟨_, _, spawned.calls⟩
  obtain ⟨p, val, calls'⟩ := one
  refine ⟨created ++ [.create p ⟨.detached⟩ val], ?_, fun call member => ?_⟩
  · rw [calls', calls, List.append_assoc]
  · rcases List.mem_append.mp member with old | new
    · exact killable call old
    · rw [List.mem_singleton.mp new]
      trivial

theorem killThread_kills (env : PthreadEnv) {eType : RtpThreadType} {p : Nat}
    (found : m.getThread eType = some p) (flag : (m.deref p).bThreadSpawned = true) :
    ∃ val, .kill p (m.deref p).ulThreadHandler val ∈
      (m.killThread env eType).2.system.calls.drop m.system.calls.length := by
  rcases killThread_cases env m eType with
    ⟨_, unspawned⟩ | ⟨q, here, _, ⟨_, result⟩ | ⟨_, _, result⟩ | ⟨_, result⟩⟩
  · rw [unspawned p found] at flag
    cases flag
  all_goals
    cases found.symm.trans here
    rw [result]
    simp

/-- Among detached threads, an operation uses killable handles only if it uses none. -/
theorem handlesKillable_iff_killsNoSpawned {op : ManagerOp} (wf : m.Wf)
    (detached : m.AllDetached) : HandlesKillable env m op ↔ KillsNoSpawned m op := by
  constructor
  · rintro killable eType rfl p found
    by_contra flag
    obtain ⟨val, made⟩ := killThread_kills env found (eq_true_of_ne_false flag)
    obtain ⟨t, here, _, joinable, _⟩ := killable _ rfl _ made
    rw [detached _ t here] at joinable
    cases joinable
  · intro unspawned m' stepped call made
    have nothing : m'.system.calls = m.system.calls → m.HandleKillable call := fun same => by
      rw [same, List.drop_length] at made
      cases made
    have creates : SpawnEffects env m m' → m.HandleKillable call := fun effects => by
      obtain ⟨created, calls, killable⟩ := calls_of_spawnEffects effects
      rw [calls, List.drop_left] at made
      exact killable call made
    cases op with
    | addThread eType pRoutine =>
        cases stepped
        refine nothing ?_
        unfold addThread
        split <;> rfl
    | getThread eType => cases stepped; exact nothing rfl
    | spawnThread eType => cases stepped; exact creates (spawnThread_effects wf eType)
    | spawnAllThreads =>
        cases stepped
        exact creates (spawnFrom_effects wf fun p member => member)
    | killThread eType =>
        cases stepped
        rcases killThread_cases env m eType with ⟨refused, _⟩ | ⟨p, found, flag, _⟩
        · exact nothing (by rw [refused])
        · rw [unspawned eType rfl p found] at flag
          cases flag
    | killAllThreads => cases stepped; exact nothing rfl
    | cleanThread eType => cases stepped; exact nothing rfl
    | cleanAllThreads =>
        cases stepped
        exact nothing (by rw [cleanAllThreads_eq])

/-- **Handles of `killThread`.**  Along a run from the empty manager every handle given
to `pthread_kill` and `pthread_join` is killable exactly when no `killThread` of the run
meets an entry marked spawned. -/
theorem handles_killable_iff (env : PthreadEnv) (ops : List ManagerOp) :
    Along (step env) (HandlesKillable env) init ops ↔
      Along (step env) KillsNoSpawned init ops := by
  refine along_congr (I := fun m => m.Wf ∧ m.AllDetached) ?_ ?_ ⟨wf_init, ?_⟩
  · intro m op m' inv stepped
    rcases inv with ⟨wf, detached⟩
    exact ⟨step_wf wf stepped,
      step_invariant (fun _ _ _ detached effect => effect.allDetached detached) wf detached
        stepped⟩
  · intro m op inv
    rcases inv with ⟨wf, detached⟩
    exact handlesKillable_iff_killsNoSpawned wf detached
  · intro h t found
    simp [init] at found

/-- The system as it treats detached threads: creating and signalling them succeed,
joining one fails with `EINVAL`. -/
def refusesJoin : PthreadEnv := ⟨fun _ => 0, fun _ => 0, fun _ => 0, fun _ => 22⟩

/-- Adding, spawning and killing one thread signals and joins a thread that was created
detached. -/
theorem killed_thread_detached :
    let ops := [.addThread .main (some 1), .spawnThread .main, .killThread .main]
    (∃ m, run (step refusesJoin) init ops = some m ∧
      m.system.thread? 1 = some ⟨0, some 1, .detached, true, false⟩ ∧
      m.system.calls = [.create 0 ⟨.detached⟩ 0, .kill 0 1 0, .join 0 1 22]) ∧
    ¬ Along (step refusesJoin) (HandlesKillable refusesJoin) init ops := by
  refine ⟨⟨_, rfl, rfl, rfl⟩, fun met => ?_⟩
  have atKill := ((met.2 _ rfl).2 _ rfl).1
  obtain ⟨t, found, _, joinable, _⟩ := atKill _ rfl (.kill 0 1 0) (by decide)
  cases found
  cases joinable

end OpenRtp.RtpThreadManager
