import OpenRtp.ConcurrentManager
import OpenRtp.RunningThreads

/-!
# Threads under concurrent calls

What interleaved calls of the eight operations make of the system's threads.

* `handlesHeld_iff`: a spawned entry holds the handle of a thread of its own, and
  `killThread` signals and joins such threads only, exactly while no `pthread_create` that
  fails is given the handle of an entry that another caller has started.
* `inReach_iff`: the concurrent form of `running_reachable_iff`.  An erased entry is not
  the only way to lose a running thread: the entry may be gone before its thread is made,
  or get a second thread.
-/

namespace OpenRtp

/-! ## Signals and joins -/

namespace ThreadSystem

variable {sys : ThreadSystem} {env : PthreadEnv} {caller : Nat} {g h : RtpThreadHandler}
  {t t' : Pthread}

/-- What a call that marks a thread leaves of the threads. -/
theorem thread?_marked {f : Pthread → Pthread} {calls : List PthreadCall}
    (found : thread? ⟨sys.modifyThread f h, calls⟩ g = some t')
    (creator : ∀ t, (f t).creator = t.creator)
    (joined : ∀ t, (f t).joined = false → t.joined = false) :
    ∃ t, sys.thread? g = some t ∧ t'.creator = t.creator ∧
      (t'.joined = false → t.joined = false) := by
  rw [thread?_modifyThread] at found
  split at found
  · obtain ⟨t, before, rfl⟩ := Option.map_eq_some_iff.mp found
    exact ⟨t, before, creator t, joined t⟩
  · exact ⟨t', found, rfl, id⟩

theorem thread?_pthreadKill (found : (sys.pthreadKill env caller h).2.thread? g = some t') :
    ∃ t, sys.thread? g = some t ∧ t'.creator = t.creator ∧
      (t'.joined = false → t.joined = false) := by
  unfold pthreadKill at found
  dsimp only at found
  split at found
  · exact thread?_marked found (fun _ => rfl) (fun _ => id)
  · exact ⟨t', (thread?_congr rfl).symm.trans found, rfl, id⟩

theorem thread?_pthreadJoin (found : (sys.pthreadJoin env caller h).2.thread? g = some t') :
    ∃ t, sys.thread? g = some t ∧ t'.creator = t.creator ∧
      (t'.joined = false → t.joined = false) := by
  unfold pthreadJoin at found
  dsimp only at found
  split at found
  · exact thread?_marked found (fun _ => rfl) (fun _ unjoined => Bool.noConfusion unjoined)
  · exact ⟨t', (thread?_congr rfl).symm.trans found, rfl, id⟩

theorem creator?_modifyThread {f : Pthread → Pthread} {calls : List PthreadCall}
    (creator : ∀ t, (f t).creator = t.creator) :
    creator? ⟨sys.modifyThread f h, calls⟩ g = sys.creator? g := by
  rw [creator?, creator?, thread?_modifyThread]
  split
  · rw [Option.map_map]
    exact congrArg (Option.map · _) (funext creator)
  · rfl

theorem creator?_pthreadKill : (sys.pthreadKill env caller h).2.creator? g = sys.creator? g := by
  unfold pthreadKill
  dsimp only
  split
  · exact creator?_modifyThread fun _ => rfl
  · exact congrArg (Option.map Pthread.creator) (thread?_congr rfl)

theorem creator?_pthreadJoin : (sys.pthreadJoin env caller h).2.creator? g = sys.creator? g := by
  unfold pthreadJoin
  dsimp only
  split
  · exact creator?_modifyThread fun _ => rfl
  · exact congrArg (Option.map Pthread.creator) (thread?_congr rfl)

end ThreadSystem

namespace ScanState

variable {ι : Type*} [DecidableEq ι] {calls : ι → ListCall} {s s' : ScanState ι} {i : ι} {p : Nat}

theorem Steps.system (h : Steps calls s i s') : s'.manager.system = s.manager.system := by
  cases h <;> rfl

/-- A new object is not spawned. -/
theorem Steps.deref_of_spawned (h : Steps calls s i s')
    (flag : (s'.manager.deref p).bThreadSpawned = true) :
    s'.manager.deref p = s.manager.deref p := by
  cases h with
  | allocate =>
      change (RtpThreadManager.deref _ p).bThreadSpawned = true at flag
      rw [enter, RtpThreadManager.deref_add] at flag ⊢
      split at flag
      · cases flag
      · next old => rw [if_neg old]
  | begin | beginEmpty | size | sizeZero | same | other | next | last | refuse | yield | erase
  | clear | lock | push | unlock => rfl

end ScanState

namespace ManagerState

variable {ι : Type*} [DecidableEq ι] {env : PthreadEnv} {calls : ι → ManagerOp}
  {s s' : ManagerState ι} {i j : ι} {p q : Nat} {h : RtpThreadHandler}

/-- The entry has created a thread, and is marked or about to be. -/
def Started (s : ManagerState ι) (p : Nat) : Prop :=
  (s.manager.deref p).bThreadSpawned = true ∨ ∃ i, s.phase i = .created p

/-- The handle of an entry denotes a thread of that entry. -/
def HoldsOwn (m : RtpThreadManager) (p : Nat) : Prop :=
  m.system.creator? (m.deref p).ulThreadHandler = some p

/-- Started entries hold handles of threads of their own. -/
def HandlesHeld (s : ManagerState ι) : Prop := ∀ p, s.Started p → HoldsOwn s.manager p

/-- A `pthread_create` that fails is not given the handle of a started entry, or leaves
one of that entry's threads in it. -/
def FailsHarmless (env : PthreadEnv) (s : ManagerState ι) (i : ι) : Prop :=
  ∀ p, s.phase i = .creating p → env.create s.manager.system.calls.length ≠ 0 → s.Started p →
    s.manager.system.creator? (env.scribble s.manager.system.calls.length) = some p

/-- Who has started an entry after a step that does not start one. -/
theorem started_enter {m : RtpThreadManager} {after : CallPhase} (other : ∀ q, after ≠ .created q)
    (started : ((s.withManager m).enter i after).Started p) :
    (m.deref p).bThreadSpawned = true ∨ ∃ j, s.phase j = .created p := by
  refine started.imp_right fun made => ?_
  obtain ⟨j, made⟩ := made
  rw [enter_phase] at made
  split at made
  · exact absurd made (other p)
  · exact ⟨j, made⟩

omit [DecidableEq ι] in
/-- Where no entry is started and no handle of a started one is written, handles stay. -/
theorem HandlesHeld.of_quiet (before : s.HandlesHeld)
    (creators : ∀ h, s'.manager.system.creator? h = s.manager.system.creator? h)
    (started : ∀ p, s'.Started p → s.Started p ∧
      (s'.manager.deref p).ulThreadHandler = (s.manager.deref p).ulThreadHandler) :
    s'.HandlesHeld := by
  intro p here
  obtain ⟨started, handle⟩ := started p here
  rw [HoldsOwn, creators, handle]
  exact before p started

omit [DecidableEq ι] in
theorem failsHarmless_of_ne (other : ∀ p, s.phase i ≠ .creating p) : FailsHarmless env s i :=
  fun p creating => absurd creating (other p)

/-- An operation does not start an entry by going on from `getThread` or from the flag. -/
theorem resume_ne_created {op : ManagerOp} {phase : ScanPhase} {after : CallPhase}
    (resumed : op.resume phase = some after) : after ≠ .created q := by
  unfold ManagerOp.resume at resumed
  split at resumed <;> cases resumed <;> simp

theorem checked_ne_created {op : ManagerOp} {flag : Bool} {after : CallPhase}
    (checked : op.checked p flag = some after) : after ≠ .created q := by
  cases op <;> cases flag <;> cases checked <;> simp

theorem spawnedOne_ne_created {op : ManagerOp} : op.spawnedOne p ≠ .created q := by
  unfold ManagerOp.spawnedOne
  split <;> simp

/-- What `pthread_create` makes of the thread a handle denotes. -/
theorem creator?_create (env : PthreadEnv) (m : RtpThreadManager) (p : Nat)
    (denotes : m.system.creator? h = some q) :
    (SpawnState.create env m p).2.system.creator? h = some q := by
  rw [SpawnState.creator?_create, if_neg, denotes]
  rintro ⟨_, rfl⟩
  rw [ThreadSystem.creator?, ThreadSystem.thread?_fresh] at denotes
  cases denotes

/-- A `pthread_create` that fails is harmless exactly when handles are held after it. -/
theorem createFailed_iff
    (stored : SpawnState.HandleStored s.manager p
      (if env.create s.manager.system.calls.length = 0 then s.manager.system.threads.size + 1
        else env.scribble s.manager.system.calls.length) (SpawnState.create env s.manager p).2)
    (here : s.phase i = .creating p) (failed : env.create s.manager.system.calls.length ≠ 0)
    (before : s.HandlesHeld) :
    ((s.withManager (SpawnState.create env s.manager p).2).enter i (.returned .sFail)).HandlesHeld ↔
      FailsHarmless env s i := by
  have creators : ∀ h, (SpawnState.create env s.manager p).2.system.creator? h =
      s.manager.system.creator? h := fun h => by
    rw [SpawnState.creator?_create, if_neg fun both => failed both.1]
  rw [if_neg failed] at stored
  constructor
  · intro after p' creating _ started
    cases here.symm.trans creating
    have own := after p (started.imp (stored.spawned p).trans ?_)
    · rw [HoldsOwn, enter_manager, withManager_manager, creators, stored.deref, if_pos rfl] at own
      exact own
    · rintro ⟨j, made⟩
      refine ⟨j, (enter_phase _ j).trans ((if_neg ?_).trans made)⟩
      rintro rfl
      rw [here] at made
      cases made
  · intro harmless q started
    have started : s.Started q :=
      (started_enter (by simp) started).imp_left (stored.spawned q).symm.trans
    rw [HoldsOwn, enter_manager, withManager_manager, creators, stored.deref]
    split
    · next same => exact same ▸ harmless p here failed (same ▸ started)
    · exact before q started

/-- A new thread's entry holds its handle. -/
theorem HandlesHeld.create
    (stored : SpawnState.HandleStored s.manager p
      (if env.create s.manager.system.calls.length = 0 then s.manager.system.threads.size + 1
        else env.scribble s.manager.system.calls.length) (SpawnState.create env s.manager p).2)
    (created : env.create s.manager.system.calls.length = 0) (before : s.HandlesHeld) :
    ((s.withManager (SpawnState.create env s.manager p).2).enter i (.created p)).HandlesHeld := by
  rw [if_pos created] at stored
  intro q started
  rw [HoldsOwn, enter_manager, withManager_manager, stored.deref]
  split
  · next same => rw [SpawnState.creator?_create, if_pos ⟨created, rfl⟩, same]
  · next other =>
      refine creator?_create env s.manager p (before q ?_)
      refine started.imp (stored.spawned q).symm.trans ?_
      rintro ⟨j, made⟩
      rw [enter_phase] at made
      split at made
      · cases made
        exact absurd rfl other
      · exact ⟨j, made⟩

/-- Marking an entry that was started writes no handle. -/
theorem HandlesHeld.mark {op : ManagerOp} (valid : p < s.manager.objects.size)
    (here : s.phase i = .created p) (before : s.HandlesHeld) :
    ((s.withManager (s.manager.setSpawned p)).enter i (op.spawnedOne p)).HandlesHeld := by
  refine before.of_quiet (fun _ => rfl) fun q started => ⟨?_, SpawnState.handle_marked valid q⟩
  rcases started_enter (fun _ => spawnedOne_ne_created) started with flag | made
  · rw [SpawnState.deref_marked valid q] at flag
    split at flag
    · next same => exact .inr ⟨i, same ▸ here⟩
    · exact .inl flag
  · exact .inr made

/-- A step writes a handle at `pthread_create` only. -/
theorem Steps.handlesHeld_iff_harmless (h : Steps env calls s i s') (inv : Inv calls s)
    (before : s.HandlesHeld) : s'.HandlesHeld ↔ FailsHarmless env s i := by
  have moves : ∀ {after : CallPhase}, (∀ q, after ≠ .created q) → (s.enter i after).HandlesHeld :=
    fun other => before.of_quiet (fun _ => rfl) fun p started => ⟨started_enter other started, rfl⟩
  have valid := inv.valid i
  cases h with
  | @scan phase t here single running moved =>
      refine iff_of_true (before.of_quiet (fun h => ?_) fun p started => ?_)
        (failsHarmless_of_ne (by simp [here]))
      · exact congrArg (ThreadSystem.creator? · h) moved.system
      · rcases started with flag | ⟨j, made⟩
        · have same := moved.deref_of_spawned flag
          exact ⟨.inl (same ▸ flag), congrArg RtpThread.ulThreadHandler same⟩
        · rw [adopt_phase] at made
          split at made
          · cases made
          · exact ⟨.inr ⟨j, made⟩, congrArg RtpThread.ulThreadHandler
              (moved.deref (inv.valid j p (by rw [made]; rfl)))⟩
  | resume here single resumed =>
      exact iff_of_true (moves fun q => resume_ne_created resumed)
        (failsHarmless_of_ne (by simp [here]))
  | check here checked =>
      exact iff_of_true (moves fun q => checked_ne_created checked)
        (failsHarmless_of_ne (by simp [here]))
  | begin here | beginEmpty here | visit here | refuse here | read here | handle here
  | advance here | last here =>
      exact iff_of_true (moves (by simp)) (failsHarmless_of_ne (by simp [here]))
  | createFailed here failed =>
      rw [here] at valid
      exact createFailed_iff (SpawnState.handleStored_create env (valid _ rfl)) here failed before
  | create here created =>
      rw [here] at valid
      have stored := SpawnState.handleStored_create env (valid _ rfl)
      exact iff_of_true (HandlesHeld.create stored created before)
        fun p _ failed => absurd created failed
  | mark here =>
      rw [here] at valid
      exact iff_of_true (before.mark (valid _ rfl) here) (failsHarmless_of_ne (by simp [here]))
  | signal here result =>
      refine iff_of_true (before.of_quiet (fun _ => ThreadSystem.creator?_pthreadKill)
        fun p started => ⟨started_enter ?_ started, rfl⟩) (failsHarmless_of_ne (by simp [here]))
      rcases result with rfl | rfl <;> simp
  | join ret here =>
      exact iff_of_true (before.of_quiet (fun _ => ThreadSystem.creator?_pthreadJoin)
        fun p started => ⟨started_enter (by simp) started, rfl⟩)
        (failsHarmless_of_ne (by simp [here]))

/-! ## What `killThread` signals and joins -/

/-- The handle that a `killThread` is about to signal or to join denotes a thread created
for an entry of its type. -/
def KillsOwn (calls : ι → ManagerOp) (s : ManagerState ι) : Prop :=
  ∀ i p h, s.phase i = .signalling p h ∨ s.phase i = .joining p h →
    s.manager.system.creator? h = some p ∧
      ∃ eType, calls i = .killThread eType ∧ s.manager.typeOf p = eType

/-- What a `killThread` has read. -/
structure KillInv (calls : ι → ManagerOp) (s : ManagerState ι) : Prop where
  flagged : ∀ i p, s.phase i = .spawned p → (s.manager.deref p).bThreadSpawned = true
  own : ∀ i p h, s.phase i = .signalling p h ∨ s.phase i = .joining p h →
    s.manager.system.creator? h = some p
  named : ∀ i p eType, (calls i).listCall = some (.getThread eType) →
    (s.phase i).entry = some p → s.manager.typeOf p = eType

omit [DecidableEq ι] in
theorem killInv_init : KillInv calls init where
  flagged i p here := by cases here
  own i p h here := by rcases here with here | here <;> cases here
  named i p eType call here := by cases here

omit [DecidableEq ι] in
theorem KillInv.killsOwn (kept : KillInv calls s) (inv : Inv calls s) : KillsOwn calls s := by
  intro i p h here
  refine ⟨kept.own i p h here, ?_⟩
  have fits := inv.fits i
  have entry : (s.phase i).entry = some p := by rcases here with here | here <;> rw [here] <;> rfl
  have kills : (calls i).kills = true ∧ (calls i).loops = false := by
    rcases here with here | here <;> rw [here] at fits <;> exact fits
  cases op : calls i <;> rw [op] at kills <;> try cases kills.1
  · exact ⟨_, rfl, kept.named i p _ (by rw [op]; rfl) entry⟩
  · cases kills.2

/-- A thread keeps its creator. -/
theorem Steps.creator? (step : Steps env calls s i s')
    (denotes : s.manager.system.creator? h = some p) :
    s'.manager.system.creator? h = some p := by
  cases step with
  | scan here single running moved =>
      exact (congrArg (ThreadSystem.creator? · h) moved.system).trans denotes
  | createFailed | create => exact creator?_create env s.manager _ denotes
  | signal => exact ThreadSystem.creator?_pthreadKill.trans denotes
  | join => exact ThreadSystem.creator?_pthreadJoin.trans denotes
  | resume | begin | beginEmpty | visit | check | refuse | read | mark | handle | advance
  | last => exact denotes

/-- A flag is never cleared. -/
theorem Steps.flag (step : Steps env calls s i s') (inv : Inv calls s)
    (valid : q < s.manager.objects.size) (flag : (s.manager.deref q).bThreadSpawned = true) :
    (s'.manager.deref q).bThreadSpawned = true := by
  have entries := inv.valid i
  cases step with
  | scan here single running moved =>
      exact (congrArg RtpThread.bThreadSpawned (moved.deref valid)).trans flag
  | createFailed here | create here =>
      rw [here] at entries
      exact ((SpawnState.handleStored_create env (entries _ rfl)).spawned q).trans flag
  | mark here =>
      rw [here] at entries
      rw [enter_manager, withManager_manager, SpawnState.deref_marked (entries _ rfl)]
      split
      · rfl
      · exact flag
  | resume | begin | beginEmpty | visit | check | refuse | read | handle | signal | join
  | advance | last => exact flag

theorem Steps.typeOf (step : Steps env calls s i s') (inv : Inv calls s)
    (valid : q < s.manager.objects.size) : s'.manager.typeOf q = s.manager.typeOf q := by
  rcases step.on_list inv with ⟨t, _, moved, rfl⟩ | ⟨same, _⟩
  · exact congrArg RtpThread.eThreadType (moved.deref valid)
  · exact same.typeOf q

/-- Only `killThread` goes on to read the handle, once it has read the flag as set. -/
theorem checked_spawned {op : ManagerOp} {flag : Bool}
    (checked : op.checked p flag = some (.spawned q)) : flag = true ∧ q = p := by
  cases op <;> cases flag <;> cases checked
  exact ⟨rfl, rfl⟩

/-- A caller that is about to read a handle has just read the flag. -/
theorem Steps.spawned_cases (step : Steps env calls s i s') (here : s'.phase i = .spawned p) :
    s.phase i = .checking p ∧ (s.manager.deref p).bThreadSpawned = true := by
  cases step with
  | scan =>
      rw [adopt_phase, if_pos rfl] at here
      cases here
  | resume _ _ resumed =>
      rw [enter_phase, if_pos rfl] at here
      subst here
      unfold ManagerOp.resume at resumed
      split at resumed <;> cases resumed
  | check phase checked =>
      rw [enter_phase, if_pos rfl] at here
      subst here
      obtain ⟨flag, rfl⟩ := checked_spawned checked
      exact ⟨phase, flag⟩
  | mark =>
      rw [enter_phase, if_pos rfl, ManagerOp.spawnedOne] at here
      split at here <;> cases here
  | signal _ result =>
      rw [enter_phase, if_pos rfl] at here
      rcases result with rfl | rfl <;> cases here
  | begin | beginEmpty | visit | refuse | read | createFailed | create | handle | join
  | advance | last =>
      rw [enter_phase, if_pos rfl] at here
      cases here

theorem resume_ne_kill {op : ManagerOp} {phase : ScanPhase} {after : CallPhase}
    (resumed : op.resume phase = some after) : after ≠ .signalling q h ∧ after ≠ .joining q h := by
  unfold ManagerOp.resume at resumed
  split at resumed <;> cases resumed <;> simp

theorem checked_ne_kill {op : ManagerOp} {flag : Bool} {after : CallPhase}
    (checked : op.checked p flag = some after) :
    after ≠ .signalling q h ∧ after ≠ .joining q h := by
  cases op <;> cases flag <;> cases checked <;> simp

/-- A caller that is about to signal or to join has just read the handle, or had it. -/
theorem Steps.handle_cases (step : Steps env calls s i s')
    (here : s'.phase i = .signalling p h ∨ s'.phase i = .joining p h) :
    (s.phase i = .spawned p ∧ h = (s.manager.deref p).ulThreadHandler) ∨
      s.phase i = .signalling p h := by
  cases step with
  | scan => rw [adopt_phase, if_pos rfl] at here; rcases here with here | here <;> cases here
  | resume _ _ resumed =>
      rw [enter_phase, if_pos rfl] at here
      obtain ⟨signals, joins⟩ := resume_ne_kill resumed
      exact (here.elim signals joins).elim
  | check _ checked =>
      rw [enter_phase, if_pos rfl] at here
      obtain ⟨signals, joins⟩ := checked_ne_kill checked
      exact (here.elim signals joins).elim
  | mark =>
      rw [enter_phase, if_pos rfl, ManagerOp.spawnedOne] at here
      split at here <;> rcases here with here | here <;> cases here
  | handle phase =>
      rw [enter_phase, if_pos rfl] at here
      rcases here with here | here
      · cases here
        exact .inl ⟨phase, rfl⟩
      · cases here
  | signal phase result =>
      rw [enter_phase, if_pos rfl] at here
      rcases result with rfl | rfl <;> rcases here with here | here <;> cases here
      exact .inr phase
  | begin | beginEmpty | visit | refuse | read | createFailed | create | join | advance | last =>
      rw [enter_phase, if_pos rfl] at here
      rcases here with here | here <;> cases here

/-- The entry that `getThread` returns is of the type it was called for. -/
theorem found_named {t : ScanState ι} {eType : RtpThreadType}
    (moved : ScanState.Steps (listCalls calls) s.scan i t) (inv : Inv calls s)
    (call : (calls i).listCall = some (.getThread eType))
    (found : t.phase i = .returned (.thread (some p))) : s.manager.typeOf p = eType := by
  have holds := inv.scan.holds i
  have searched : listCalls calls i = .getThread eType := by rw [listCalls, call]; rfl
  cases moved with
  | yield phase =>
      rw [ScanState.enter_phase, if_pos rfl] at found
      cases found
      rw [phase] at holds
      obtain ⟨eType', standing, same⟩ := holds
      have sought := standing.sought
      rw [searched] at sought
      cases sought
      exact same
  | beginEmpty | last =>
      rw [ScanState.enter_phase, if_pos rfl, searched] at found
      cases found
  | begin | size | sizeZero | same | other | next | refuse | erase | clear | allocate | lock
  | push | unlock =>
      rw [ScanState.enter_phase, if_pos rfl] at found
      cases found

theorem Steps.killInv (step : Steps env calls s i s') (inv : Inv calls s)
    (held : s.HandlesHeld) (kept : KillInv calls s) : KillInv calls s' where
  flagged j p here := by
    rcases eq_or_ne j i with rfl | other
    · obtain ⟨phase, flag⟩ := step.spawned_cases here
      exact step.flag inv (inv.valid j p (by rw [phase]; rfl)) flag
    · rw [step.phase_of_ne other] at here
      exact step.flag inv (inv.valid j p (by rw [here]; rfl)) (kept.flagged j p here)
  own j p h here := by
    rcases eq_or_ne j i with rfl | other
    · rcases step.handle_cases here with ⟨phase, rfl⟩ | phase
      · exact step.creator? (held p (.inl (kept.flagged j p phase)))
      · exact step.creator? (kept.own j p h (.inl phase))
    · rw [step.phase_of_ne other] at here
      exact step.creator? (kept.own j p h here)
  named j p eType call entry := by
    rcases eq_or_ne j i with rfl | other
    · rcases step.entry_cases inv entry with before | ⟨loops, _⟩ | ⟨t, _, moved, rfl, found⟩
      · rw [step.typeOf inv (inv.valid j p before)]
        exact kept.named j p eType call before
      · rw [ManagerOp.listCall_eq_none loops] at call
        cases call
      · have member := moved.found_mem found
        rw [step.typeOf inv (inv.scan.valid p member)]
        exact found_named moved inv call found
    · rw [step.phase_of_ne other] at entry
      rw [step.typeOf inv (inv.valid j p entry)]
      exact kept.named j p eType call entry

/-- **Handles under concurrent calls.**  On a system that gives out no handle twice, every
started entry holds the handle of a thread of its own throughout a run exactly when every
`pthread_create` that fails is harmless.  Then each handle that a `killThread` signals and
joins denotes a thread that was created for an entry of the type it was called for. -/
theorem handlesHeld_iff {sched : List ι} (reached : run (step env calls) init sched = some s) :
    (Always (step env calls) HandlesHeld init sched ↔
      Along (step env calls) (FailsHarmless env) init sched) ∧
    (Along (step env calls) (FailsHarmless env) init sched →
      Always (step env calls) (KillsOwn calls) init sched) := by
  have start : HandlesHeld (init : ManagerState ι) := by
    rintro p (flag | ⟨i, made⟩)
    · cases flag
    · cases made
  refine ⟨⟨?_, ?_⟩, ?_⟩
  · refine along_of_always step_inv (fun s i t inv before h after => ?_) inv_init reached
    exact ((Steps.of_step h).handlesHeld_iff_harmless inv before).mp after
  · exact always_of_along (Q := fun s => Inv calls s ∧ HandlesHeld s)
      (fun s i t kept harmless h => ⟨step_inv s i t kept.1 h,
        ((Steps.of_step h).handlesHeld_iff_harmless kept.1 kept.2).mpr harmless⟩)
      (fun s kept => kept.2) ⟨inv_init, start⟩
  · exact always_of_along (Q := fun s => Inv calls s ∧ HandlesHeld s ∧ KillInv calls s)
      (fun s i t kept harmless h => ⟨step_inv s i t kept.1 h,
        ((Steps.of_step h).handlesHeld_iff_harmless kept.1 kept.2.1).mpr harmless,
        (Steps.of_step h).killInv kept.1 kept.2.1 kept.2.2⟩)
      (fun s kept => kept.2.2.killsOwn kept.1) ⟨inv_init, start, killInv_init⟩

/-- A registration, two spawns of it, and a kill. -/
def twoSpawns : Fin 4 → ManagerOp :=
  ![.addThread .main (some 1), .spawnThread .main, .spawnThread .main, .killThread .main]

/-- Both callers start the entry, and the kill is of the thread started last. -/
theorem startedTwice_killed :
    ∃ s, run (step .succeeding twoSpawns) init
        [0, 0, 0, 0, 0, 1, 1, 1, 1, 1, 1, 2, 2, 2, 2, 2, 2, 1, 1, 2, 2, 3, 3, 3, 3, 3, 3] = some s ∧
      s.phase 3 = .signalling 0 2 ∧ Always (step .succeeding twoSpawns) (KillsOwn twoSpawns) init
        [0, 0, 0, 0, 0, 1, 1, 1, 1, 1, 1, 2, 2, 2, 2, 2, 2, 1, 1, 2, 2, 3, 3, 3, 3, 3, 3] := by
  obtain ⟨s, reached, phase⟩ : ∃ s, run (step .succeeding twoSpawns) init
      [0, 0, 0, 0, 0, 1, 1, 1, 1, 1, 1, 2, 2, 2, 2, 2, 2, 1, 1, 2, 2, 3, 3, 3, 3, 3, 3] = some s ∧
        s.phase 3 = .signalling 0 2 := ⟨_, rfl, rfl⟩
  refine ⟨s, reached, phase, (handlesHeld_iff reached).2 ?_⟩
  -- no `pthread_create` fails
  exact (along_trivial _ _).imp fun _ _ _ _ _ failed => absurd rfl failed

/-- The system creates the first thread it is asked for, and nothing after it. -/
def oneThread : PthreadEnv :=
  ⟨fun n => if n = 0 then 0 else 11, fun _ => 0, fun _ => 0, fun _ => 22⟩

/-- Where the second `pthread_create` fails, the kill is of what that one left behind. -/
example : ∃ s, run (step oneThread twoSpawns) init
      [0, 0, 0, 0, 0, 1, 1, 1, 1, 1, 1, 2, 2, 2, 2, 2, 2, 1, 1, 2, 3, 3, 3, 3, 3, 3] = some s ∧
    s.phase 3 = .signalling 0 0 ∧ s.manager.system.creator? 1 = some 0 ∧
    s.manager.system.creator? 0 = none :=
  ⟨_, rfl, rfl, rfl, rfl⟩

/-! ## Running threads -/

/-- At most one thread of each type runs, and its entry is listed and holds its handle. -/
structure InReach (m : RtpThreadManager) : Prop where
  unique : ∀ h t h' t', m.Running h t → m.Running h' t' →
    m.typeOfThread t = m.typeOfThread t' → h = h'
  held : ∀ h t, m.Running h t →
    t.creator ∈ m.listThreadList ∧ (m.deref t.creator).ulThreadHandler = h

/-- The step of `i` loses no running thread. -/
structure KeepsReach (env : PthreadEnv) (calls : ι → ManagerOp) (s : ManagerState ι) (i : ι) :
    Prop where
  /-- It erases no entry whose thread runs. -/
  erases : ∀ h t, s.manager.Running h t → t.creator ∉ s.scan.erased (listCalls calls) i
  /-- It creates a thread for a listed entry, and none of its type runs. -/
  creates : ∀ p, s.phase i = .creating p → env.create s.manager.system.calls.length = 0 →
    p ∈ s.manager.listThreadList ∧
      ∀ h t, s.manager.Running h t → s.manager.typeOfThread t ≠ s.manager.typeOf p
  /-- It fails to create one for an entry whose thread does not run, or leaves its handle. -/
  fails : ∀ p, s.phase i = .creating p → env.create s.manager.system.calls.length ≠ 0 →
    ∀ h t, s.manager.Running h t → t.creator = p →
      env.scribble s.manager.system.calls.length = h

/-- The threads have entries. -/
def CreatorsValid (m : RtpThreadManager) : Prop :=
  ∀ h t, m.system.thread? h = some t → t.creator < m.objects.size

/-- What `pthread_create` adds to the table of threads. -/
theorem thread?_create (env : PthreadEnv) (m : RtpThreadManager) (p : Nat)
    (h : RtpThreadHandler) :
    (SpawnState.create env m p).2.system.thread? h =
      if env.create m.system.calls.length = 0 ∧ h = m.system.threads.size + 1 then
        some ⟨p, (m.deref p).pThreadRoutine, .detached, false, false⟩
      else m.system.thread? h := by
  unfold SpawnState.create ThreadSystem.pthreadCreate
  dsimp only
  split
  · next created =>
      rw [RtpThreadManager.setHandler, ThreadSystem.thread?_add]
      split
      · next fresh => rw [if_pos ⟨created, fresh⟩]; rfl
      · next old => rw [if_neg fun both => old both.2]
  · next failed =>
      rw [if_neg fun both => failed both.1]
      exact ThreadSystem.thread?_congr rfl

/-- A thread after a step was there before it, or has just been created. -/
theorem Steps.thread_cases {t : Pthread} (step : Steps env calls s i s')
    (found : s'.manager.system.thread? h = some t) :
    (∃ t', s.manager.system.thread? h = some t' ∧ t.creator = t'.creator ∧
      (t.joined = false → t'.joined = false)) ∨
    ∃ p, s.phase i = .creating p ∧ env.create s.manager.system.calls.length = 0 ∧
      h = s.manager.system.threads.size + 1 ∧ t.creator = p := by
  cases step with
  | scan here single running moved =>
      refine .inl ⟨t, ?_, rfl, id⟩
      exact (congrArg (ThreadSystem.thread? · h) moved.system).symm.trans found
  | createFailed here failed =>
      rw [enter_manager, withManager_manager, thread?_create, if_neg fun both => failed both.1]
        at found
      exact .inl ⟨t, found, rfl, id⟩
  | create here created =>
      rw [enter_manager, withManager_manager, thread?_create] at found
      split at found
      · next fresh =>
          cases found
          exact .inr ⟨_, here, created, fresh.2, rfl⟩
      · exact .inl ⟨t, found, rfl, id⟩
  | signal => exact .inl (ThreadSystem.thread?_pthreadKill found)
  | join => exact .inl (ThreadSystem.thread?_pthreadJoin found)
  | resume | begin | beginEmpty | visit | check | refuse | read | mark | handle | advance
  | last => exact .inl ⟨t, found, rfl, id⟩

theorem Steps.creatorsValid (step : Steps env calls s i s') (inv : Inv calls s)
    (valid : CreatorsValid s.manager) : CreatorsValid s'.manager := by
  have grows : s.manager.objects.size ≤ s'.manager.objects.size := by
    rcases step.on_list inv with ⟨t, _, moved, rfl⟩ | ⟨same, _⟩
    · exact moved.size_le
    · exact same.size.ge
  intro h t found
  rcases step.thread_cases found with ⟨t', before, creator, _⟩ | ⟨p, here, _, _, creator⟩
  · rw [creator]
    exact (valid h t' before).trans_le grows
  · rw [creator]
    exact (inv.valid i p (by rw [here]; rfl)).trans_le grows

/-- What `pthread_create` does, whether it succeeds or not. -/
theorem Steps.of_creating (step : Steps env calls s i s') (here : s.phase i = .creating p) :
    s'.manager = (SpawnState.create env s.manager p).2 := by
  cases step with
  | createFailed phase | create phase =>
      cases here.symm.trans phase
      rfl
  | scan phase | resume phase | begin phase | beginEmpty phase | visit phase | check phase
  | refuse phase | read phase | mark phase | handle phase | signal phase | join _ phase
  | advance phase | last phase => cases here.symm.trans phase

/-- No other step writes a handle. -/
theorem Steps.handler (step : Steps env calls s i s') (inv : Inv calls s)
    (valid : q < s.manager.objects.size) (other : s.phase i ≠ .creating q) :
    (s'.manager.deref q).ulThreadHandler = (s.manager.deref q).ulThreadHandler := by
  have entries := inv.valid i
  cases step with
  | scan here single running moved =>
      exact congrArg RtpThread.ulThreadHandler (moved.deref valid)
  | createFailed here | create here =>
      rw [here] at entries other
      have apart : q ≠ _ := fun same => other (congrArg CallPhase.creating same.symm)
      have stored := SpawnState.handleStored_create env (entries _ rfl)
      exact congrArg RtpThread.ulThreadHandler ((stored.deref q).trans (if_neg apart))
  | mark here =>
      rw [here] at entries
      exact SpawnState.handle_marked (entries _ rfl) q
  | resume | begin | beginEmpty | visit | check | refuse | read | handle | signal | join
  | advance | last => rfl

theorem typeOfThread_eq (step : Steps env calls s i s') (inv : Inv calls s) {t t' : Pthread}
    (valid : t'.creator < s.manager.objects.size) (creator : t.creator = t'.creator) :
    s'.manager.typeOfThread t = s.manager.typeOfThread t' := by
  rw [RtpThreadManager.typeOfThread, RtpThreadManager.typeOfThread, creator]
  exact step.typeOf inv valid

/-- A step that keeps all running threads in reach loses none. -/
theorem Steps.keepsReach (step : Steps env calls s i s') (inv : Inv calls s)
    (valid : CreatorsValid s.manager) (before : InReach s.manager) (after : InReach s'.manager) :
    KeepsReach env calls s i where
  erases h t running erased := by
    rcases step.on_list inv with ⟨u, _, moved, rfl⟩ | ⟨_, _, quiet⟩
    · have still : (s.adopt i u).manager.Running h t :=
        ⟨(congrArg (ThreadSystem.thread? · h) moved.system).trans running.created,
          running.unjoined⟩
      rcases (step.mem_list_iff inv _).mp (after.held h t still).1 with kept | locked
      · exact kept.2 erased
      · have unlisted : (s.phase i).onList.unlisted = some t.creator := by rw [locked]; rfl
        exact ((inv.scan.holds i).made unlisted).unlisted (before.held h t running).1
    · have phase : s.scan.phase i = (s.phase i).onList := rfl
      rw [ScanState.erased, phase] at erased
      rcases quiet with quiet | ⟨found, quiet⟩ <;> rw [quiet] at erased <;> simp at erased
  creates p here created := by
    have manager := step.of_creating here
    have same : SameEntries s.manager s'.manager :=
      manager ▸ .create env (inv.valid i p (by rw [here]; rfl))
    have found : ∀ h, s'.manager.system.thread? h =
        if h = s.manager.system.threads.size + 1 then
          some ⟨p, (s.manager.deref p).pThreadRoutine, .detached, false, false⟩
        else s.manager.system.thread? h := fun h => by
      rw [manager, thread?_create]
      simp only [created, true_and]
    have fresh : s'.manager.Running (s.manager.system.threads.size + 1)
        ⟨p, (s.manager.deref p).pThreadRoutine, .detached, false, false⟩ :=
      ⟨(found _).trans (if_pos rfl), rfl⟩
    refine ⟨same.list ▸ (after.held _ _ fresh).1, fun h t running type => ?_⟩
    have other : h ≠ s.manager.system.threads.size + 1 := by
      rintro rfl
      have nothing := running.created
      rw [ThreadSystem.thread?_fresh] at nothing
      cases nothing
    have still : s'.manager.Running h t :=
      ⟨(found h).trans ((if_neg other).trans running.created), running.unjoined⟩
    refine other (after.unique h t _ _ still fresh ?_)
    rw [typeOfThread_eq step inv (valid h t running.created) rfl, type]
    exact (same.typeOf p).symm
  fails p here failed h t running own := by
    have manager := step.of_creating here
    have still : s'.manager.Running h t := by
      refine ⟨?_, running.unjoined⟩
      rw [manager, thread?_create, if_neg fun both => failed both.1]
      exact running.created
    have stored := SpawnState.handleStored_create env (inv.valid i p (by rw [here]; rfl))
    have handle := (after.held h t still).2
    rw [manager, stored.deref, own, if_pos rfl, if_neg failed] at handle
    exact handle

/-- And a step that loses none keeps them all in reach. -/
theorem KeepsReach.inReach (keeps : KeepsReach env calls s i) (step : Steps env calls s i s')
    (inv : Inv calls s) (valid : CreatorsValid s.manager) (before : InReach s.manager) :
    InReach s'.manager where
  unique h t h' t' running running' same := by
    have fresh : ∀ {t : Pthread} {p}, s.phase i = .creating p → t.creator = p →
        s'.manager.typeOfThread t = s.manager.typeOf p := fun {t p} here creator => by
      rw [RtpThreadManager.typeOfThread, creator]
      exact step.typeOf inv (inv.valid i p (by rw [here]; rfl))
    rcases step.thread_cases running.created with
      ⟨u, old, creator, joined⟩ | ⟨p, here, created, rfl, creator⟩
    · rw [typeOfThread_eq step inv (valid h u old) creator] at same
      have ran : s.manager.Running h u := ⟨old, joined running.unjoined⟩
      rcases step.thread_cases running'.created with
        ⟨u', old', creator', joined'⟩ | ⟨p, here, created, rfl, creator'⟩
      · rw [typeOfThread_eq step inv (valid h' u' old') creator'] at same
        exact before.unique h u h' u' ran ⟨old', joined' running'.unjoined⟩ same
      · rw [fresh here creator'] at same
        exact absurd same ((keeps.creates p here created).2 h u ran)
    · rw [fresh here creator] at same
      rcases step.thread_cases running'.created with
        ⟨u', old', creator', joined'⟩ | ⟨_, _, _, rfl, _⟩
      · rw [typeOfThread_eq step inv (valid h' u' old') creator'] at same
        have ran : s.manager.Running h' u' := ⟨old', joined' running'.unjoined⟩
        exact absurd same.symm ((keeps.creates p here created).2 h' u' ran)
      · rfl
  held h t running := by
    rcases step.thread_cases running.created with
      ⟨u, old, creator, joined⟩ | ⟨p, here, created, rfl, creator⟩
    · have ran : s.manager.Running h u := ⟨old, joined running.unjoined⟩
      obtain ⟨member, handle⟩ := before.held h u ran
      rw [creator]
      refine ⟨(step.mem_list_iff inv _).mpr (.inl ⟨member, keeps.erases h u ran⟩), ?_⟩
      by_cases here : s.phase i = .creating u.creator
      · have failed : env.create s.manager.system.calls.length ≠ 0 := fun created =>
          (keeps.creates _ here created).2 h u ran rfl
        have stored := SpawnState.handleStored_create env (valid h u old)
        rw [step.of_creating here, stored.deref, if_pos rfl, if_neg failed]
        exact keeps.fails _ here failed h u ran rfl
      · rw [step.handler inv (valid h u old) here, handle]
    · have entry : p < s.manager.objects.size := inv.valid i p (by rw [here]; rfl)
      have stored := SpawnState.handleStored_create env entry
      rw [creator, step.of_creating here, stored.list, stored.deref, if_pos rfl, if_pos created]
      exact ⟨(keeps.creates p here created).1, rfl⟩

/-- **Running threads under concurrent calls.**  In every state of a run each type has at
most one running thread, whose entry is listed and holds its handle, exactly when no step
loses a running thread: none erases an entry whose thread runs, creates a thread for an
entry that is no longer listed or whose type has a running thread, or overwrites the handle
of a running thread with that of a failed creation. -/
theorem inReach_iff {sched : List ι} (reached : run (step env calls) init sched = some s) :
    Always (step env calls) (fun s => InReach s.manager) init sched ↔
      Along (step env calls) (KeepsReach env calls) init sched := by
  have nothing : ∀ h, (init : ManagerState ι).manager.system.thread? h = none :=
    fun _ => ThreadSystem.thread?_init
  have valid : CreatorsValid (init : ManagerState ι).manager := fun h t found => by
    rw [nothing] at found
    cases found
  have start : InReach (init : ManagerState ι).manager := by
    constructor
    · intro h t _ _ running
      have found := running.created
      rw [nothing] at found
      cases found
    · intro h t running
      have found := running.created
      rw [nothing] at found
      cases found
  have preserved : ∀ s i t, (Inv calls s ∧ CreatorsValid s.manager) → step env calls s i = some t →
      Inv calls t ∧ CreatorsValid t.manager := fun s i t kept h =>
    ⟨step_inv s i t kept.1 h, (Steps.of_step h).creatorsValid kept.1 kept.2⟩
  constructor
  · exact along_of_always preserved
      (fun s i t kept before h after => (Steps.of_step h).keepsReach kept.1 kept.2 before after)
      ⟨inv_init, valid⟩ reached
  · exact always_of_along
      (Q := fun s => (Inv calls s ∧ CreatorsValid s.manager) ∧ InReach s.manager)
      (fun s i t kept keeps h => ⟨preserved s i t kept.1 h,
        keeps.inReach (.of_step h) kept.1.1 kept.1.2 kept.2⟩)
      (fun s kept => kept.2) ⟨⟨inv_init, valid⟩, start⟩

/-- A registration, a spawn of it, and an erasing of it. -/
def spawnAndClean : Fin 3 → ManagerOp :=
  ![.addThread .main (some 1), .spawnThread .main, .cleanThread .main]

/-- The entry is erased when the spawn has found it, and its thread runs out of reach. -/
theorem startedAfterErasing_lost :
    ∃ s, run (step .succeeding spawnAndClean) init
        [0, 0, 0, 0, 0, 1, 1, 1, 1, 1, 1, 2, 2, 2, 1, 1] = some s ∧
      s.phase 1 = .returned .sOk ∧
      ¬ Always (step .succeeding spawnAndClean) (fun s => InReach s.manager) init
        [0, 0, 0, 0, 0, 1, 1, 1, 1, 1, 1, 2, 2, 2, 1, 1] := by
  obtain ⟨s, reached, phase⟩ : ∃ s, run (step .succeeding spawnAndClean) init
      [0, 0, 0, 0, 0, 1, 1, 1, 1, 1, 1, 2, 2, 2, 1, 1] = some s ∧
        s.phase 1 = .returned .sOk := ⟨_, rfl, rfl⟩
  refine ⟨s, reached, phase, fun kept => ?_⟩
  have keeps := ((inReach_iff reached).mp kept).at_append
    [0, 0, 0, 0, 0, 1, 1, 1, 1, 1, 1, 2, 2, 2] rfl
  have member := (keeps.creates 0 rfl rfl).1
  cases member

end ManagerState

end OpenRtp
