import OpenRtp.ManagerProgress

/-!
# Calls that nobody interrupts

The steps of `ManagerState.step`, taken by one caller in a row, are the sequential
operation of `RtpThreadManager.step`: the same manager, with the same threads of the system,
and the same result (`operation_alone`).  That holds from whatever state the other callers
have been stopped in.  A search is walked entry by entry in `Searches.compare`, a loop in
`Iterates.visit`.
-/

namespace OpenRtp

theorem ManagerOp.resume_eq_none {op : ManagerOp} {phase : ScanPhase}
    (running : phase.isReturned = false) : op.resume phase = none := by
  unfold ManagerOp.resume
  split <;> first | rfl | cases running

namespace ManagerState

variable {ι : Type*} [DecidableEq ι] {env : PthreadEnv} {calls : ι → ManagerOp}
  {s s' : ManagerState ι} {i : ι} {p : Nat} {m m₀ : RtpThreadManager} {last : CallPhase}
  {eType : RtpThreadType} {phase : ι → CallPhase}

/-- `i` alone takes the callers from `s` to a state with this manager and this phase, in
which nobody has the mutex. -/
def Leads (env : PthreadEnv) (calls : ι → ManagerOp) (s : ManagerState ι) (i : ι)
    (m : RtpThreadManager) (last : CallPhase) : Prop :=
  ∃ n t, run (step env calls) s (List.replicate n i) = some t ∧
    t.manager = m ∧ t.mutex = none ∧ t.phase i = last

theorem Leads.done (here : phase i = last) : Leads env calls ⟨m, none, phase⟩ i m last :=
  ⟨0, _, rfl, rfl, rfl, here⟩

theorem Leads.step (stepped : ManagerState.step env calls s i = some s')
    (rest : Leads env calls s' i m last) : Leads env calls s i m last := by
  obtain ⟨n, t, reached, result⟩ := rest
  exact ⟨n + 1, t, run_cons_iff.mpr ⟨s', stepped, reached⟩, result⟩

/-- A step that leaves the list alone. -/
theorem Leads.enter (m₀ : RtpThreadManager) (after : CallPhase)
    (stepped : ManagerState.step env calls s i = some ((s.withManager m₀).enter i after))
    (rest : ∀ phase : ι → CallPhase, phase i = after →
      Leads env calls ⟨m₀, s.mutex, phase⟩ i m last) : Leads env calls s i m last :=
  .step stepped (rest _ ((enter_phase after i).trans (if_pos rfl)))

/-- A step on the list. -/
theorem Leads.scan {scanning after : ScanPhase} {u : ScanState ι}
    (single : (calls i).loops = false) (here : s.phase i = .scan scanning)
    (running : scanning.isReturned = false)
    (stepped : ScanState.step (listCalls calls) s.scan i = some (u.enter i after))
    (rest : ∀ phase : ι → CallPhase, phase i = .scan after →
      Leads env calls ⟨u.manager, u.mutex, phase⟩ i m last) : Leads env calls s i m last := by
  have adopted : ManagerState.step env calls s i = some (s.adopt i (u.enter i after)) := by
    rw [ManagerState.step, here]
    dsimp only
    rw [single, if_neg Bool.false_ne_true, ManagerOp.resume_eq_none running, stepped]
    rfl
  refine .step adopted (rest _ ((Function.update_self ..).trans ?_))
  rw [ScanState.enter_phase, if_pos rfl]

/-! ## Calls on the list -/

/-- What a search that nobody interrupts comes to. -/
structure Searches (env : PthreadEnv) (calls : ι → ManagerOp) (i : ι) (m₀ : RtpThreadManager)
    (eType : RtpThreadType) (m : RtpThreadManager) (last : CallPhase) : Prop where
  found : ∀ q ∈ m₀.listThreadList, m₀.getThread eType = some q →
    Keyed.erase m₀.typeOf m₀.listThreadList eType = m₀.listThreadList.erase q →
    ∀ phase : ι → CallPhase, phase i = .scan (.found q) →
      Leads env calls ⟨m₀, none, phase⟩ i m last
  missed : m₀.getThread eType = none →
    ∀ phase : ι → CallPhase, phase i = .scan (listCalls calls i).missed →
      Leads env calls ⟨m₀, none, phase⟩ i m last

/-- A search from the entry it stands at. -/
theorem Searches.compare (searches : Searches env calls i m₀ eType m last)
    (single : (calls i).loops = false) (sought : (listCalls calls i).sought = some eType)
    (nodup : m₀.listThreadList.Nodup) (member : p ∈ m₀.listThreadList)
    (passed : Cursor.Passed m₀.typeOf m₀.listThreadList eType p)
    (here : phase i = .scan (.comparing p)) : Leads env calls ⟨m₀, none, phase⟩ i m last := by
  induction behind : Cursor.after m₀.listThreadList p using Nat.strongRecOn
    generalizing phase p with
  | ind n ih =>
      by_cases same : m₀.typeOf p = eType
      · have stepped : ScanState.step (listCalls calls) (scan ⟨m₀, none, phase⟩) i =
            some ((scan ⟨m₀, none, phase⟩).enter i (.found p)) := by
          simp [ScanState.step, scan, here, CallPhase.onList, member, sought, same]
        exact .scan single here rfl stepped
          (searches.found p member (passed.find_eq member same) (passed.erase_eq member same))
      · have stepped : ScanState.step (listCalls calls) (scan ⟨m₀, none, phase⟩) i =
            some ((scan ⟨m₀, none, phase⟩).enter i (.advancing p)) := by
          simp [ScanState.step, scan, here, CallPhase.onList, member, sought, Ne.symm same]
        refine .scan single here rfl stepped fun phase here => ?_
        cases next : Cursor.next? m₀.listThreadList p with
        | none =>
            have stepped : ScanState.step (listCalls calls) (scan ⟨m₀, none, phase⟩) i =
                some ((scan ⟨m₀, none, phase⟩).enter i (listCalls calls i).missed) := by
              simp [ScanState.step, scan, here, CallPhase.onList, member, next]
            exact .scan single here rfl stepped
              (searches.missed (passed.find_eq_none member same next))
        | some q =>
            have stepped : ScanState.step (listCalls calls) (scan ⟨m₀, none, phase⟩) i =
                some ((scan ⟨m₀, none, phase⟩).enter i (.comparing q)) := by
              simp [ScanState.step, scan, here, CallPhase.onList, member, next]
            obtain ⟨inside, passed⟩ := passed.next nodup member same next
            have fewer := Cursor.after_next nodup member next
            exact .scan single here rfl stepped fun phase here =>
              ih (Cursor.after m₀.listThreadList q) (by omega) inside passed here rfl

/-- A search from its beginning. -/
theorem Searches.begin (searches : Searches env calls i m₀ eType m last)
    (single : (calls i).loops = false) (sought : (listCalls calls i).sought = some eType)
    (nodup : m₀.listThreadList.Nodup) (here : phase i = .scan .called) :
    Leads env calls ⟨m₀, none, phase⟩ i m last := by
  cases listed : m₀.listThreadList with
  | nil =>
      have stepped : ScanState.step (listCalls calls) (scan ⟨m₀, none, phase⟩) i =
          some ((scan ⟨m₀, none, phase⟩).enter i (listCalls calls i).missed) := by
        simp [ScanState.step, scan, here, CallPhase.onList, sought, listed]
      refine .scan single here rfl stepped (searches.missed ?_)
      rw [RtpThreadManager.getThread, listed]
      rfl
  | cons p ps =>
      have stepped : ScanState.step (listCalls calls) (scan ⟨m₀, none, phase⟩) i =
          some ((scan ⟨m₀, none, phase⟩).enter i (.comparing p)) := by
        simp [ScanState.step, scan, here, CallPhase.onList, sought, listed]
      refine .scan single here rfl stepped fun phase here =>
        searches.compare single sought nodup ?_ ?_ here
      · rw [listed]
        exact List.mem_cons_self
      · rw [listed]
        exact .head

/-- `addThread` when nothing was found. -/
theorem add_alone {pRoutine : RtpThreadRoutine} (call : calls i = .addThread eType pRoutine)
    (absent : m₀.getThread eType = none) (here : phase i = .scan .absent) :
    Leads env calls ⟨m₀, none, phase⟩ i (m₀.addThread eType pRoutine).2
      (.scan (.returned (.status (m₀.addThread eType pRoutine).1))) := by
  have single : (calls i).loops = false := by rw [call]; rfl
  have searched : listCalls calls i = .addThread eType pRoutine := by rw [listCalls, call]; rfl
  rw [RtpThreadManager.addThread_of_absent absent]
  let added : RtpThreadManager := { m₀ with objects := m₀.objects.add (.new eType pRoutine) }
  have allocate : ScanState.step (listCalls calls) (scan ⟨m₀, none, phase⟩) i =
      some ((scan ⟨added, none, phase⟩).enter i (.allocated m₀.objects.size)) := by
    simp [ScanState.step, scan, here, CallPhase.onList, searched, added]
  refine .scan single here rfl allocate fun phase here => ?_
  have lock : ScanState.step (listCalls calls) (scan ⟨added, none, phase⟩) i =
      some ((scan ⟨added, some i, phase⟩).enter i (.locked m₀.objects.size)) := by
    simp [ScanState.step, scan, here, CallPhase.onList]
  refine .scan single here rfl lock fun phase here => ?_
  let listed : RtpThreadManager :=
    { added with listThreadList := m₀.listThreadList ++ [m₀.objects.size] }
  have push : ScanState.step (listCalls calls) (scan ⟨added, some i, phase⟩) i =
      some ((scan ⟨listed, some i, phase⟩).enter i .pushed) := by
    simp [ScanState.step, scan, here, CallPhase.onList, listed, added, ScanState.setList]
  refine .scan single here rfl push fun phase here => ?_
  have unlock : ScanState.step (listCalls calls) (scan ⟨listed, some i, phase⟩) i =
      some ((scan ⟨listed, none, phase⟩).enter i (.returned (.status .sOk))) := by
    simp [ScanState.step, scan, here, CallPhase.onList]
  exact .scan single here rfl unlock fun phase here => .done here

/-- `getThread`, whoever calls it. -/
theorem searches_getThread (single : (calls i).loops = false)
    (call : listCalls calls i = .getThread eType)
    (rest : ∀ phase : ι → CallPhase, phase i = .scan (.returned (.thread (m₀.getThread eType))) →
      Leads env calls ⟨m₀, none, phase⟩ i m last) : Searches env calls i m₀ eType m last := by
  refine ⟨fun q member found _ phase here => ?_, fun absent phase here => ?_⟩
  · have yield : ScanState.step (listCalls calls) (scan ⟨m₀, none, phase⟩) i =
        some ((scan ⟨m₀, none, phase⟩).enter i (.returned (.thread (some q)))) := by
      simp [ScanState.step, scan, here, CallPhase.onList, member, call]
    exact .scan single here rfl yield fun phase here => rest phase (by rw [here, found])
  · exact rest phase (by rw [here, call, absent]; rfl)

/-- A search with `getThread` that an operation on one entry begins with. -/
theorem search_alone (after : Option Nat → CallPhase)
    (single : (calls i).loops = false) (call : listCalls calls i = .getThread eType)
    (nodup : m₀.listThreadList.Nodup)
    (resumes : ∀ found, (calls i).resume (.returned (.thread found)) = some (after found))
    (rest : ∀ phase : ι → CallPhase, phase i = after (m₀.getThread eType) →
      Leads env calls ⟨m₀, none, phase⟩ i m last)
    (here : phase i = .scan .called) : Leads env calls ⟨m₀, none, phase⟩ i m last := by
  have resume : ∀ phase : ι → CallPhase,
      phase i = .scan (.returned (.thread (m₀.getThread eType))) →
      Leads env calls ⟨m₀, none, phase⟩ i m last := fun phase here =>
    .enter m₀ (after (m₀.getThread eType))
      (by simp [ManagerState.step, here, single, resumes, withManager]) rest
  exact (searches_getThread single call resume).begin single (by rw [call]; rfl) nodup here

/-! ## Spawning -/

theorem spawnThread_list (env : PthreadEnv) (m : RtpThreadManager) (p : Nat) :
    (RtpThread.spawnThread env m p).2.listThreadList = m.listThreadList := by
  rw [SpawnState.spawnThread_eq]
  split
  · rfl
  · split <;> rfl

/-- `RtpThread::spawnThread`. -/
theorem spawn_alone (here : phase i = .entered p)
    (rest : ∀ phase : ι → CallPhase,
      phase i = (match (RtpThread.spawnThread env m₀ p).1 with
        | .sOk => (calls i).spawnedOne p
        | .sFail => .returned .sFail) →
      Leads env calls ⟨(RtpThread.spawnThread env m₀ p).2, none, phase⟩ i m last) :
    Leads env calls ⟨m₀, none, phase⟩ i m last := by
  rw [SpawnState.spawnThread_eq] at rest
  cases flag : (m₀.deref p).bThreadSpawned with
  | true =>
      rw [flag, if_pos rfl] at rest
      exact .enter m₀ (.returned .sFail)
        (by simp [ManagerState.step, here, flag, withManager]) rest
  | false =>
      rw [flag, if_neg Bool.false_ne_true] at rest
      refine .enter m₀ (.creating p)
        (by simp [ManagerState.step, here, flag, withManager]) fun phase here => ?_
      by_cases failed : (SpawnState.create env m₀ p).1 ≠ 0
      · rw [if_pos failed] at rest
        exact .enter (SpawnState.create env m₀ p).2 (.returned .sFail)
          (by simp [ManagerState.step, here, failed]) rest
      · rw [if_neg failed] at rest
        refine .enter (SpawnState.create env m₀ p).2 (.created p)
          (by simp [ManagerState.step, here, of_not_not failed]) fun phase here => ?_
        exact .enter ((SpawnState.create env m₀ p).2.setSpawned p) ((calls i).spawnedOne p)
          (by simp [ManagerState.step, here]) rest

/-! ## Loops -/

/-- A loop that does for one entry what `outcome` does for it, and then goes on. -/
structure Iterates (env : PthreadEnv) (calls : ι → ManagerOp) (i : ι)
    (outcome : RtpThreadManager → List Nat → RtpResult × RtpThreadManager) : Prop where
  loops : (calls i).loops = true
  nil : ∀ m, outcome m [] = (.sOk, m)
  /-- The body, where `rest` is what the loop comes to after it. -/
  entry : ∀ m p ps, ∀ phase : ι → CallPhase, phase i = .checking p →
    (∀ m', m'.listThreadList = m.listThreadList → ∀ phase : ι → CallPhase,
      phase i = .advancing p →
      Leads env calls ⟨m', none, phase⟩ i (outcome m' ps).2 (.returned (outcome m' ps).1)) →
    Leads env calls ⟨m, none, phase⟩ i (outcome m (p :: ps)).2
      (.returned (outcome m (p :: ps)).1)

variable {outcome : RtpThreadManager → List Nat → RtpResult × RtpThreadManager}

/-- The loop from an entry to the end of the list. -/
theorem Iterates.visit (iterates : Iterates env calls i outcome) {xs ps : List Nat}
    (list : m₀.listThreadList = xs ++ p :: ps) (nodup : m₀.listThreadList.Nodup)
    (here : phase i = .visiting p) :
    Leads env calls ⟨m₀, none, phase⟩ i (outcome m₀ (p :: ps)).2
      (.returned (outcome m₀ (p :: ps)).1) := by
  induction ps generalizing m₀ phase p xs with
  | nil =>
      have first : p ∉ xs := fun inside =>
        (List.nodup_append.mp (list ▸ nodup)).2.2 p inside p List.mem_cons_self rfl
      have last : Cursor.next? m₀.listThreadList p = none := list ▸ Cursor.next?_split first
      have member : p ∈ m₀.listThreadList := by simp [list]
      refine .enter m₀ (.checking p)
        (by simp [ManagerState.step, here, member, withManager]) fun phase here => ?_
      refine iterates.entry m₀ p [] phase here fun m' same phase here => ?_
      rw [← same] at last member
      rw [iterates.nil]
      exact .enter m' (.returned .sOk)
        (by simp [ManagerState.step, here, member, last, withManager]) fun phase here => .done here
  | cons q ps ih =>
      have first : p ∉ xs := fun inside =>
        (List.nodup_append.mp (list ▸ nodup)).2.2 p inside p List.mem_cons_self rfl
      have next : Cursor.next? m₀.listThreadList p = some q := list ▸ Cursor.next?_split first
      have member : p ∈ m₀.listThreadList := by simp [list]
      refine .enter m₀ (.checking p)
        (by simp [ManagerState.step, here, member, withManager]) fun phase here => ?_
      refine iterates.entry m₀ p _ phase here fun m' same phase here => ?_
      rw [← same] at list nodup next member
      refine .enter m' (.visiting q)
        (by simp [ManagerState.step, here, member, next, withManager]) fun phase here => ?_
      have split : m'.listThreadList = (xs ++ [p]) ++ q :: ps := by simp [list]
      exact ih split nodup here

/-- The loop from its beginning. -/
theorem Iterates.begin (iterates : Iterates env calls i outcome)
    (nodup : m₀.listThreadList.Nodup) (here : phase i = .scan .called) :
    Leads env calls ⟨m₀, none, phase⟩ i (outcome m₀ m₀.listThreadList).2
      (.returned (outcome m₀ m₀.listThreadList).1) := by
  cases list : m₀.listThreadList with
  | nil =>
      rw [iterates.nil]
      exact .enter m₀ (.returned .sOk)
        (by simp [ManagerState.step, here, iterates.loops, list, withManager])
        fun phase here => .done here
  | cons p ps =>
      refine .enter m₀ (.visiting p)
        (by simp [ManagerState.step, here, iterates.loops, list, withManager])
        fun phase here => ?_
      have split : m₀.listThreadList = [] ++ p :: ps := list
      exact iterates.visit split nodup here

theorem iterates_spawnFrom (call : calls i = .spawnAllThreads) :
    Iterates env calls i (RtpThreadManager.spawnFrom env) where
  loops := by rw [call]; rfl
  nil m := rfl
  entry m p ps phase here rest := by
    rw [RtpThreadManager.spawnFrom]
    cases flag : (m.deref p).bThreadSpawned with
    | true =>
        exact .enter m (.advancing p)
          (by simp [ManagerState.step, here, call, ManagerOp.checked, flag, withManager])
          (rest m rfl)
    | false =>
        rw [if_neg Bool.false_ne_true]
        refine .enter m (.entered p)
          (by simp [ManagerState.step, here, call, ManagerOp.checked, flag, withManager])
          fun phase here => spawn_alone here fun phase here => ?_
        have list := spawnThread_list env m p
        rcases result : RtpThread.spawnThread env m p with ⟨ret, m'⟩
        rw [result] at here list
        cases ret with
        | sOk => exact rest m' list phase (here.trans (by rw [call]; rfl))
        | sFail => exact .done here

theorem iterates_killFrom (call : calls i = .killAllThreads) :
    Iterates env calls i fun m ps => (m.killFrom ps, m) where
  loops := by rw [call]; rfl
  nil m := rfl
  entry m p ps phase here rest := by
    rw [RtpThreadManager.killFrom]
    cases flag : (m.deref p).bThreadSpawned with
    | true =>
        exact .enter m (.advancing p)
          (by simp [ManagerState.step, here, call, ManagerOp.checked, flag, withManager])
          (rest m rfl)
    | false =>
        exact .enter m (.returned .sFail)
          (by simp [ManagerState.step, here, call, ManagerOp.checked, flag, withManager])
          fun phase here => .done here

/-! ## The operations -/

/-- How the sequential operation returns. -/
def returns (env : PthreadEnv) (m : RtpThreadManager) : ManagerOp → CallPhase
  | .addThread eType pRoutine =>
      .scan (.returned (.status (m.addThread eType pRoutine).1))
  | .getThread eType => .scan (.returned (.thread (m.getThread eType)))
  | .spawnThread eType => .returned (m.spawnThread env eType).1
  | .spawnAllThreads => .returned (m.spawnAllThreads env).1
  | .killThread eType => .returned (m.killThread env eType).1
  | .killAllThreads => .returned m.killAllThreads.1
  | .cleanThread _ => .scan (.returned .void)
  | .cleanAllThreads => .scan (.returned .void)

theorem addThread_alone {pRoutine : RtpThreadRoutine} (call : calls i = .addThread eType pRoutine)
    (nodup : m₀.listThreadList.Nodup) (here : phase i = .scan .called) :
    Leads env calls ⟨m₀, none, phase⟩ i (m₀.addThread eType pRoutine).2
      (.scan (.returned (.status (m₀.addThread eType pRoutine).1))) := by
  have single : (calls i).loops = false := by rw [call]; rfl
  have searched : listCalls calls i = .addThread eType pRoutine := by rw [listCalls, call]; rfl
  have searches : Searches env calls i m₀ eType (m₀.addThread eType pRoutine).2
      (.scan (.returned (.status (m₀.addThread eType pRoutine).1))) := by
    refine ⟨fun q member found _ phase here => ?_, fun absent phase here => ?_⟩
    · have refuse : ScanState.step (listCalls calls) (scan ⟨m₀, none, phase⟩) i =
          some ((scan ⟨m₀, none, phase⟩).enter i (.returned (.status .sFail))) := by
        simp [ScanState.step, scan, here, CallPhase.onList, member, searched]
      rw [RtpThreadManager.addThread, found]
      exact .scan single here rfl refuse fun phase here => .done here
    · exact add_alone call absent (by rw [here, searched]; rfl)
  exact searches.begin single (by rw [searched]; rfl) nodup here

theorem getThread_alone (call : calls i = .getThread eType)
    (nodup : m₀.listThreadList.Nodup) (here : phase i = .scan .called) :
    Leads env calls ⟨m₀, none, phase⟩ i m₀ (.scan (.returned (.thread (m₀.getThread eType)))) := by
  have single : (calls i).loops = false := by rw [call]; rfl
  have searched : listCalls calls i = .getThread eType := by rw [listCalls, call]; rfl
  exact (searches_getThread single searched fun phase here => .done here).begin single
    (by rw [searched]; rfl) nodup here

theorem cleanThread_alone (call : calls i = .cleanThread eType)
    (nodup : m₀.listThreadList.Nodup) (here : phase i = .scan .called) :
    Leads env calls ⟨m₀, none, phase⟩ i (m₀.cleanThread eType) (.scan (.returned .void)) := by
  have single : (calls i).loops = false := by rw [call]; rfl
  have searched : listCalls calls i = .cleanThread eType := by rw [listCalls, call]; rfl
  have searches : Searches env calls i m₀ eType (m₀.cleanThread eType)
      (.scan (.returned .void)) := by
    refine ⟨fun q member _ erased phase here => ?_, fun absent phase here => ?_⟩
    · have erase : ScanState.step (listCalls calls) (scan ⟨m₀, none, phase⟩) i =
          some (((scan ⟨m₀, none, phase⟩).setList (m₀.listThreadList.erase q)).enter i
            (.returned .void)) := by
        simp [ScanState.step, scan, here, CallPhase.onList, member, searched]
      rw [RtpThreadManager.cleanThread, erased]
      exact .scan single here rfl erase fun phase here => .done here
    · have nothing : Keyed.erase m₀.typeOf m₀.listThreadList eType = m₀.listThreadList :=
        List.eraseP_of_forall_not fun p inside same =>
          RtpThreadManager.getThread_eq_none_iff.mp absent p inside (of_decide_eq_true same).symm
      rw [RtpThreadManager.cleanThread, nothing]
      exact .done (by rw [here, searched]; rfl)
  exact searches.begin single (by rw [searched]; rfl) nodup here

theorem cleanAllThreads_alone (call : calls i = .cleanAllThreads)
    (here : phase i = .scan .called) :
    Leads env calls ⟨m₀, none, phase⟩ i m₀.cleanAllThreads (.scan (.returned .void)) := by
  have single : (calls i).loops = false := by rw [call]; rfl
  have searched : listCalls calls i = .cleanAllThreads := by rw [listCalls, call]; rfl
  rw [RtpThreadManager.cleanAllThreads]
  by_cases empty : m₀.listThreadList.length = 0
  · have size : ScanState.step (listCalls calls) (scan ⟨m₀, none, phase⟩) i =
        some ((scan ⟨m₀, none, phase⟩).enter i (.returned .void)) := by
      simp [ScanState.step, scan, here, CallPhase.onList, searched, ListCall.sought, empty]
    rw [if_neg (not_not_intro empty)]
    exact .scan single here rfl size fun phase here => .done here
  · have size : ScanState.step (listCalls calls) (scan ⟨m₀, none, phase⟩) i =
        some ((scan ⟨m₀, none, phase⟩).enter i .clearing) := by
      simp [ScanState.step, scan, here, CallPhase.onList, searched, ListCall.sought, empty]
    rw [if_pos empty]
    refine .scan single here rfl size fun phase here => ?_
    have clear : ScanState.step (listCalls calls) (scan ⟨m₀, none, phase⟩) i =
        some (((scan ⟨m₀, none, phase⟩).setList []).enter i (.returned .void)) := by
      simp [ScanState.step, scan, here, CallPhase.onList]
    exact .scan single here rfl clear fun phase here => .done here

theorem spawnThread_alone (call : calls i = .spawnThread eType)
    (nodup : m₀.listThreadList.Nodup) (here : phase i = .scan .called) :
    Leads env calls ⟨m₀, none, phase⟩ i (m₀.spawnThread env eType).2
      (.returned (m₀.spawnThread env eType).1) := by
  have single : (calls i).loops = false := by rw [call]; rfl
  have searched : listCalls calls i = .getThread eType := by rw [listCalls, call]; rfl
  refine search_alone (fun found => (found.map .checking).getD (.returned .sFail)) single searched
    nodup (fun found => ?_) (fun phase here => ?_) here
  · rw [call]
    cases found <;> rfl
  · rw [RtpThreadManager.spawnThread]
    cases found : m₀.getThread eType with
    | none => exact .done (by rw [here, found]; rfl)
    | some p =>
        replace here : phase i = .checking p := by rw [here, found]; rfl
        dsimp only
        cases flag : (m₀.deref p).bThreadSpawned with
        | true =>
            exact .enter m₀ (.returned .sFail)
              (by simp [ManagerState.step, here, call, ManagerOp.checked, flag, withManager])
              fun phase here => .done here
        | false =>
            rw [if_neg Bool.false_ne_true]
            refine .enter m₀ (.entered p)
              (by simp [ManagerState.step, here, call, ManagerOp.checked, flag, withManager])
              fun phase here => spawn_alone here fun phase here => ?_
            rcases result : RtpThread.spawnThread env m₀ p with ⟨ret, m'⟩
            rw [result] at here
            cases ret with
            | sOk => exact .done (here.trans (by rw [call]; rfl))
            | sFail => exact .done here

/-- `killThread` from the entry it has found. -/
theorem kill_alone (here : phase i = .spawned p) :
    let handler := (m₀.deref p).ulThreadHandler
    let killed := m₀.system.pthreadKill env p handler
    let joined := killed.2.pthreadJoin env p handler
    let kill : RtpResult × RtpThreadManager :=
      if killed.1 ≠ 0 then (.sFail, { m₀ with system := killed.2 })
      else if joined.1 ≠ 0 then (.sFail, { m₀ with system := joined.2 })
      else (.sOk, { m₀ with system := joined.2 })
    Leads env calls ⟨m₀, none, phase⟩ i kill.2 (.returned kill.1) := by
  intro handler killed joined kill
  refine .enter m₀ (.signalling p handler)
    (by simp [ManagerState.step, here, withManager, handler]) fun phase here => ?_
  by_cases failed : killed.1 = 0
  · refine .enter { m₀ with system := killed.2 } (.joining p handler)
      (by simp [ManagerState.step, here, killed, failed]) fun phase here => ?_
    by_cases failed' : joined.1 = 0
    · have result : kill = (.sOk, { m₀ with system := joined.2 }) :=
        (if_neg (not_not_intro failed)).trans (if_neg (not_not_intro failed'))
      rw [result]
      exact .enter { m₀ with system := joined.2 } (.returned .sOk)
        (by simp [ManagerState.step, here, joined, failed']) fun phase here => .done here
    · have result : kill = (.sFail, { m₀ with system := joined.2 }) :=
        (if_neg (not_not_intro failed)).trans (if_pos failed')
      rw [result]
      exact .enter { m₀ with system := joined.2 } (.returned .sFail)
        (by simp [ManagerState.step, here, joined, failed']) fun phase here => .done here
  · have result : kill = (.sFail, { m₀ with system := killed.2 }) := if_pos failed
    rw [result]
    exact .enter { m₀ with system := killed.2 } (.returned .sFail)
      (by simp [ManagerState.step, here, killed, failed]) fun phase here => .done here

theorem killThread_alone (call : calls i = .killThread eType)
    (nodup : m₀.listThreadList.Nodup) (here : phase i = .scan .called) :
    Leads env calls ⟨m₀, none, phase⟩ i (m₀.killThread env eType).2
      (.returned (m₀.killThread env eType).1) := by
  have single : (calls i).loops = false := by rw [call]; rfl
  have searched : listCalls calls i = .getThread eType := by rw [listCalls, call]; rfl
  refine search_alone (fun found => (found.map .checking).getD (.returned .sFail)) single searched
    nodup (fun found => ?_) (fun phase here => ?_) here
  · rw [call]
    cases found <;> rfl
  · rw [RtpThreadManager.killThread]
    cases found : m₀.getThread eType with
    | none => exact .done (by rw [here, found]; rfl)
    | some p =>
        replace here : phase i = .checking p := by rw [here, found]; rfl
        dsimp only
        cases flag : (m₀.deref p).bThreadSpawned with
        | false =>
            exact .enter m₀ (.returned .sFail)
              (by simp [ManagerState.step, here, call, ManagerOp.checked, flag, withManager])
              fun phase here => .done here
        | true =>
            refine .enter m₀ (.spawned p)
              (by simp [ManagerState.step, here, call, ManagerOp.checked, flag, withManager])
              fun phase here => kill_alone here

/-- What a call does, where the list has no entry twice. -/
theorem leads_alone (env : PthreadEnv) (nodup : m₀.listThreadList.Nodup)
    (here : phase i = .scan .called) :
    ∃ m, RtpThreadManager.step env m₀ (calls i) = some m ∧
      Leads env calls ⟨m₀, none, phase⟩ i m (returns env m₀ (calls i)) := by
  cases call : calls i with
  | addThread => exact ⟨_, rfl, addThread_alone call nodup here⟩
  | getThread => exact ⟨_, rfl, getThread_alone call nodup here⟩
  | spawnThread => exact ⟨_, rfl, spawnThread_alone call nodup here⟩
  | spawnAllThreads => exact ⟨_, rfl, (iterates_spawnFrom call).begin nodup here⟩
  | killThread => exact ⟨_, rfl, killThread_alone call nodup here⟩
  | killAllThreads => exact ⟨_, rfl, (iterates_killFrom call).begin nodup here⟩
  | cleanThread => exact ⟨_, rfl, cleanThread_alone call nodup here⟩
  | cleanAllThreads => exact ⟨_, rfl, cleanAllThreads_alone call here⟩

/-- **Calls and the sequential manager.** In whatever state the calls of others have left the
manager, as long as none of them holds the mutex, a call that nobody interrupts does what
the sequential operation does, and returns what it returns. -/
theorem operation_alone {sched : List ι} (reached : run (step env calls) init sched = some s)
    (free : s.mutex = none) (here : s.phase i = .scan .called) :
    ∃ n t, run (step env calls) s (List.replicate n i) = some t ∧
      RtpThreadManager.step env s.manager (calls i) = some t.manager ∧
      t.mutex = none ∧ t.phase i = returns env s.manager (calls i) := by
  have nodup : s.manager.listThreadList.Nodup :=
    (run_invariant step_inv inv_init reached).scan.nodup
  obtain ⟨m, mutex, phase⟩ := s
  subst free
  obtain ⟨m', stepped, n, t, moved, rfl, unlocked, last⟩ := leads_alone env nodup here
  exact ⟨n, t, moved, stepped, unlocked, last⟩

/-- The main thread is erased while the loop stands at its node. -/
theorem erasedUnderLoop_alone :
    ∃ s, run (step .succeeding fourOps) init [0, 0, 0, 0, 0, 2, 2] = some s ∧
      s.phase 2 = .checking 0 ∧
      ∃ n t, run (step .succeeding fourOps) s (List.replicate n 3) = some t ∧
        t.manager.listThreadList = [] := by
  obtain ⟨s, reached, phase, free, here, cleaned⟩ :
      ∃ s, run (step .succeeding fourOps) init [0, 0, 0, 0, 0, 2, 2] = some s ∧
        s.phase 2 = .checking 0 ∧ s.mutex = none ∧ s.phase 3 = .scan .called ∧
        (s.manager.cleanThread .main).listThreadList = [] := ⟨_, rfl, rfl, rfl, rfl, rfl⟩
  obtain ⟨n, t, moved, stepped, _, _⟩ := operation_alone reached free here
  have manager : s.manager.cleanThread .main = t.manager := Option.some.inj stepped
  exact ⟨s, reached, phase, n, t, moved, manager ▸ cleaned⟩

end ManagerState

end OpenRtp
