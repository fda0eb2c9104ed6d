import OpenRtp.EntryThreads
import OpenRtp.ThreadHandles

/-!
# Killing all threads

`killAllThreads` is its own loop over the list, and the pthread calls in its body are compiled
out: it only looks for an entry that is not marked spawned.  Killing the entries one after
another by `killThread` ends every thread or reports a failure (`killEach_ends`); the two
agree only where the first kill would be refused (`killAllThreads_agrees_iff`).
-/

namespace OpenRtp.RtpThreadManager

variable {env : PthreadEnv} {m m' : RtpThreadManager} {p q : Nat} {ps : List Nat}
  {eType : RtpThreadType} {eTypes : List RtpThreadType}

/-- `killThread` of one type after another, up to the first failure. -/
def killEach (env : PthreadEnv) (m : RtpThreadManager) :
    List RtpThreadType → RtpResult × RtpThreadManager
  | [] => (.sOk, m)
  | eType :: eTypes =>
      match m.killThread env eType with
      | (.sOk, m) => killEach env m eTypes
      | (.sFail, m) => (.sFail, m)

/-- The thread of the entry `p` has been signalled and joined. -/
def Ended (m : RtpThreadManager) (p : Nat) : Prop :=
  ∃ t, m.system.thread? (m.deref p).ulThreadHandler = some t ∧
    t.signalled = true ∧ t.joined = true

/-- The bulk kill does what the single kills do, the calls and their order included, and its
`RTP_S_OK` says that every thread was ended. -/
structure AgreesWithSingleKills (env : PthreadEnv) (m : RtpThreadManager) : Prop where
  same : m.killAllThreads = m.killEach env (m.listThreadList.map m.typeOf)
  ended : m.killAllThreads.1 = .sOk →
    ∀ p ∈ m.killAllThreads.2.listThreadList, m.killAllThreads.2.Ended p

/-! ## Single kills -/

/-- What a successful `killThread` of the entry `p` leaves. -/
structure KilledEntry (m : RtpThreadManager) (p : Nat) (m' : RtpThreadManager) : Prop where
  objects : m'.objects = m.objects
  list : m'.listThreadList = m.listThreadList
  ended : m'.Ended p
  still : ∀ q, m.Ended q → m'.Ended q

theorem killedEntry_of_ok (entries : m.EntriesHold) (found : m.getThread eType = some p)
    (ok : (m.killThread env eType).1 = .sOk) :
    KilledEntry m p (m.killThread env eType).2 := by
  rcases killThread_cases env m eType with
    ⟨result, _⟩ | ⟨q, here, flag, ⟨_, result⟩ | ⟨_, _, result⟩ | ⟨_, result⟩⟩
  · rw [result] at ok
    cases ok
  · rw [result] at ok
    cases ok
  · rw [result] at ok
    cases ok
  · cases found.symm.trans here
    obtain ⟨t, created, _⟩ := entries.created p flag
    rw [result]
    refine ⟨rfl, rfl, ?_, fun q ended => ?_⟩
    · refine ⟨{ t with signalled := true, joined := true }, ?_, rfl, rfl⟩
      show ThreadSystem.thread? _ (m.deref p).ulThreadHandler = _
      rw [ThreadSystem.thread?_modifyThread, if_pos rfl, created]
      rfl
    · obtain ⟨t', before, signalled, joined⟩ := ended
      show ∃ t, ThreadSystem.thread? _ (m.deref q).ulThreadHandler = some t ∧ _
      rw [ThreadSystem.thread?_modifyThread, before]
      split
      · exact ⟨_, rfl, rfl, rfl⟩
      · exact ⟨t', rfl, signalled, joined⟩

theorem typeOf_congr (objects : m'.objects = m.objects) : m'.typeOf = m.typeOf := by
  funext q
  rw [typeOf, deref, objects, ← deref, ← typeOf]

/-- Single kills that all succeed end the thread of every entry they are made for. -/
theorem killEach_ends (wf : m.Wf) (entries : m.EntriesHold)
    (listed : ∀ p ∈ ps, p ∈ m.listThreadList)
    (ok : (m.killEach env (ps.map m.typeOf)).1 = .sOk) :
    (∀ p ∈ ps, (m.killEach env (ps.map m.typeOf)).2.Ended p) ∧
      ∀ q, m.Ended q → (m.killEach env (ps.map m.typeOf)).2.Ended q := by
  induction ps generalizing m with
  | nil => exact ⟨by simp, fun q ended => ended⟩
  | cons p ps ih =>
      have found : m.getThread (m.typeOf p) = some p :=
        wf.getThread_eq_some_iff.mpr ⟨listed p List.mem_cons_self, rfl⟩
      have stepped : step env m (.killThread (m.typeOf p)) =
        some (m.killThread env (m.typeOf p)).2 := rfl
      rw [List.map_cons, killEach] at ok ⊢
      rcases called : m.killThread env (m.typeOf p) with ⟨ret, m'⟩
      rw [called] at ok stepped
      cases ret with
      | sFail => cases ok
      | sOk =>
          have killed := killedEntry_of_ok entries found (congrArg Prod.fst called)
          rw [called] at killed
          have sameTypes : m'.typeOf = m.typeOf := typeOf_congr killed.objects
          have rest : ∀ q ∈ ps, q ∈ m'.listThreadList := fun q member =>
            killed.list ▸ listed q (List.mem_cons_of_mem p member)
          rw [← sameTypes] at ok ⊢
          obtain ⟨later, still⟩ :=
            ih (step_wf wf stepped) (step_entriesHold wf entries stepped) rest ok
          refine ⟨List.forall_mem_cons.mpr ⟨still p killed.ended, later⟩, fun q ended => ?_⟩
          exact still q (killed.still q ended)

/-! ## The calls of the single kills -/

theorem killThread_calls (env : PthreadEnv) (m : RtpThreadManager) (eType : RtpThreadType) :
    m.system.calls <+: (m.killThread env eType).2.system.calls := by
  rcases killThread_cases env m eType with
    ⟨result, _⟩ | ⟨q, here, flag, ⟨_, result⟩ | ⟨_, _, result⟩ | ⟨_, result⟩⟩
  · exact ⟨[], by rw [result, List.append_nil]⟩
  all_goals
    rw [result]
    exact List.prefix_append _ _

theorem killEach_calls (env : PthreadEnv) (m : RtpThreadManager) (eTypes : List RtpThreadType) :
    m.system.calls <+: (m.killEach env eTypes).2.system.calls := by
  induction eTypes generalizing m with
  | nil => exact List.prefix_refl _
  | cons eType eTypes ih =>
      have first := killThread_calls env m eType
      rw [killEach]
      rcases called : m.killThread env eType with ⟨ret, m'⟩
      rw [called] at first
      cases ret with
      | sOk => exact first.trans (ih m')
      | sFail => exact first

/-- Killing an entry marked spawned makes a call, whatever follows. -/
theorem killEach_calls_of_spawned (found : m.getThread eType = some p)
    (flag : (m.deref p).bThreadSpawned = true) :
    m.system.calls.length < (m.killEach env (eType :: eTypes)).2.system.calls.length := by
  obtain ⟨val, made⟩ := killThread_kills env found flag
  have first : m.system.calls.length < (m.killThread env eType).2.system.calls.length := by
    by_contra none
    rw [List.drop_eq_nil_of_le (Nat.not_lt.mp none)] at made
    cases made
  rw [killEach]
  rcases called : m.killThread env eType with ⟨ret, m'⟩
  rw [called] at first
  cases ret with
  | sOk => exact Nat.lt_of_lt_of_le first (killEach_calls env m' eTypes).length_le
  | sFail => exact first

theorem killThread_of_unspawned (found : m.getThread eType = some p)
    (flag : (m.deref p).bThreadSpawned = false) : m.killThread env eType = (.sFail, m) := by
  simp [killThread, found, flag]

/-! ## The bulk kill -/

theorem killFrom_eq_sOk_iff :
    m.killFrom ps = .sOk ↔ ∀ p ∈ ps, (m.deref p).bThreadSpawned = true := by
  induction ps with
  | nil => simp [killFrom]
  | cons p ps ih =>
      rw [killFrom, List.forall_mem_cons]
      cases flag : (m.deref p).bThreadSpawned with
      | true => simpa using ih
      | false => simp

theorem getThread_typeOf_head (wf : m.Wf) (head : p ∈ m.listThreadList.head?) :
    m.getThread (m.typeOf p) = some p :=
  wf.getThread_eq_some_iff.mpr ⟨List.mem_of_mem_head? head, rfl⟩

/-- Where the first kill would be refused, so is the bulk kill. -/
theorem killAllThreads_eq_killEach (wf : m.Wf)
    (refused : ∀ p ∈ m.listThreadList.head?, (m.deref p).bThreadSpawned = false) :
    m.killAllThreads = m.killEach env (m.listThreadList.map m.typeOf) := by
  cases list : m.listThreadList with
  | nil => rw [killAllThreads, list, List.map_nil, killFrom, killEach]
  | cons p ps =>
      have head : p ∈ m.listThreadList.head? := by rw [list]; rfl
      have flag := refused p head
      rw [killAllThreads, list, List.map_cons, killFrom, killEach, flag,
        killThread_of_unspawned (getThread_typeOf_head wf head) flag]
      rfl

/-- Otherwise the single kills make a call, and the bulk kill makes none. -/
theorem refused_of_killAllThreads_eq (wf : m.Wf)
    (same : m.killAllThreads = m.killEach env (m.listThreadList.map m.typeOf)) :
    ∀ p ∈ m.listThreadList.head?, (m.deref p).bThreadSpawned = false := by
  intro p head
  obtain ⟨ps, list⟩ := List.head?_eq_some_iff.mp head
  by_contra flag
  have more : m.system.calls.length <
      (m.killEach env (m.typeOf p :: ps.map m.typeOf)).2.system.calls.length :=
    killEach_calls_of_spawned (getThread_typeOf_head wf head) (eq_true_of_ne_false flag)
  rw [list, List.map_cons] at same
  rw [← same] at more
  exact Nat.lt_irrefl _ more

/-- **Killing all.** In every manager a run from the empty one reaches, and whatever the
pthread calls return, `killAllThreads` agrees with the single kills exactly when the list is
empty or its first entry is not marked spawned.  It makes no call and leaves the manager as
it is, and reports whether every entry is marked spawned; the single kills end every thread
when they report `RTP_S_OK`. -/
theorem killAllThreads_agrees_iff {env₀ : PthreadEnv} {ops : List ManagerOp}
    (reached : run (step env₀) init ops = some m) (env : PthreadEnv) :
    (AgreesWithSingleKills env m ↔
      ∀ p ∈ m.listThreadList.head?, (m.deref p).bThreadSpawned = false) ∧
    m.killAllThreads.2 = m ∧
    (m.killAllThreads.1 = .sOk ↔ ∀ p ∈ m.listThreadList, (m.deref p).bThreadSpawned = true) ∧
    ((m.killEach env (m.listThreadList.map m.typeOf)).1 = .sOk →
      ∀ p ∈ m.listThreadList, (m.killEach env (m.listThreadList.map m.typeOf)).2.Ended p) := by
  have wf := run_wf reached
  have ends : (m.killEach env (m.listThreadList.map m.typeOf)).1 = .sOk →
      ∀ p ∈ m.listThreadList, (m.killEach env (m.listThreadList.map m.typeOf)).2.Ended p :=
    fun ok => (killEach_ends wf (run_entriesHold reached) (fun p member => member) ok).1
  refine ⟨⟨fun agrees => ?_, fun refused => ?_⟩, rfl, killFrom_eq_sOk_iff, ends⟩
  · exact refused_of_killAllThreads_eq wf agrees.same
  · have same : m.killAllThreads = m.killEach env (m.listThreadList.map m.typeOf) :=
      killAllThreads_eq_killEach wf refused
    have list : m.killAllThreads.2.listThreadList = m.listThreadList := rfl
    refine ⟨same, ?_⟩
    rw [list, same]
    exact ends

/-- An entry that was never spawned comes first. -/
theorem killAllThreads_agrees_iff_unspawned :
    ∃ m, run (step .succeeding) init
        [.addThread .main (some 1), .addThread .capture (some 2), .spawnThread .capture] =
          some m ∧ AgreesWithSingleKills .succeeding m := by
  refine ⟨_, rfl, ?_⟩
  have reached : run (step .succeeding) init
      [.addThread .main (some 1), .addThread .capture (some 2), .spawnThread .capture] =
        some _ := rfl
  exact (killAllThreads_agrees_iff reached .succeeding).1.mpr (by decide)

/-- `killAllThreads` reports `RTP_S_OK` and leaves the one thread running. -/
theorem killAllThreads_ends_nothing :
    ∃ m, run (step .succeeding) init [.addThread .main (some 1), .spawnThread .main] = some m ∧
      m.killAllThreads = (.sOk, m) ∧ m.listThreadList = [0] ∧ ¬ m.Ended 0 ∧
      (m.killEach .succeeding [.main]).2.system.calls =
        m.system.calls ++ [.kill 0 1 0, .join 0 1 0] ∧
      ¬ AgreesWithSingleKills .succeeding m := by
  have running : ∀ m, run (step .succeeding) init
      [.addThread .main (some 1), .spawnThread .main] = some m → ¬ m.Ended 0 := by
    intro m reached ended
    cases reached
    obtain ⟨t, found, signalled, _⟩ := ended
    cases found
    cases signalled
  refine ⟨_, rfl, rfl, rfl, running _ rfl, rfl, fun agrees => ?_⟩
  exact running _ rfl (agrees.ended rfl 0 (by decide))

end OpenRtp.RtpThreadManager
