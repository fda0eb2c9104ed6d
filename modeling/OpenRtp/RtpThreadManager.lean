import Mathlib.Logic.Relation
import OpenRtp.Base.Keyed
import OpenRtp.Base.Run
import OpenRtp.Pthread

/-!
# The thread manager

`RtpThreadManager` and `RtpThread` with every operation.  The list holds pointers;
the objects they lead to live in a table of their own, because `cleanThread`
erases a pointer and frees nothing.  Log output is not modelled: it decides no
branch.

What an operation can do is said once, in `Effect`: each operation is a sequence
of effects (`step_effects`), and invariants are proved one effect at a time.
-/

namespace OpenRtp

/-- `RTP_RESULT`. -/
inductive RtpResult
  | sOk
  | sFail
deriving DecidableEq, Repr

inductive RtpThreadType
  | unknown
  | sigmgr
  | main
  | capture
  | encode
  | network
  | decode
deriving DecidableEq, Repr

/-- `RtpThread`; its mutex is never locked. -/
structure RtpThread where
  eThreadType : RtpThreadType
  pThreadRoutine : RtpThreadRoutine
  ulThreadHandler : RtpThreadHandler
  bThreadSpawned : Bool
deriving DecidableEq, Repr

/-- `RtpThread::RtpThread()`. -/
def RtpThread.default : RtpThread := ⟨.unknown, none, 0, false⟩

/-- `RtpThread::RtpThread(RtpThreadType, RtpThreadRoutine)`. -/
def RtpThread.new (eType : RtpThreadType) (pThreadRoutine : RtpThreadRoutine) : RtpThread :=
  ⟨eType, pThreadRoutine, 0, false⟩

/-- The manager's list, the objects `new RtpThread` made, and the system's threads. -/
structure RtpThreadManager where
  objects : Table RtpThread
  listThreadList : List Nat
  system : ThreadSystem
deriving DecidableEq, Repr

namespace RtpThreadManager

def init : RtpThreadManager := ⟨Table.empty, [], ThreadSystem.init⟩

/-- The object behind a pointer. -/
def deref (m : RtpThreadManager) (p : Nat) : RtpThread := (m.objects.get? p).getD .default

/-- `getThreadType` of the object behind a pointer. -/
def typeOf (m : RtpThreadManager) (p : Nat) : RtpThreadType := (m.deref p).eThreadType

def setHandler (m : RtpThreadManager) (p : Nat) (handler : RtpThreadHandler) :
    RtpThreadManager :=
  { m with objects := m.objects.modify p fun t => { t with ulThreadHandler := handler } }

def setSpawned (m : RtpThreadManager) (p : Nat) : RtpThreadManager :=
  { m with objects := m.objects.modify p fun t => { t with bThreadSpawned := true } }

end RtpThreadManager

/-- `RtpThread::spawnThread`, on the object behind `p`. -/
def RtpThread.spawnThread (env : PthreadEnv) (m : RtpThreadManager) (p : Nat) :
    RtpResult × RtpThreadManager :=
  if (m.deref p).bThreadSpawned then (.sFail, m)
  else
    let attr := PthreadAttr.init.setdetachstate .detached
    let (val, handler, system) :=
      m.system.pthreadCreate env p attr (m.deref p).pThreadRoutine
    let m := { m with system }.setHandler p handler
    if val ≠ 0 then (.sFail, m)
    else (.sOk, m.setSpawned p)

namespace RtpThreadManager

/-- `RtpThreadManager::getThread`: the first listed entry of the type. -/
def getThread (m : RtpThreadManager) (eType : RtpThreadType) : Option Nat :=
  Keyed.find m.typeOf m.listThreadList eType

/-- `RtpThreadManager::addThread`. -/
def addThread (m : RtpThreadManager) (eType : RtpThreadType) (pRoutine : RtpThreadRoutine) :
    RtpResult × RtpThreadManager :=
  match m.getThread eType with
  | some _ => (.sFail, m)
  | none =>
      (.sOk, { m with
        objects := m.objects.add (.new eType pRoutine)
        listThreadList := m.listThreadList ++ [m.objects.size] })

/-- `RtpThreadManager::spawnThread`. -/
def spawnThread (env : PthreadEnv) (m : RtpThreadManager) (eType : RtpThreadType) :
    RtpResult × RtpThreadManager :=
  match m.getThread eType with
  | none => (.sFail, m)
  | some p =>
      if (m.deref p).bThreadSpawned then (.sFail, m)
      else RtpThread.spawnThread env m p

/-- The loop of `spawnAllThreads` over the rest of the list. -/
def spawnFrom (env : PthreadEnv) (m : RtpThreadManager) :
    List Nat → RtpResult × RtpThreadManager
  | [] => (.sOk, m)
  | p :: ps =>
      if (m.deref p).bThreadSpawned then spawnFrom env m ps
      else
        match RtpThread.spawnThread env m p with
        | (.sOk, m) => spawnFrom env m ps
        | (.sFail, m) => (.sFail, m)

/-- `RtpThreadManager::spawnAllThreads`. -/
def spawnAllThreads (env : PthreadEnv) (m : RtpThreadManager) : RtpResult × RtpThreadManager :=
  m.spawnFrom env m.listThreadList

/-- `RtpThreadManager::killThread`. -/
def killThread (env : PthreadEnv) (m : RtpThreadManager) (eType : RtpThreadType) :
    RtpResult × RtpThreadManager :=
  match m.getThread eType with
  | none => (.sFail, m)
  | some p =>
      if !(m.deref p).bThreadSpawned then (.sFail, m)
      else
        let handler := (m.deref p).ulThreadHandler
        let (val, system) := m.system.pthreadKill env p handler
        if val ≠ 0 then (.sFail, { m with system })
        else
          let (val, system) := system.pthreadJoin env p handler
          if val ≠ 0 then (.sFail, { m with system })
          else (.sOk, { m with system })

/-- The loop of `killAllThreads`; the calls in its body are compiled out. -/
def killFrom (m : RtpThreadManager) : List Nat → RtpResult
  | [] => .sOk
  | p :: ps => if !(m.deref p).bThreadSpawned then .sFail else m.killFrom ps

/-- `RtpThreadManager::killAllThreads`. -/
def killAllThreads (m : RtpThreadManager) : RtpResult × RtpThreadManager :=
  (m.killFrom m.listThreadList, m)

/-- `RtpThreadManager::cleanThread`. -/
def cleanThread (m : RtpThreadManager) (eType : RtpThreadType) : RtpThreadManager :=
  { m with listThreadList := Keyed.erase m.typeOf m.listThreadList eType }

/-- `RtpThreadManager::cleanAllThreads`. -/
def cleanAllThreads (m : RtpThreadManager) : RtpThreadManager :=
  if m.listThreadList.length ≠ 0 then { m with listThreadList := [] } else m

end RtpThreadManager

/-- One call on the manager. -/
inductive ManagerOp
  | addThread (eType : RtpThreadType) (pRoutine : RtpThreadRoutine)
  | getThread (eType : RtpThreadType)
  | spawnThread (eType : RtpThreadType)
  | spawnAllThreads
  | killThread (eType : RtpThreadType)
  | killAllThreads
  | cleanThread (eType : RtpThreadType)
  | cleanAllThreads
deriving DecidableEq, Repr

namespace RtpThreadManager

/-- The manager after one call. -/
def step (env : PthreadEnv) (m : RtpThreadManager) : ManagerOp → Option RtpThreadManager
  | .addThread eType pRoutine => some (m.addThread eType pRoutine).2
  | .getThread _ => some m
  | .spawnThread eType => some (m.spawnThread env eType).2
  | .spawnAllThreads => some (m.spawnAllThreads env).2
  | .killThread eType => some (m.killThread env eType).2
  | .killAllThreads => some m.killAllThreads.2
  | .cleanThread eType => some (m.cleanThread eType)
  | .cleanAllThreads => some m.cleanAllThreads

/-! ## Objects -/

variable {env : PthreadEnv} {m m' : RtpThreadManager} {p q : Nat} {eType : RtpThreadType}

/-- Writing through a valid pointer changes that object only. -/
theorem deref_modify {objects : Table RtpThread} (f : RtpThread → RtpThread)
    (valid : p < objects.size) (list : List Nat) (system : ThreadSystem) (q : Nat) :
    deref ⟨objects.modify p f, list, system⟩ q =
      if q = p then f (deref ⟨objects, list, system⟩ p) else deref ⟨objects, list, system⟩ q := by
  obtain ⟨t, here⟩ := Table.exists_get?_of_lt valid
  rcases eq_or_ne q p with rfl | other
  · simp [deref, here]
  · simp [deref, Table.get?_modify_of_ne (Ne.symm other), other]

theorem deref_setHandler (valid : p < m.objects.size) (system : ThreadSystem)
    (handler : RtpThreadHandler) (q : Nat) :
    (setHandler { m with system } p handler).deref q =
      if q = p then { m.deref p with ulThreadHandler := handler } else m.deref q :=
  deref_modify _ valid _ _ q

theorem deref_setSpawned (valid : p < m.objects.size) (system : ThreadSystem)
    (handler : RtpThreadHandler) (q : Nat) :
    ((setHandler { m with system } p handler).setSpawned p).deref q =
      if q = p then { m.deref p with ulThreadHandler := handler, bThreadSpawned := true }
      else m.deref q := by
  have handled := deref_setHandler valid system handler
  have stillValid : p < (setHandler { m with system } p handler).objects.size := by
    simpa [setHandler] using valid
  rw [setSpawned, deref_modify _ stillValid, handled p, handled q, if_pos rfl]
  split <;> rfl

/-! ## What spawning an entry does -/

/-- `pthread_create` succeeded for the unspawned entry `p`. -/
structure Spawned (m : RtpThreadManager) (p : Nat) (m' : RtpThreadManager) : Prop where
  unspawned : (m.deref p).bThreadSpawned = false
  list : m'.listThreadList = m.listThreadList
  size : m'.objects.size = m.objects.size
  deref : ∀ q, m'.deref q =
    if q = p then
      { m.deref p with ulThreadHandler := m.system.threads.size + 1, bThreadSpawned := true }
    else m.deref q
  threads : m'.system.threads =
    m.system.threads.add ⟨p, (m.deref p).pThreadRoutine, .detached, false, false⟩
  calls : m'.system.calls = m.system.calls ++ [.create p ⟨.detached⟩ 0]

/-- `pthread_create` failed for the unspawned entry `p`; the handle it was given is
indeterminate. -/
structure SpawnFailed (env : PthreadEnv) (m : RtpThreadManager) (p : Nat)
    (m' : RtpThreadManager) : Prop where
  unspawned : (m.deref p).bThreadSpawned = false
  list : m'.listThreadList = m.listThreadList
  size : m'.objects.size = m.objects.size
  deref : ∀ q, m'.deref q =
    if q = p then
      { m.deref p with ulThreadHandler := env.scribble m.system.calls.length }
    else m.deref q
  threads : m'.system.threads = m.system.threads
  calls : m'.system.calls =
    m.system.calls ++ [.create p ⟨.detached⟩ (env.create m.system.calls.length)]

/-- `RtpThread::spawnThread` refuses a spawned object and does nothing; otherwise it
calls `pthread_create` once, and the result decides. -/
theorem spawnThread_cases (env : PthreadEnv) (valid : p < m.objects.size) :
    ((m.deref p).bThreadSpawned = true ∧ RtpThread.spawnThread env m p = (.sFail, m)) ∨
    (env.create m.system.calls.length ≠ 0 ∧ (RtpThread.spawnThread env m p).1 = .sFail ∧
      SpawnFailed env m p (RtpThread.spawnThread env m p).2) ∨
    (env.create m.system.calls.length = 0 ∧ (RtpThread.spawnThread env m p).1 = .sOk ∧
      Spawned m p (RtpThread.spawnThread env m p).2) := by
  cases flag : (m.deref p).bThreadSpawned with
  | true => exact .inl ⟨rfl, by simp [RtpThread.spawnThread, flag]⟩
  | false =>
      by_cases created : env.create m.system.calls.length = 0
      · refine .inr (.inr ⟨created, ?_, ?_⟩)
        · simp [RtpThread.spawnThread, flag, ThreadSystem.pthreadCreate, created]
        · have result : (RtpThread.spawnThread env m p).2 =
              (setHandler { m with system :=
                ⟨m.system.threads.add ⟨p, (m.deref p).pThreadRoutine, .detached, false, false⟩,
                  m.system.calls ++ [.create p ⟨.detached⟩ 0]⟩ }
                p (m.system.threads.size + 1)).setSpawned p := by
            simp [RtpThread.spawnThread, flag, ThreadSystem.pthreadCreate, created,
              PthreadAttr.setdetachstate]
          rw [result]
          exact ⟨flag, rfl, by simp [setSpawned, setHandler],
            fun q => deref_setSpawned valid _ _ q, rfl, rfl⟩
      · refine .inr (.inl ⟨created, ?_, ?_⟩)
        · simp [RtpThread.spawnThread, flag, ThreadSystem.pthreadCreate, created]
        · have result : (RtpThread.spawnThread env m p).2 =
              setHandler { m with system :=
                ⟨m.system.threads, m.system.calls ++
                  [.create p ⟨.detached⟩ (env.create m.system.calls.length)]⟩ }
                p (env.scribble m.system.calls.length) := by
            simp [RtpThread.spawnThread, flag, ThreadSystem.pthreadCreate, created,
              PthreadAttr.setdetachstate]
          rw [result]
          exact ⟨flag, rfl, by simp [setHandler],
            fun q => deref_setHandler valid _ _ q, rfl, rfl⟩

/-! ## Well-formed managers -/

/-- Every listed pointer is valid, and no two listed entries have one type. -/
structure Wf (m : RtpThreadManager) : Prop where
  valid : ∀ p ∈ m.listThreadList, p < m.objects.size
  unique : Keyed.UniqueKeys m.typeOf m.listThreadList

theorem wf_init : init.Wf := ⟨by simp [init], List.nodup_nil⟩

theorem Wf.getThread_eq_some_iff (wf : m.Wf) :
    m.getThread eType = some p ↔ p ∈ m.listThreadList ∧ m.typeOf p = eType :=
  Keyed.find_eq_some_iff wf.unique

theorem getThread_eq_none_iff :
    m.getThread eType = none ↔ ∀ p ∈ m.listThreadList, m.typeOf p ≠ eType :=
  Keyed.find_eq_none_iff

/-- Replacing an object by one of its type changes no type. -/
theorem typeOf_replaced {t : RtpThread}
    (replaced : ∀ q, m'.deref q = if q = p then t else m.deref q)
    (type : t.eThreadType = m.typeOf p) (q : Nat) : m'.typeOf q = m.typeOf q := by
  rw [typeOf, replaced q]
  split
  · next same => rw [type, same]
  · rfl

theorem Spawned.typeOf (h : Spawned m p m') : ∀ q, m'.typeOf q = m.typeOf q :=
  typeOf_replaced h.deref rfl

theorem SpawnFailed.typeOf (h : SpawnFailed env m p m') : ∀ q, m'.typeOf q = m.typeOf q :=
  typeOf_replaced h.deref rfl

theorem Spawned.wf (h : Spawned m p m') (wf : m.Wf) : m'.Wf :=
  ⟨h.list ▸ h.size ▸ wf.valid, h.list ▸ wf.unique.congr fun q _ => h.typeOf q⟩

theorem SpawnFailed.wf (h : SpawnFailed env m p m') (wf : m.Wf) : m'.Wf :=
  ⟨h.list ▸ h.size ▸ wf.valid, h.list ▸ wf.unique.congr fun q _ => h.typeOf q⟩

/-- The manager `addThread` leaves when the type is absent. -/
theorem addThread_of_absent {pRoutine : RtpThreadRoutine} (absent : m.getThread eType = none) :
    m.addThread eType pRoutine =
      (.sOk, { m with
        objects := m.objects.add (.new eType pRoutine)
        listThreadList := m.listThreadList ++ [m.objects.size] }) := by
  rw [addThread, absent]

theorem deref_add {t : RtpThread} {list : List Nat} {system : ThreadSystem} (q : Nat) :
    deref ⟨m.objects.add t, list, system⟩ q =
      if q = m.objects.size then t else m.deref q := by
  unfold deref
  rw [Table.get?_add]
  split <;> rfl

theorem deref_add_of_lt {t : RtpThread} {list : List Nat} {system : ThreadSystem}
    (valid : q < m.objects.size) : deref ⟨m.objects.add t, list, system⟩ q = m.deref q := by
  rw [deref_add, if_neg (Nat.ne_of_lt valid)]

/-! ## Effects -/

/-- What spawning can do to the manager, one entry at a time. -/
inductive SpawnEffect (env : PthreadEnv) (m : RtpThreadManager) : RtpThreadManager → Prop
  | failed {p : Nat} {m' : RtpThreadManager} (listed : p ∈ m.listThreadList)
      (failed : SpawnFailed env m p m') : SpawnEffect env m m'
  | spawned {p : Nat} {m' : RtpThreadManager} (listed : p ∈ m.listThreadList)
      (spawned : Spawned m p m') : SpawnEffect env m m'

/-- What `killThread` can do to the manager. -/
inductive KillEffect (m : RtpThreadManager) : RtpThreadManager → Prop
  | killFailed {p val : Nat} (listed : p ∈ m.listThreadList)
      (flag : (m.deref p).bThreadSpawned = true) (failed : val ≠ 0) :
      KillEffect m { m with
        system := ⟨m.system.threads,
          m.system.calls ++ [.kill p (m.deref p).ulThreadHandler val]⟩ }
  | joinFailed {p val : Nat} (listed : p ∈ m.listThreadList)
      (flag : (m.deref p).bThreadSpawned = true) (failed : val ≠ 0) :
      KillEffect m { m with
        system := ⟨m.system.modifyThread (fun t => { t with signalled := true })
            (m.deref p).ulThreadHandler,
          m.system.calls ++ [.kill p (m.deref p).ulThreadHandler 0,
            .join p (m.deref p).ulThreadHandler val]⟩ }
  | killed {p : Nat} (listed : p ∈ m.listThreadList)
      (flag : (m.deref p).bThreadSpawned = true) :
      KillEffect m { m with
        system := ⟨m.system.modifyThread (fun t => { t with signalled := true, joined := true })
            (m.deref p).ulThreadHandler,
          m.system.calls ++ [.kill p (m.deref p).ulThreadHandler 0,
            .join p (m.deref p).ulThreadHandler 0]⟩ }

/-- What an operation can do to the manager, one thing at a time. -/
inductive Effect (env : PthreadEnv) (m : RtpThreadManager) : RtpThreadManager → Prop
  | added {eType : RtpThreadType} {pRoutine : RtpThreadRoutine}
      (absent : m.getThread eType = none) :
      Effect env m { m with
        objects := m.objects.add (.new eType pRoutine)
        listThreadList := m.listThreadList ++ [m.objects.size] }
  | spawn {m' : RtpThreadManager} (effect : SpawnEffect env m m') : Effect env m m'
  | kill {m' : RtpThreadManager} (effect : KillEffect m m') : Effect env m m'
  | erased {eType : RtpThreadType} : Effect env m (m.cleanThread eType)
  | cleared : Effect env m { m with listThreadList := [] }

theorem SpawnEffect.wf (h : SpawnEffect env m m') (wf : m.Wf) : m'.Wf := by
  cases h with
  | failed listed failed => exact failed.wf wf
  | spawned listed spawned => exact spawned.wf wf

theorem KillEffect.wf (h : KillEffect m m') (wf : m.Wf) : m'.Wf := by
  cases h with
  | killFailed | joinFailed | killed => exact ⟨wf.valid, wf.unique⟩

theorem Effect.wf (h : Effect env m m') (wf : m.Wf) : m'.Wf := by
  cases h with
  | @added eType pRoutine absent =>
      refine ⟨fun q member => ?_, ?_⟩
      · rw [List.mem_append, List.mem_singleton] at member
        rw [Table.size_add]
        rcases member with member | rfl
        · exact Nat.lt_succ_of_lt (wf.valid q member)
        · exact Nat.lt_succ_self _
      · have old : ∀ q ∈ m.listThreadList,
            typeOf ⟨m.objects.add (.new eType pRoutine),
              m.listThreadList ++ [m.objects.size], m.system⟩ q = m.typeOf q := fun q member =>
          congrArg RtpThread.eThreadType (deref_add_of_lt (wf.valid q member))
        refine (wf.unique.congr old).append fun q member => ?_
        rw [old q member]
        simpa [typeOf, deref, RtpThread.new] using getThread_eq_none_iff.mp absent q member
  | spawn effect => exact effect.wf wf
  | kill effect => exact effect.wf wf
  | erased =>
      exact ⟨fun q member => wf.valid q ((Keyed.mem_erase_iff wf.unique).mp member).1,
        wf.unique.erase⟩
  | cleared => exact ⟨by simp, List.nodup_nil⟩

/-! ## Threads after an effect -/

theorem Spawned.thread? (h : Spawned m p m') (g : RtpThreadHandler) :
    m'.system.thread? g =
      if g = m.system.threads.size + 1 then
        some ⟨p, (m.deref p).pThreadRoutine, .detached, false, false⟩
      else m.system.thread? g := by
  rw [← ThreadSystem.thread?_add _ m'.system.calls, ← h.threads]

theorem SpawnFailed.thread? (h : SpawnFailed env m p m') (g : RtpThreadHandler) :
    m'.system.thread? g = m.system.thread? g :=
  ThreadSystem.thread?_congr h.threads

theorem KillEffect.objects (h : KillEffect m m') :
    m'.objects = m.objects ∧ m'.listThreadList = m.listThreadList := by
  cases h with
  | killFailed | joinFailed | killed => exact ⟨rfl, rfl⟩

/-- A kill keeps a thread's creator and detach state, and never undoes a join. -/
theorem KillEffect.thread_of (h : KillEffect m m') {g : RtpThreadHandler} {t' : Pthread}
    (after : m'.system.thread? g = some t') :
    ∃ t, m.system.thread? g = some t ∧ t'.creator = t.creator ∧
      t'.detachstate = t.detachstate ∧ (t'.joined = false → t.joined = false) := by
  cases h with
  | killFailed listed flag failed =>
      have same : m.system.thread? g = some t' := by
        cases g with
        | zero => cases after
        | succ i => exact after
      exact ⟨t', same, rfl, rfl, id⟩
  | joinFailed | killed =>
      rw [ThreadSystem.thread?_modifyThread] at after
      split at after
      · obtain ⟨t, before, rfl⟩ := Option.map_eq_some_iff.mp after
        exact ⟨t, before, rfl, rfl, by simp⟩
      · exact ⟨t', after, rfl, rfl, id⟩

/-- An invariant kept by each effect is kept by effects one after another. -/
theorem effects_invariant {R : RtpThreadManager → RtpThreadManager → Prop}
    {P : RtpThreadManager → Prop} (kept : ∀ m m', P m → R m m' → P m') (initial : P m)
    (h : Relation.ReflTransGen R m m') : P m' := by
  induction h with
  | refl => exact initial
  | tail _ effect ih => exact kept _ _ ih effect

/-- Spawning entries one after another. -/
abbrev SpawnEffects (env : PthreadEnv) : RtpThreadManager → RtpThreadManager → Prop :=
  Relation.ReflTransGen (SpawnEffect env)

/-- Spawning one listed entry keeps the list. -/
theorem entry_spawnEffects (env : PthreadEnv) (wf : m.Wf) (listed : p ∈ m.listThreadList) :
    SpawnEffects env m (RtpThread.spawnThread env m p).2 ∧
      (RtpThread.spawnThread env m p).2.listThreadList = m.listThreadList := by
  rcases spawnThread_cases env (wf.valid p listed) with
    ⟨_, refused⟩ | ⟨_, _, failed⟩ | ⟨_, _, spawned⟩
  · rw [refused]
    exact ⟨.refl, rfl⟩
  · exact ⟨.single (.failed listed failed), failed.list⟩
  · exact ⟨.single (.spawned listed spawned), spawned.list⟩

theorem spawnFrom_effects {ps : List Nat} (wf : m.Wf)
    (listed : ∀ p ∈ ps, p ∈ m.listThreadList) :
    SpawnEffects env m (m.spawnFrom env ps).2 := by
  induction ps generalizing m with
  | nil => exact .refl
  | cons p ps ih =>
      have rest : ∀ q ∈ ps, q ∈ m.listThreadList :=
        fun q member => listed q (List.mem_cons_of_mem p member)
      rw [spawnFrom]
      split
      · exact ih wf rest
      · obtain ⟨first, list⟩ := entry_spawnEffects env wf (listed p List.mem_cons_self)
        have wf' := effects_invariant (fun _ _ wf effect => effect.wf wf) wf first
        split
        · next n result =>
            rw [result] at first list wf'
            exact first.trans (ih wf' (list ▸ rest))
        · next n result =>
            rw [result] at first
            exact first

theorem spawnThread_effects (wf : m.Wf) (eType : RtpThreadType) :
    SpawnEffects env m (m.spawnThread env eType).2 := by
  unfold spawnThread
  split
  · exact .refl
  · next p found =>
      split
      · exact .refl
      · exact (entry_spawnEffects env wf (wf.getThread_eq_some_iff.mp found).1).1

/-- `killThread` refuses an absent or unspawned entry and does nothing; otherwise it
stops at the first call that fails. -/
theorem killThread_cases (env : PthreadEnv) (m : RtpThreadManager) (eType : RtpThreadType) :
    (m.killThread env eType = (.sFail, m) ∧
      ∀ p, m.getThread eType = some p → (m.deref p).bThreadSpawned = false) ∨
    ∃ p, m.getThread eType = some p ∧ (m.deref p).bThreadSpawned = true ∧
      let handler := (m.deref p).ulThreadHandler
      let n := m.system.calls.length
      ((env.kill n ≠ 0 ∧ m.killThread env eType =
          (.sFail, { m with system :=
            ⟨m.system.threads, m.system.calls ++ [.kill p handler (env.kill n)]⟩ })) ∨
        (env.kill n = 0 ∧ env.join (n + 1) ≠ 0 ∧ m.killThread env eType =
          (.sFail, { m with system :=
            ⟨m.system.modifyThread (fun t => { t with signalled := true }) handler,
              m.system.calls ++
                [.kill p handler 0, .join p handler (env.join (n + 1))]⟩ })) ∨
        (env.kill n = 0 ∧ m.killThread env eType =
          (.sOk, { m with system :=
            ⟨m.system.modifyThread (fun t => { t with signalled := true, joined := true })
                handler,
              m.system.calls ++ [.kill p handler 0, .join p handler 0]⟩ }))) := by
  cases found : m.getThread eType with
  | none => exact .inl ⟨by rw [killThread, found], by simp⟩
  | some p =>
      cases flag : (m.deref p).bThreadSpawned with
      | false => exact .inl ⟨by simp [killThread, found, flag], by simpa using flag⟩
      | true =>
          refine .inr ⟨p, rfl, flag, ?_⟩
          by_cases killed : env.kill m.system.calls.length = 0
          · by_cases joined : env.join (m.system.calls.length + 1) = 0
            · refine .inr (.inr ⟨killed, ?_⟩)
              simp [killThread, found, flag, ThreadSystem.pthreadKill, killed,
                ThreadSystem.pthreadJoin, joined, ThreadSystem.modifyThread_modifyThread,
                Function.comp_def]
            · refine .inr (.inl ⟨killed, joined, ?_⟩)
              simp [killThread, found, flag, ThreadSystem.pthreadKill, killed,
                ThreadSystem.pthreadJoin, joined]
          · exact .inl ⟨killed, by
              simp [killThread, found, flag, ThreadSystem.pthreadKill, killed]⟩

theorem killThread_effect (wf : m.Wf) (env : PthreadEnv) (eType : RtpThreadType) :
    (m.killThread env eType).2 = m ∨ KillEffect m (m.killThread env eType).2 := by
  rcases killThread_cases env m eType with
    ⟨refused, _⟩ | ⟨p, found, flag, ⟨failed, result⟩ | ⟨_, failed, result⟩ | ⟨_, result⟩⟩
  · rw [refused]
    exact .inl rfl
  · rw [result]
    exact .inr (.killFailed (wf.getThread_eq_some_iff.mp found).1 flag failed)
  · rw [result]
    exact .inr (.joinFailed (wf.getThread_eq_some_iff.mp found).1 flag failed)
  · rw [result]
    exact .inr (.killed (wf.getThread_eq_some_iff.mp found).1 flag)

/-- `addThread` refuses a listed type and does nothing. -/
theorem addThread_effect (env : PthreadEnv) (m : RtpThreadManager) (eType : RtpThreadType)
    (pRoutine : RtpThreadRoutine) :
    (m.addThread eType pRoutine).2 = m ∨ Effect env m (m.addThread eType pRoutine).2 := by
  cases found : m.getThread eType with
  | some p =>
      rw [addThread, found]
      exact .inl rfl
  | none =>
      rw [addThread_of_absent found]
      exact .inr (.added found)

theorem cleanAllThreads_eq (m : RtpThreadManager) :
    m.cleanAllThreads = { m with listThreadList := [] } := by
  unfold cleanAllThreads
  split
  · rfl
  · next empty =>
      have nil : m.listThreadList = [] := List.eq_nil_of_length_eq_zero (of_not_not empty)
      rw [← nil]

/-- Every operation is a sequence of effects. -/
theorem step_effects {op : ManagerOp} (wf : m.Wf) (h : step env m op = some m') :
    Relation.ReflTransGen (Effect env) m m' := by
  cases op with
  | addThread eType pRoutine =>
      cases h
      rcases addThread_effect env m eType pRoutine with same | effect
      · rw [same]
      · exact .single effect
  | getThread eType => cases h; exact .refl
  | spawnThread eType =>
      cases h
      exact Relation.ReflTransGen.mono (fun _ _ => .spawn) _ _ (spawnThread_effects wf eType)
  | spawnAllThreads =>
      cases h
      exact Relation.ReflTransGen.mono (fun _ _ => .spawn) _ _
        (spawnFrom_effects wf fun p member => member)
  | killThread eType =>
      cases h
      rcases killThread_effect wf env eType with same | effect
      · rw [same]
      · exact .single (.kill effect)
  | killAllThreads => cases h; exact .refl
  | cleanThread eType => cases h; exact .single .erased
  | cleanAllThreads =>
      cases h
      rw [cleanAllThreads_eq]
      exact .single .cleared

/-- An invariant kept by every effect is kept by every operation. -/
theorem step_invariant {P : RtpThreadManager → Prop} {op : ManagerOp}
    (kept : ∀ m m', m.Wf → P m → Effect env m m' → P m') (wf : m.Wf) (initial : P m)
    (h : step env m op = some m') : P m' :=
  (effects_invariant (P := fun m => m.Wf ∧ P m)
    (fun _ _ ⟨wf, here⟩ effect => ⟨effect.wf wf, kept _ _ wf here effect⟩) ⟨wf, initial⟩
    (step_effects wf h)).2

theorem step_wf {op : ManagerOp} (wf : m.Wf) (h : step env m op = some m') : m'.Wf :=
  step_invariant (fun _ _ wf _ effect => effect.wf wf) wf wf h

/-- Every run from the empty manager leaves a well-formed one. -/
theorem run_wf {ops : List ManagerOp} (reached : run (step env) init ops = some m) : m.Wf :=
  run_invariant (fun _ _ _ => step_wf) wf_init reached

/-- Every operation can be called in every state. -/
theorem run_total (env : PthreadEnv) (m : RtpThreadManager) (ops : List ManagerOp) :
    ∃ m', run (step env) m ops = some m' :=
  exists_run (fun _ op => by cases op <;> exact ⟨_, rfl⟩) m ops

end RtpThreadManager

end OpenRtp
