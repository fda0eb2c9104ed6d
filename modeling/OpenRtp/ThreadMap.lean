import Mathlib.Logic.Function.Basic
import OpenRtp.RtpThreadManager

/-!
# The thread manager as a finite map

What the manager is for: a partial map from thread types to a routine and whether
it was spawned.  `RtpThreadManager.asMap` reads that map off the list, every
operation acts on it as the map operation of the same name (`RefinesMap`), and a
whole run is a run of the map (`run_refines_map`).
-/

namespace OpenRtp

/-- The routine bound to each type, and whether it was spawned. -/
abbrev ThreadMap := RtpThreadType → Option (RtpThreadRoutine × Bool)

/-- A change of the map. -/
inductive MapAction
  | bind (eType : RtpThreadType) (pRoutine : RtpThreadRoutine)
  | markSpawned (eType : RtpThreadType)
  | unbind (eType : RtpThreadType)
  | clear

namespace ThreadMap

def empty : ThreadMap := fun _ => none

/-- Only an unbound type can be bound, and only an unspawned one marked spawned. -/
def step (bindings : ThreadMap) : MapAction → Option ThreadMap
  | .bind eType pRoutine =>
      if bindings eType = none then some (Function.update bindings eType (some (pRoutine, false)))
      else none
  | .markSpawned eType =>
      match bindings eType with
      | some (pRoutine, false) => some (Function.update bindings eType (some (pRoutine, true)))
      | _ => none
  | .unbind eType => some (Function.update bindings eType none)
  | .clear => some empty

end ThreadMap

namespace RtpThreadManager

/-- The routine and the spawned flag of an entry. -/
def entry (t : RtpThread) : RtpThreadRoutine × Bool := (t.pThreadRoutine, t.bThreadSpawned)

/-- The map the list stands for: the first entry of each type. -/
def asMap (m : RtpThreadManager) : ThreadMap := fun eType =>
  ((m.listThreadList.map m.deref).find? fun t => eType = t.eThreadType).map entry

variable {env : PthreadEnv} {m m' : RtpThreadManager} {p : Nat} {eType : RtpThreadType}
  {pRoutine : RtpThreadRoutine}

/-! ## The map after each effect -/

/-- `getThread` is the lookup. -/
theorem asMap_eq_getThread (m : RtpThreadManager) (eType : RtpThreadType) :
    m.asMap eType = (m.getThread eType).map fun p => entry (m.deref p) := by
  rw [asMap, List.find?_map, Option.map_map]
  rfl

theorem asMap_eq_none_iff : m.asMap eType = none ↔ m.getThread eType = none := by
  rw [asMap_eq_getThread, Option.map_eq_none_iff]

theorem Wf.asMap_typeOf (wf : m.Wf) (listed : p ∈ m.listThreadList) :
    m.asMap (m.typeOf p) = some (entry (m.deref p)) := by
  rw [asMap_eq_getThread, wf.getThread_eq_some_iff.mpr ⟨listed, rfl⟩, Option.map_some]

/-- Two managers whose entries of a type agree bind that type alike. -/
theorem asMap_congr (list : m'.listThreadList = m.listThreadList)
    (types : ∀ q, m'.typeOf q = m.typeOf q)
    (entries : ∀ q, m.typeOf q = eType → entry (m'.deref q) = entry (m.deref q)) :
    m'.asMap eType = m.asMap eType := by
  have same : m'.getThread eType = m.getThread eType := by
    rw [getThread, list]
    exact Keyed.find_congr fun q _ => types q
  rw [asMap_eq_getThread, asMap_eq_getThread, same]
  exact Option.map_congr fun q found => entries q (Keyed.mem_of_find found).2

theorem asMap_added (wf : m.Wf) (absent : m.getThread eType = none) :
    asMap { m with
        objects := m.objects.add (.new eType pRoutine)
        listThreadList := m.listThreadList ++ [m.objects.size] } =
      Function.update m.asMap eType (some (pRoutine, false)) := by
  have old : ∀ q ∈ m.listThreadList,
      deref ⟨m.objects.add (.new eType pRoutine), m.listThreadList ++ [m.objects.size],
        m.system⟩ q = m.deref q := fun q member => deref_add_of_lt (wf.valid q member)
  funext e
  rw [asMap, List.map_append, List.map_congr_left old, List.find?_append, Option.map_or]
  rcases eq_or_ne e eType with rfl | other
  · have none := asMap_eq_none_iff.mpr absent
    rw [asMap] at none
    rw [none, Function.update_self]
    simp [deref, RtpThread.new, entry]
  · rw [Function.update_of_ne other, asMap]
    simp [deref, RtpThread.new, other]

theorem asMap_spawned (wf : m.Wf) (listed : p ∈ m.listThreadList) (h : Spawned m p m') :
    m'.asMap =
      Function.update m.asMap (m.typeOf p) (some ((m.deref p).pThreadRoutine, true)) := by
  funext e
  rcases eq_or_ne e (m.typeOf p) with rfl | other
  · have here := (h.wf wf).asMap_typeOf (h.list ▸ listed)
    rw [h.typeOf p] at here
    rw [here, Function.update_self, h.deref p, if_pos rfl, entry]
  · rw [Function.update_of_ne other]
    refine asMap_congr h.list h.typeOf fun q type => ?_
    rw [h.deref q, if_neg]
    rintro rfl
    exact other type.symm

theorem asMap_spawnFailed (h : SpawnFailed env m p m') : m'.asMap = m.asMap := by
  funext e
  refine asMap_congr h.list h.typeOf fun q _ => ?_
  rw [h.deref q]
  split
  · next same => rw [same]; rfl
  · rfl

theorem asMap_cleanThread (wf : m.Wf) (eType : RtpThreadType) :
    (m.cleanThread eType).asMap = Function.update m.asMap eType none := by
  funext e
  have lookup := Keyed.find_erase wf.unique eType e
  rw [asMap_eq_getThread, getThread]
  rcases eq_or_ne e eType with rfl | other
  · rw [if_pos rfl] at lookup
    rw [Function.update_self]
    exact congrArg _ lookup
  · rw [if_neg other] at lookup
    rw [Function.update_of_ne other, asMap_eq_getThread]
    exact congrArg _ lookup

theorem asMap_cleanAllThreads (m : RtpThreadManager) :
    m.cleanAllThreads.asMap = ThreadMap.empty := by
  rw [cleanAllThreads_eq]
  rfl

/-! ## Each operation is the map operation of the same name -/

/-- What every operation returns and does, in terms of the map. -/
structure RefinesMap (env : PthreadEnv) (m : RtpThreadManager) : Prop where
  unique : ∀ eType, (m.listThreadList.filter fun p => m.typeOf p = eType).length ≤ 1
  getThread : ∀ eType,
    (m.getThread eType).map (fun p => entry (m.deref p)) = m.asMap eType ∧
      (m.getThread eType = none ↔ m.asMap eType = none)
  addThread_present : ∀ eType pRoutine, m.asMap eType ≠ none →
    m.addThread eType pRoutine = (.sFail, m)
  addThread_absent : ∀ eType pRoutine, m.asMap eType = none →
    (m.addThread eType pRoutine).1 = .sOk ∧
      (m.addThread eType pRoutine).2.asMap =
        Function.update m.asMap eType (some (pRoutine, false))
  spawnThread_refused : ∀ eType, (∀ pRoutine, m.asMap eType ≠ some (pRoutine, false)) →
    m.spawnThread env eType = (.sFail, m)
  spawnThread_created : ∀ eType pRoutine, m.asMap eType = some (pRoutine, false) →
    ∃ p, m.getThread eType = some p ∧
      (m.spawnThread env eType).2.system.calls = m.system.calls ++
        [.create p ⟨.detached⟩ (env.create m.system.calls.length)] ∧
      ((m.spawnThread env eType).1 = .sOk ↔ env.create m.system.calls.length = 0) ∧
      (m.spawnThread env eType).2.asMap =
        if env.create m.system.calls.length = 0 then
          Function.update m.asMap eType (some (pRoutine, true))
        else m.asMap
  cleanThread : ∀ eType,
    (m.cleanThread eType).asMap = Function.update m.asMap eType none ∧
      (m.cleanThread eType).getThread eType = none ∧
      ∀ pRoutine, ((m.cleanThread eType).addThread eType pRoutine).1 = .sOk
  cleanAllThreads : m.cleanAllThreads.asMap = ThreadMap.empty

/-- On an entry that is not spawned, the manager defers to the entry. -/
theorem spawnThread_of_unspawned (found : m.getThread eType = some p)
    (flag : (m.deref p).bThreadSpawned = false) :
    m.spawnThread env eType = RtpThread.spawnThread env m p := by
  simp [spawnThread, found, flag]

theorem spawnThread_of_refused (refused : ∀ pRoutine, m.asMap eType ≠ some (pRoutine, false)) :
    m.spawnThread env eType = (.sFail, m) := by
  cases found : m.getThread eType with
  | none => simp [spawnThread, found]
  | some p =>
      cases flag : (m.deref p).bThreadSpawned with
      | true => simp [spawnThread, found, flag]
      | false =>
          refine absurd ?_ (refused (m.deref p).pThreadRoutine)
          rw [asMap_eq_getThread, found, Option.map_some, entry, flag]

/-- A type bound to an unspawned entry has that entry listed. -/
theorem getThread_of_asMap {spawned : Bool} (bound : m.asMap eType = some (pRoutine, spawned)) :
    ∃ p, m.getThread eType = some p ∧ (m.deref p).pThreadRoutine = pRoutine ∧
      (m.deref p).bThreadSpawned = spawned := by
  rw [asMap_eq_getThread, Option.map_eq_some_iff] at bound
  obtain ⟨p, found, same⟩ := bound
  cases same
  exact ⟨p, found, rfl, rfl⟩

/-- Spawning a type that is bound and not spawned makes one call for its entry, and the
system's answer to that call decides. -/
theorem spawnThread_of_bound (wf : m.Wf) (bound : m.asMap eType = some (pRoutine, false)) :
    ∃ p, m.getThread eType = some p ∧
      (m.spawnThread env eType).2.system.calls = m.system.calls ++
        [.create p ⟨.detached⟩ (env.create m.system.calls.length)] ∧
      ((m.spawnThread env eType).1 = .sOk ↔ env.create m.system.calls.length = 0) ∧
      (m.spawnThread env eType).2.asMap =
        if env.create m.system.calls.length = 0 then
          Function.update m.asMap eType (some (pRoutine, true))
        else m.asMap := by
  obtain ⟨p, found, routine, flag⟩ := getThread_of_asMap bound
  obtain ⟨listed, type⟩ := wf.getThread_eq_some_iff.mp found
  rw [spawnThread_of_unspawned found flag]
  refine ⟨p, found, ?_⟩
  rcases spawnThread_cases env (wf.valid p listed) with
    ⟨spawned, _⟩ | ⟨failed, result, effect⟩ | ⟨created, result, effect⟩
  · rw [flag] at spawned
    cases spawned
  · refine ⟨effect.calls, ?_, ?_⟩
    · rw [result]
      simpa using failed
    · rw [if_neg failed, asMap_spawnFailed effect]
  · refine ⟨?_, ?_, ?_⟩
    · rw [created]
      exact effect.calls
    · rw [result]
      simpa using created
    · rw [if_pos created, asMap_spawned wf listed effect, type, routine]

theorem Wf.refinesMap (wf : m.Wf) (env : PthreadEnv) : RefinesMap env m where
  unique := wf.unique.length_filter_le_one
  getThread eType := ⟨(asMap_eq_getThread m eType).symm, asMap_eq_none_iff.symm⟩
  addThread_present eType pRoutine present := by
    cases found : m.getThread eType with
    | none => exact absurd (asMap_eq_none_iff.mpr found) present
    | some p => rw [addThread, found]
  addThread_absent eType pRoutine absent := by
    rw [addThread_of_absent (asMap_eq_none_iff.mp absent)]
    exact ⟨rfl, asMap_added wf (asMap_eq_none_iff.mp absent)⟩
  spawnThread_refused eType refused := spawnThread_of_refused refused
  spawnThread_created eType pRoutine bound := spawnThread_of_bound wf bound
  cleanThread eType := by
    have unbound := asMap_cleanThread wf eType
    have absent : (m.cleanThread eType).getThread eType = none := by
      rw [← asMap_eq_none_iff, unbound, Function.update_self]
    refine ⟨unbound, absent, fun pRoutine => ?_⟩
    rw [addThread_of_absent absent]
  cleanAllThreads := asMap_cleanAllThreads m

/-! ## Whole runs -/

/-- What the loop of `spawnAllThreads` does to the map. -/
def spawnActions (env : PthreadEnv) (m : RtpThreadManager) : List Nat → List MapAction
  | [] => []
  | p :: ps =>
      if (m.deref p).bThreadSpawned then spawnActions env m ps
      else
        match RtpThread.spawnThread env m p with
        | (.sOk, m') => .markSpawned (m.typeOf p) :: spawnActions env m' ps
        | (.sFail, _) => []

/-- What an operation does to the map. -/
def perform (env : PthreadEnv) (m : RtpThreadManager) : ManagerOp → List MapAction
  | .addThread eType pRoutine =>
      if (m.addThread eType pRoutine).1 = .sOk then [.bind eType pRoutine] else []
  | .getThread _ => []
  | .spawnThread eType =>
      if (m.spawnThread env eType).1 = .sOk then [.markSpawned eType] else []
  | .spawnAllThreads => spawnActions env m m.listThreadList
  | .killThread _ => []
  | .killAllThreads => []
  | .cleanThread eType => [.unbind eType]
  | .cleanAllThreads => [.clear]

theorem step_markSpawned (bound : m.asMap eType = some (pRoutine, false)) :
    ThreadMap.step m.asMap (.markSpawned eType) =
      some (Function.update m.asMap eType (some (pRoutine, true))) := by
  rw [ThreadMap.step, bound]

theorem spawnFrom_refines {ps : List Nat} (wf : m.Wf)
    (listed : ∀ p ∈ ps, p ∈ m.listThreadList) :
    run ThreadMap.step m.asMap (spawnActions env m ps) =
      some (m.spawnFrom env ps).2.asMap := by
  induction ps generalizing m with
  | nil => rfl
  | cons p ps ih =>
      have here := listed p List.mem_cons_self
      have rest : ∀ q ∈ ps, q ∈ m.listThreadList :=
        fun q member => listed q (List.mem_cons_of_mem p member)
      rw [spawnFrom, spawnActions]
      split
      · exact ih wf rest
      · obtain ⟨ret, m', spawn⟩ : ∃ ret m', RtpThread.spawnThread env m p = (ret, m') :=
          ⟨_, _, rfl⟩
        have cases := spawnThread_cases env (wf.valid p here)
        rw [spawn] at cases ⊢
        rcases cases with ⟨spawned, _⟩ | ⟨_, rfl, effect⟩ | ⟨_, rfl, effect⟩
        · contradiction
        · exact congrArg some (asMap_spawnFailed effect).symm
        · have bound : m.asMap (m.typeOf p) = some ((m.deref p).pThreadRoutine, false) := by
            rw [wf.asMap_typeOf here, entry, effect.unspawned]
          refine run_cons_iff.mpr ⟨_, step_markSpawned bound, ?_⟩
          rw [← asMap_spawned wf here effect]
          exact ih (effect.wf wf) (effect.list ▸ rest)

theorem step_refines {op : ManagerOp} (wf : m.Wf) (h : step env m op = some m') :
    run ThreadMap.step m.asMap (perform env m op) = some m'.asMap := by
  have spec := wf.refinesMap env
  cases op with
  | addThread eType pRoutine =>
      cases h
      by_cases present : m.asMap eType = none
      · obtain ⟨result, bound⟩ := spec.addThread_absent eType pRoutine present
        rw [perform, if_pos result, bound]
        simp [run, ThreadMap.step, present]
      · rw [perform, spec.addThread_present eType pRoutine present]
        rfl
  | getThread eType => cases h; rfl
  | spawnThread eType =>
      cases h
      by_cases refused : ∀ pRoutine, m.asMap eType ≠ some (pRoutine, false)
      · rw [perform, spec.spawnThread_refused eType refused]
        rfl
      · push Not at refused
        obtain ⟨pRoutine, bound⟩ := refused
        obtain ⟨p, _, _, result, map⟩ := spec.spawnThread_created eType pRoutine bound
        rw [perform, map]
        by_cases created : env.create m.system.calls.length = 0
        · rw [if_pos (result.mpr created), if_pos created]
          exact run_cons_iff.mpr ⟨_, step_markSpawned bound, rfl⟩
        · rw [if_neg (mt result.mp created), if_neg created]
          rfl
  | spawnAllThreads => cases h; exact spawnFrom_refines wf fun p member => member
  | killThread eType =>
      cases h
      rcases killThread_cases env m eType with
        ⟨refused, _⟩ | ⟨p, found, flag, ⟨_, result⟩ | ⟨_, _, result⟩ | ⟨_, result⟩⟩
      · rw [refused]; rfl
      · rw [result]; rfl
      · rw [result]; rfl
      · rw [result]; rfl
  | killAllThreads => cases h; rfl
  | cleanThread eType =>
      cases h
      rw [asMap_cleanThread wf]
      rfl
  | cleanAllThreads =>
      cases h
      rw [asMap_cleanAllThreads]
      rfl

/-- **The thread manager is a finite map.**  Whatever the outcomes of the pthread
calls, in every state a run from the empty manager reaches each operation is the map
operation of its name, and the whole run is a run of the map. -/
theorem run_refines_map {ops : List ManagerOp} (reached : run (step env) init ops = some m) :
    RefinesMap env m ∧
      run ThreadMap.step ThreadMap.empty (trace (step env) (perform env) init ops) =
        some m.asMap := by
  refine ⟨(run_wf reached).refinesMap env, ?_⟩
  refine run_refines (I := Wf) (C := fun _ _ => True)
    (fun _ _ _ wf _ => step_wf wf) (fun _ _ _ wf _ => step_refines wf) wf_init ?_ reached
  exact along_trivial _ _

/-- A run that adds two types, spawns one, drops it and adds it again. -/
def respawnedRun : List ManagerOp :=
  [.addThread .main (some 1), .addThread .capture none, .addThread .main (some 2),
    .spawnThread .main, .spawnThread .main, .cleanThread .main, .addThread .main (some 3)]

theorem respawnedRun_refines_map :
    let m := (run (step .succeeding) init respawnedRun).getD init
    RefinesMap .succeeding m ∧
      run ThreadMap.step ThreadMap.empty
        (trace (step .succeeding) (perform .succeeding) init respawnedRun) = some m.asMap :=
  run_refines_map rfl

end RtpThreadManager

end OpenRtp
