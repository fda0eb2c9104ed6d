import Mathlib.Data.Fintype.Basic
import OpenRtp.Base.CheckThenAct
import OpenRtp.RtpThreadManager

/-!
# Concurrent registration

Any number of callers of `addThread`, interleaved step by step.  The scan of
`getThread` comes before the lock, so the mutex protects the list and not the check:
a caller that found its type absent is a claimant of that type until its entry is in
the list, and `AloneAtScan` is what the callers must add for types to stay unique.
-/

namespace OpenRtp

/-- The arguments of one call of `addThread`. -/
structure AddCall where
  eType : RtpThreadType
  pRoutine : RtpThreadRoutine
deriving DecidableEq, Repr

/-- How far a call has come. -/
inductive AddPhase
  | called
  /-- `getThread` returned `NULL`. -/
  | absent
  | allocated (pThread : Nat)
  | locked (pThread : Nat)
  /-- The entry is in the list, the mutex still held. -/
  | pushed
  | returned (ret : RtpResult)
deriving DecidableEq, Repr

namespace AddPhase

/-- The scan found nothing and the entry is not in the list yet. -/
def isPending : AddPhase → Bool
  | .absent => true
  | .allocated _ => true
  | .locked _ => true
  | _ => false

/-- The entry went into the list. -/
def isActed : AddPhase → Bool
  | .pushed => true
  | .returned .sOk => true
  | _ => false

/-- The call has scanned and not returned. -/
def isInProgress : AddPhase → Bool
  | .called => false
  | .returned _ => false
  | _ => true

/-- The entry the call has allocated and not yet listed. -/
def unlisted : AddPhase → Option Nat
  | .allocated pThread => some pThread
  | .locked pThread => some pThread
  | _ => none

end AddPhase

/-- The manager, the holder of `m_mtxThreadManagerMutex`, and the callers. -/
structure AddState (ι : Type*) where
  manager : RtpThreadManager
  mutex : Option ι
  phase : ι → AddPhase

namespace AddState

variable {ι : Type*} [DecidableEq ι] {calls : ι → AddCall} {s s' : AddState ι} {i j : ι}

def init : AddState ι := ⟨RtpThreadManager.init, none, fun _ => .called⟩

def enter (s : AddState ι) (i : ι) (phase : AddPhase) : AddState ι :=
  { s with phase := Function.update s.phase i phase }

/-- The next step of caller `i`; it waits while another caller holds the mutex. -/
def step (calls : ι → AddCall) (s : AddState ι) (i : ι) : Option (AddState ι) :=
  match s.phase i with
  | .called =>
      match s.manager.getThread (calls i).eType with
      | some _ => some (s.enter i (.returned .sFail))
      | none => some (s.enter i .absent)
  | .absent =>
      some (enter { s with manager :=
        { s.manager with
          objects := s.manager.objects.add (.new (calls i).eType (calls i).pRoutine) } }
        i (.allocated s.manager.objects.size))
  | .allocated pThread =>
      if s.mutex = none then some (enter { s with mutex := some i } i (.locked pThread))
      else none
  | .locked pThread =>
      some (enter { s with manager :=
        { s.manager with listThreadList := s.manager.listThreadList ++ [pThread] } } i .pushed)
  | .pushed => some (enter { s with mutex := none } i (.returned .sOk))
  | .returned _ => none

/-- The steps of `step`, one constructor each. -/
inductive Steps (calls : ι → AddCall) (s : AddState ι) (i : ι) : AddState ι → Prop
  | found {p : Nat} (phase : s.phase i = .called)
      (found : s.manager.getThread (calls i).eType = some p) :
      Steps calls s i (s.enter i (.returned .sFail))
  | absent (phase : s.phase i = .called)
      (absent : s.manager.getThread (calls i).eType = none) : Steps calls s i (s.enter i .absent)
  | allocate (phase : s.phase i = .absent) :
      Steps calls s i (enter { s with manager :=
        { s.manager with
          objects := s.manager.objects.add (.new (calls i).eType (calls i).pRoutine) } }
        i (.allocated s.manager.objects.size))
  | lock {p : Nat} (phase : s.phase i = .allocated p) (free : s.mutex = none) :
      Steps calls s i (enter { s with mutex := some i } i (.locked p))
  | push {p : Nat} (phase : s.phase i = .locked p) :
      Steps calls s i (enter { s with manager :=
        { s.manager with listThreadList := s.manager.listThreadList ++ [p] } } i .pushed)
  | unlock (phase : s.phase i = .pushed) :
      Steps calls s i (enter { s with mutex := none } i (.returned .sOk))

theorem Steps.of_step (h : step calls s i = some s') : Steps calls s i s' := by
  unfold step at h
  split at h
  · next phase =>
      split at h
      · next p found => cases h; exact .found phase found
      · next absent => cases h; exact .absent phase absent
  · next phase => cases h; exact .allocate phase
  · next p phase =>
      split at h
      · next free => cases h; exact .lock phase free
      · cases h
  · next p phase => cases h; exact .push phase
  · next phase => cases h; exact .unlock phase
  · cases h

/-- A caller that nobody interrupts performs `addThread`. -/
theorem addThread_alone (called : s.phase i = .called) (free : s.mutex = none) :
    let result := s.manager.addThread (calls i).eType (calls i).pRoutine
    ∃ steps, run (step calls) s (List.replicate steps i) =
      some ⟨result.2, none, Function.update s.phase i (.returned result.1)⟩ := by
  obtain ⟨manager, mutex, phase⟩ := s
  cases free
  replace called : phase i = .called := called
  cases found : manager.getThread (calls i).eType with
  | some p =>
      refine ⟨1, ?_⟩
      simp [RtpThreadManager.addThread, found, run, step, called, enter]
  | none =>
      refine ⟨5, ?_⟩
      simp [RtpThreadManager.addThread, found, List.replicate, run, step, called, enter]

/-! ## The callers as claimants -/

def claimants (phase : ι → AddPhase) : Claimants ι where
  pending := {i | (phase i).isPending = true}
  acted := {i | (phase i).isActed = true}

/-- The caller whose scan the step is. -/
def scans (s : AddState ι) (i : ι) : Option ι := if s.phase i = .called then some i else none

/-- A scan is made while no call for the same type has scanned and not yet returned. -/
def AloneAtScan (calls : ι → AddCall) (s : AddState ι) (i : ι) : Prop :=
  s.phase i = .called →
    ∀ j, (calls j).eType = (calls i).eType → (s.phase j).isInProgress = false

instance [Fintype ι] (calls : ι → AddCall) (s : AddState ι) (i : ι) :
    Decidable (AloneAtScan calls s i) :=
  inferInstanceAs (Decidable (s.phase i = .called →
    ∀ j, (calls j).eType = (calls i).eType → (s.phase j).isInProgress = false))

/-- No two listed entries have one type, and of the completed calls for a type exactly
one was accepted. -/
structure TypesUnique (calls : ι → AddCall) (s : AddState ι) : Prop where
  unique : Keyed.UniqueKeys s.manager.typeOf s.manager.listThreadList
  accepted : ∀ i ret, s.phase i = .returned ret →
    ∃! j, (calls j).eType = (calls i).eType ∧ s.phase j = .returned .sOk

/-- The list holds one valid entry for each caller that pushed, in some order. -/
structure Inv (calls : ι → AddCall) (s : AddState ι) : Prop where
  valid : ∀ p ∈ s.manager.listThreadList, p < s.manager.objects.size
  entry : ∀ i p, (s.phase i).unlisted = some p →
    p < s.manager.objects.size ∧ s.manager.typeOf p = (calls i).eType
  order : ∃ order : List ι, order.Nodup ∧ (∀ i, i ∈ order ↔ i ∈ (claimants s.phase).acted) ∧
    s.manager.listThreadList.map s.manager.typeOf = order.map fun i => (calls i).eType

section

omit [DecidableEq ι]

theorem mem_pending {phase : ι → AddPhase} :
    i ∈ (claimants phase).pending ↔ (phase i).isPending = true := Iff.rfl

theorem mem_acted {phase : ι → AddPhase} :
    i ∈ (claimants phase).acted ↔ (phase i).isActed = true := Iff.rfl

theorem inv_init : Inv calls init where
  valid p member := by cases member
  entry i p allocated := by cases allocated
  order := ⟨[], List.nodup_nil, fun i => by simp [claimants, init, AddPhase.isActed], rfl⟩

theorem Inv.unique_iff (inv : Inv calls s) :
    Keyed.UniqueKeys s.manager.typeOf s.manager.listThreadList ↔
      Set.InjOn (fun i => (calls i).eType) (claimants s.phase).acted := by
  obtain ⟨order, nodup, members, types⟩ := inv.order
  rw [Keyed.UniqueKeys, types, List.nodup_map_iff_inj_on nodup]
  exact ⟨fun inj i a j b => inj i ((members i).mpr a) j ((members j).mpr b),
    fun inj i a j b => inj ((members i).mp a) ((members j).mp b)⟩

/-- A type is listed when a caller pushed it. -/
theorem Inv.getThread_isSome_iff (inv : Inv calls s) (eType : RtpThreadType) :
    (∃ p, s.manager.getThread eType = some p) ↔
      ∃ j ∈ (claimants s.phase).acted, (calls j).eType = eType := by
  obtain ⟨order, _, members, types⟩ := inv.order
  have listed : (∃ p, s.manager.getThread eType = some p) ↔
      eType ∈ s.manager.listThreadList.map s.manager.typeOf := by
    rw [← Option.isSome_iff_exists, ← Option.ne_none_iff_isSome, ne_eq,
      RtpThreadManager.getThread_eq_none_iff, List.mem_map]
    push Not
    rfl
  rw [listed, types, List.mem_map]
  exact exists_congr fun j => and_congr_left fun _ => members j

theorem Inv.getThread_eq_none (inv : Inv calls s) {eType : RtpThreadType}
    (absent : s.manager.getThread eType = none) {j : ι}
    (acted : (s.phase j).isActed = true) : (calls j).eType ≠ eType := fun same => by
  obtain ⟨p, found⟩ := (inv.getThread_isSome_iff eType).mpr ⟨j, acted, same⟩
  rw [absent] at found
  cases found

end

/-! ## One step -/

/-- Only caller `i` moves. -/
theorem enter_phase (phase : AddPhase) (j : ι) :
    (s.enter i phase).phase j = if j = i then phase else s.phase j :=
  Function.update_apply _ _ _ _

/-- A step of `i` that changes neither the manager nor what `i` has listed. -/
theorem Inv.moved (inv : Inv calls s) {phase : AddPhase} {mutex : Option ι}
    (acted : phase.isActed = (s.phase i).isActed)
    (entry : ∀ p, phase.unlisted = some p → (s.phase i).unlisted = some p) :
    Inv calls (enter { s with mutex } i phase) := by
  have same : ∀ j, ((Function.update s.phase i phase) j).isActed = (s.phase j).isActed := by
    intro j
    rw [Function.update_apply]
    split
    · next here => rw [acted, here]
    · rfl
  refine ⟨inv.valid, fun j p allocated => ?_, ?_⟩
  · rw [enter_phase] at allocated
    split at allocated
    · next here => exact inv.entry j p (here ▸ entry p allocated)
    · exact inv.entry j p allocated
  · obtain ⟨order, nodup, members, types⟩ := inv.order
    exact ⟨order, nodup, fun j => (members j).trans (by simp [claimants, AddState.enter, same]),
      types⟩

theorem Inv.stepped (inv : Inv calls s) (h : Steps calls s i s') : Inv calls s' := by
  cases h with
  | found phase found => exact inv.moved (by rw [phase]; rfl) (by simp [AddPhase.unlisted])
  | absent phase absent => exact inv.moved (by rw [phase]; rfl) (by simp [AddPhase.unlisted])
  | lock phase free =>
      exact inv.moved (by rw [phase]; rfl) (by rw [phase]; simp [AddPhase.unlisted])
  | unlock phase => exact inv.moved (by rw [phase]; rfl) (by simp [AddPhase.unlisted])
  | allocate phase =>
      have old : ∀ p, p < s.manager.objects.size →
          RtpThreadManager.typeOf { s.manager with
            objects := s.manager.objects.add (.new (calls i).eType (calls i).pRoutine) } p =
          s.manager.typeOf p := fun p valid =>
        congrArg RtpThread.eThreadType (RtpThreadManager.deref_add_of_lt valid)
      refine ⟨fun p member => ?_, fun j p allocated => ?_, ?_⟩
      · exact Nat.lt_of_lt_of_eq (Nat.lt_succ_of_lt (inv.valid p member)) (Table.size_add _ _).symm
      · rw [enter_phase] at allocated
        split at allocated
        · next here =>
            cases allocated
            subst here
            refine ⟨Nat.lt_of_lt_of_eq (Nat.lt_succ_self _) (Table.size_add _ _).symm, ?_⟩
            simp [AddState.enter, RtpThreadManager.typeOf, RtpThreadManager.deref, RtpThread.new]
        · obtain ⟨valid, type⟩ := inv.entry j p allocated
          exact ⟨Nat.lt_of_lt_of_eq (Nat.lt_succ_of_lt valid) (Table.size_add _ _).symm,
            (old p valid).trans type⟩
      · obtain ⟨order, nodup, members, types⟩ := inv.order
        refine ⟨order, nodup, fun j => (members j).trans ?_, ?_⟩
        · rw [mem_acted, mem_acted, enter_phase]
          split
          · next here => rw [here, phase]; simp [AddPhase.isActed]
          · rfl
        · exact (List.map_congr_left fun p member => old p (inv.valid p member)).trans types
  | @push p phase =>
      obtain ⟨valid, type⟩ := inv.entry i p (by rw [phase]; rfl)
      obtain ⟨order, nodup, members, types⟩ := inv.order
      have new : i ∉ order := by
        rw [members]
        simp [claimants, phase, AddPhase.isActed]
      refine ⟨fun q member => ?_, fun j q allocated => ?_, order ++ [i], ?_, fun j => ?_, ?_⟩
      · rcases List.mem_append.mp member with old | last
        · exact inv.valid q old
        · rwa [List.mem_singleton.mp last]
      · rw [enter_phase] at allocated
        split at allocated
        · cases allocated
        · exact inv.entry j q allocated
      · exact List.nodup_append.mpr ⟨nodup, List.nodup_singleton i, fun j member k last equal =>
          new (by rwa [← List.mem_singleton.mp last, ← equal])⟩
      · rw [List.mem_append, members, List.mem_singleton]
        rw [mem_acted, mem_acted, enter_phase]
        by_cases here : j = i
        · simp [here, AddPhase.isActed]
        · simp [here]
      · have appended : (s.manager.listThreadList ++ [p]).map s.manager.typeOf =
            (order ++ [i]).map fun j => (calls j).eType := by
          rw [List.map_append, types, List.map_append, List.map_singleton, List.map_singleton,
            type]
        exact appended

/-- Moving `i` between phases that claim alike changes no claimant. -/
theorem claimants_update {phase : ι → AddPhase} {next : AddPhase}
    (pending : next.isPending = (phase i).isPending)
    (acted : next.isActed = (phase i).isActed) :
    claimants (Function.update phase i next) = claimants phase := by
  have same : ∀ f : AddPhase → Bool, f next = f (phase i) →
      ∀ j, f (Function.update phase i next j) = f (phase j) := fun f equal j => by
    rw [Function.update_apply]
    split
    · next here => rw [equal, here]
    · rfl
  simp only [claimants, same _ pending, same _ acted]

/-- Each step is a step of claimants, and a check exactly when it scans. -/
theorem Steps.claimants_step (h : Steps calls s i s') (inv : Inv calls s) :
    (claimants s.phase).Step (fun i => (calls i).eType) (scans s i)
      (claimants s'.phase) := by
  cases h with
  | found phase found =>
      obtain ⟨j, acted, same⟩ := (inv.getThread_isSome_iff _).mp ⟨_, found⟩
      have finished : j ∉ (claimants s.phase).pending := fun pending => by
        rw [mem_acted] at acted
        rw [mem_pending] at pending
        cases here : s.phase j <;> rw [here] at acted pending <;> contradiction
      rw [scans, if_pos phase, enter, claimants_update (by rw [phase]; rfl) (by rw [phase]; rfl)]
      exact .found acted finished same
  | absent phase absent =>
      rw [scans, if_pos phase]
      refine .absent ?_ (fun j acted => inv.getThread_eq_none absent acted) ?_ ?_
      · simp [Claimants.all, claimants, phase, AddPhase.isPending, AddPhase.isActed]
      · ext j
        by_cases here : j = i <;> simp [claimants, enter, here, AddPhase.isPending]
      · ext j
        by_cases here : j = i <;> simp [claimants, enter, here, phase, AddPhase.isActed]
  | allocate phase | lock phase free | unlock phase =>
      rw [scans, if_neg (by simp [phase]), enter,
        claimants_update (by rw [phase]; rfl) (by rw [phase]; rfl)]
      exact .idle
  | push phase =>
      rw [scans, if_neg (by simp [phase])]
      refine .act (i := i) ?_ ?_ ?_
      · simp [claimants, phase, AddPhase.isPending]
      · ext j
        by_cases here : j = i <;> simp [claimants, enter, here, AddPhase.isPending]
      · ext j
        by_cases here : j = i <;> simp [claimants, enter, here, AddPhase.isActed]

theorem Steps.phase_called_or (h : Steps calls s i s') (j : ι) :
    s'.phase j = s.phase j ∨ (j = i ∧ ∀ ret, s.phase j ≠ .returned ret) := by
  by_cases here : j = i
  · refine .inr ⟨here, fun ret => ?_⟩
    subst here
    cases h <;> simp_all
  · refine .inl ?_
    cases h <;> exact (enter_phase _ j).trans (if_neg here)

/-! ## Callers alone at their scans -/

/-- The second half of `AloneAtScan`: no call for the type is about to return. -/
def NoneReturning (calls : ι → AddCall) (s : AddState ι) (i : ι) : Prop :=
  s.phase i = .called → ∀ j, (calls j).eType = (calls i).eType → s.phase j ≠ .pushed

omit [DecidableEq ι] in
theorem aloneAtScan_iff :
    AloneAtScan calls s i ↔
      (claimants s.phase).Serial (fun i => (calls i).eType) (scans s i) ∧
        NoneReturning calls s i := by
  by_cases called : s.phase i = .called
  · rw [scans, if_pos called, Claimants.serial_some]
    constructor
    · refine fun alone => ⟨fun j pending same => ?_, fun _ j same pushed => ?_⟩
      · have idle := alone called j same
        rw [mem_pending] at pending
        cases here : s.phase j <;> rw [here] at pending idle <;> contradiction
      · have idle := alone called j same
        rw [pushed] at idle
        cases idle
    · intro alone _ j same
      rcases alone with ⟨serial, returning⟩
      cases here : s.phase j with
      | called | returned ret => rfl
      | absent | allocated p | locked p =>
          exact absurd same (serial j (mem_pending.mpr (by rw [here]; rfl)))
      | pushed => exact absurd here (returning called j same)
  · simp [AloneAtScan, NoneReturning, scans, called]

/-- Every refused caller has an accepted one. -/
def Settled (calls : ι → AddCall) (s : AddState ι) : Prop :=
  ∀ i, s.phase i = .returned .sFail →
    ∃ j, (calls j).eType = (calls i).eType ∧ s.phase j = .returned .sOk

/-- A scan that finds an entry finds one whose caller has returned. -/
theorem Steps.settled (h : Steps calls s i s') (inv : Inv calls s)
    (returning : NoneReturning calls s i) (settled : Settled calls s) : Settled calls s' := by
  have stays : ∀ j, s.phase j = .returned .sOk → s'.phase j = .returned .sOk := fun j returned =>
    (h.phase_called_or j).elim (fun same => same.trans returned)
      fun ⟨_, before⟩ => absurd returned (before _)
  intro k refused
  rcases h.phase_called_or k with same | ⟨rfl, _⟩
  · obtain ⟨j, type, accepted⟩ := settled k (same ▸ refused)
    exact ⟨j, type, stays j accepted⟩
  · cases h with
    | found phase found =>
        obtain ⟨j, acted, type⟩ := (inv.getThread_isSome_iff _).mp ⟨_, found⟩
        refine ⟨j, type, stays j ?_⟩
        rw [mem_acted] at acted
        cases here : s.phase j with
        | returned ret =>
            rw [here] at acted
            cases ret with
            | sOk => rfl
            | sFail => cases acted
        | pushed => exact absurd here (returning phase j type)
        | called | absent | allocated p | locked p => rw [here] at acted; cases acted
    | absent | allocate | lock | push | unlock => simp [enter] at refused

omit [DecidableEq ι] in
theorem Inv.typesUnique (inv : Inv calls s)
    (apart : (claimants s.phase).NoConflict fun i => (calls i).eType)
    (settled : Settled calls s) : TypesUnique calls s := by
  refine ⟨inv.unique_iff.mpr (apart.mono fun i => .inr), fun i ret returned => ?_⟩
  have accepted : ∃ j, (calls j).eType = (calls i).eType ∧ s.phase j = .returned .sOk := by
    cases ret with
    | sOk => exact ⟨i, rfl, returned⟩
    | sFail => exact settled i returned
  obtain ⟨j, type, ok⟩ := accepted
  refine ⟨j, ⟨type, ok⟩, fun k ⟨type', ok'⟩ => ?_⟩
  have acted : ∀ k, s.phase k = .returned .sOk → k ∈ (claimants s.phase).all := fun k ok =>
    .inr (mem_acted.mpr (by rw [ok]; rfl))
  exact apart (acted k ok') (acted j ok) (type'.trans type.symm)

/-- A scan that finds the entry of a caller about to return leaves a refused caller and
no accepted one. -/
theorem Steps.noneReturning (h : Steps calls s i s') (inv : Inv calls s) (inv' : Inv calls s')
    (after : TypesUnique calls s') : NoneReturning calls s i := by
  intro called j type pushed
  have acted : (s.phase j).isActed = true := by rw [pushed]; rfl
  have moved : j ≠ i := by rintro rfl; rw [called] at pushed; cases pushed
  cases h with
  | absent phase absent => exact inv.getThread_eq_none absent acted type
  | found phase found =>
      obtain ⟨k, ⟨type', ok⟩, _⟩ := after.accepted i .sFail (by simp [enter])
      have acted' : ∀ k, ((s.enter i (.returned .sFail)).phase k).isActed = true →
          k ∈ (claimants (s.enter i (.returned .sFail)).phase).acted := fun _ => mem_acted.mpr
      have one : k = j := (inv'.unique_iff.mp after.unique)
        (acted' k (by rw [ok]; rfl))
        (acted' j (by rw [enter_phase, if_neg moved, acted])) (type'.trans type.symm)
      rw [one, enter_phase, if_neg moved, pushed] at ok
      cases ok
  | allocate phase | lock phase | push phase | unlock phase =>
      rw [called] at phase
      cases phase

theorem step_inv (s : AddState ι) (i : ι) (s' : AddState ι) (inv : Inv calls s)
    (h : step calls s i = some s') : Inv calls s' :=
  inv.stepped (.of_step h)

/-- After a run, no two claimants have one type exactly when every scan was serial. -/
theorem noConflict_iff_serial {sched : List ι} (reached : run (step calls) init sched = some s) :
    (claimants s.phase).NoConflict (fun i => (calls i).eType) ↔
      Along (step calls)
        (fun s i => (claimants s.phase).Serial (fun i => (calls i).eType) (scans s i))
        init sched :=
  Claimants.noConflict_iff_along (fun s : AddState ι => claimants s.phase)
    step_inv (fun _ _ _ inv h => (Steps.of_step h).claimants_step inv) inv_init
    (fun i member => by simp [claimants, Claimants.all, init, AddPhase.isPending,
      AddPhase.isActed] at member) reached

/-- **Unique registration.**  If every scan of a run is made while no call for the same
type is in progress, then in every state of the run no type is listed twice and exactly
one completed call for each type was accepted.  For a run that leaves no call in
progress the condition is also necessary. -/
theorem types_unique_of_aloneAtScan {sched : List ι}
    (reached : run (step calls) init sched = some s) :
    (Along (step calls) (AloneAtScan calls) init sched →
      Always (step calls) (TypesUnique calls) init sched) ∧
    ((∀ i, (s.phase i).isInProgress = false) →
      Always (step calls) (TypesUnique calls) init sched →
      Along (step calls) (AloneAtScan calls) init sched) := by
  constructor
  · refine always_of_along (Q := fun s => Inv calls s ∧ Settled calls s ∧
      (claimants s.phase).NoConflict fun i => (calls i).eType) ?_
      (fun s ⟨inv, settled, apart⟩ => inv.typesUnique apart settled) ⟨inv_init, ?_, ?_⟩
    · intro s i s' kept alone h
      rcases kept with ⟨inv, settled, apart⟩
      obtain ⟨serial, returning⟩ := aloneAtScan_iff.mp alone
      have steps := Steps.of_step h
      exact ⟨inv.stepped steps, steps.settled inv returning settled,
        (steps.claimants_step inv).noConflict_iff.mpr ⟨apart, serial⟩⟩
    · intro i refused
      cases refused
    · intro i member
      simp [claimants, Claimants.all, init, AddPhase.isPending, AddPhase.isActed] at member
  · intro quiet always
    have inv := run_invariant step_inv inv_init reached
    have settled : (claimants s.phase).pending = ∅ := by
      refine Set.eq_empty_of_forall_notMem fun i pending => ?_
      rw [mem_pending] at pending
      have idle := quiet i
      cases here : s.phase i <;> rw [here] at pending idle <;> contradiction
    have apart := (Claimants.noConflict_of_settled settled).mpr
      (inv.unique_iff.mp (always.last reached).unique)
    have serial := (noConflict_iff_serial reached).mp apart
    have returning : Along (step calls) (NoneReturning calls) init sched :=
      along_of_always step_inv (fun s i s' inv _ h after =>
        (Steps.of_step h).noneReturning inv (step_inv s i s' inv h) after) inv_init reached always
    exact (serial.and returning).imp fun s i => aloneAtScan_iff.mpr

/-- Two callers, both registering the main thread. -/
def bothMain : Bool → AddCall := fun i => ⟨.main, some (cond i 1 2)⟩

/-- One caller after the other: the second is refused. -/
theorem oneAfterOther_types_unique :
    let sched := [true, true, true, true, true, false]
    Along (step bothMain) (AloneAtScan bothMain) init sched ∧
      Always (step bothMain) (TypesUnique bothMain) init sched := by
  have alone : Along (step bothMain) (AloneAtScan bothMain) init
      [true, true, true, true, true, false] := by
    decide
  exact ⟨alone, (types_unique_of_aloneAtScan (s := ((run (step bothMain) init
    [true, true, true, true, true, false]).getD init)) rfl).1 alone⟩

/-- Two callers that both scan before either pushes: both are accepted and the type is
listed twice. -/
theorem bothScanFirst_registers_twice :
    ∃ s, run (step bothMain) init
        [true, false, true, true, true, true, false, false, false, false] = some s ∧
      s.phase true = .returned .sOk ∧ s.phase false = .returned .sOk ∧
      s.manager.listThreadList.map s.manager.typeOf = [.main, .main] ∧
      ¬ TypesUnique bothMain s := by
  obtain ⟨s, reached, first, second, twice⟩ :
      ∃ s, run (step bothMain) init
          [true, false, true, true, true, true, false, false, false, false] = some s ∧
        s.phase true = .returned .sOk ∧ s.phase false = .returned .sOk ∧
        s.manager.listThreadList.map s.manager.typeOf = [.main, .main] :=
    ⟨_, rfl, rfl, rfl, rfl⟩
  refine ⟨s, reached, first, second, twice, fun ⟨unique, _⟩ => ?_⟩
  rw [Keyed.UniqueKeys, twice] at unique
  exact absurd unique (by decide)

end AddState

end OpenRtp
