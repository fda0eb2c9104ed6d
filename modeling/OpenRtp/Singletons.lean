import Mathlib.Data.Fintype.Basic
import OpenRtp.Base.CheckThenAct

/-!
# Singletons

The three `singleton()` functions, run by any number of callers step by step.  All
three read the static pointer once before anything else and never again before they
store to it, so a caller that read null constructs an instance whatever the others
have done since; where there is a mutex it is taken after the read.

The constructor of `RtpLog` initialises glog, which ends the process when it is
initialised a second time, so a second logger is never stored.
-/

namespace OpenRtp

/-- What `singleton()` does after its first read of the static pointer. -/
inductive SingletonInstr
  | lock
  /-- Construct an instance and store it; `RtpLog` calls `initGLog` in its constructor. -/
  | construct (initsGLog : Bool)
  | unlock
  /-- `RTP_CHECK_NOTNULL`, which aborts on null. -/
  | checkNotNull
  /-- Read the pointer and return it. -/
  | ret
deriving DecidableEq, Repr

/-- The two branches of `singleton()`. -/
structure SingletonCode where
  onNull : List SingletonInstr
  onSet : List SingletonInstr

/-- `RtpLog::singleton`. -/
def RtpLog.singleton : SingletonCode where
  onNull := [.lock, .construct true, .unlock, .checkNotNull, .ret]
  onSet := [.ret]

/-- `RtpConfig::singleton`. -/
def RtpConfig.singleton : SingletonCode where
  onNull := [.lock, .construct false, .unlock, .ret]
  onSet := [.ret]

/-- `RtpThreadManager::singleton`. -/
def RtpThreadManager.singleton : SingletonCode where
  onNull := [.construct false, .ret]
  onSet := [.ret]

/-- The classes with a `singleton()`. -/
inductive SingletonClass
  | rtpLog
  | rtpConfig
  | rtpThreadManager
deriving DecidableEq, Repr

def SingletonClass.code : SingletonClass → SingletonCode
  | .rtpLog => RtpLog.singleton
  | .rtpConfig => RtpConfig.singleton
  | .rtpThreadManager => RtpThreadManager.singleton

/-- How far a call has come. -/
inductive SingletonPhase
  | called
  | running (rest : List SingletonInstr)
  | returned (pointer : Option Nat)
deriving DecidableEq, Repr

/-- The static pointer, its mutex, and the callers.  Each instance is recorded by the
caller that constructed it, and its identity is its position. -/
structure SingletonState (ι : Type*) where
  pointer : Option Nat
  mutex : Option ι
  instances : List ι
  /-- How often `google::InitGoogleLogging` was called; its second call ends the process. -/
  glogInits : Nat
  phase : ι → SingletonPhase

namespace SingletonInstr

def isConstruct : SingletonInstr → Bool
  | .construct _ => true
  | _ => false

/-- The code returns without constructing. -/
def constructsNone (rest : List SingletonInstr) : Bool := rest.all fun instr => !instr.isConstruct

/-- The code constructs once, and returns only after that. -/
def constructsOnce : List SingletonInstr → Bool
  | [] => false
  | .construct _ :: rest => constructsNone rest
  | .ret :: _ => false
  | .lock :: rest => constructsOnce rest
  | .unlock :: rest => constructsOnce rest
  | .checkNotNull :: rest => constructsOnce rest

theorem constructsOnce_of_constructsNone {rest : List SingletonInstr}
    (none : constructsNone rest = true) : constructsOnce rest = false := by
  induction rest with
  | nil => rfl
  | cons instr rest ih =>
      have later : constructsNone rest = true := by
        simp only [constructsNone, List.all_cons, Bool.and_eq_true] at none
        exact none.2
      cases instr with
      | construct initsGLog => simp [constructsNone, isConstruct] at none
      | ret => rfl
      | lock | unlock | checkNotNull => exact ih later

end SingletonInstr

/-- The caller read null and has not stored an instance yet. -/
def SingletonPhase.isPending : SingletonPhase → Bool
  | .running rest => SingletonInstr.constructsOnce rest
  | _ => false

/-- Null leads to one construction, anything else to none. -/
theorem SingletonClass.code_constructs (which : SingletonClass) :
    SingletonInstr.constructsOnce which.code.onNull = true ∧
      SingletonInstr.constructsNone which.code.onSet = true := by
  cases which <;> decide

namespace SingletonState

open SingletonInstr

variable {ι : Type*} {which : SingletonClass} {s s' : SingletonState ι} {i j : ι}

def init : SingletonState ι := ⟨none, none, [], 0, fun _ => .called⟩

section Steps

variable [DecidableEq ι]

def enter (s : SingletonState ι) (i : ι) (phase : SingletonPhase) : SingletonState ι :=
  { s with phase := Function.update s.phase i phase }

/-- Construct an instance in a call of `i` and store it. -/
def construct (s : SingletonState ι) (i : ι) (initsGLog : Bool) : SingletonState ι :=
  { s with
    pointer := some s.instances.length
    instances := s.instances ++ [i]
    glogInits := s.glogInits + initsGLog.toNat }

/-- `InitGoogleLogging` again: the check in it fails, and the constructor that called it does
not return. -/
def initGLogAgain (s : SingletonState ι) : SingletonState ι :=
  { s with glogInits := s.glogInits + 1 }

/-- The next step of caller `i` in a process that has not ended; it waits while another caller
holds the mutex. -/
def stepAlive (code : SingletonCode) (s : SingletonState ι) (i : ι) :
    Option (SingletonState ι) :=
  match s.phase i with
  | .called =>
      if s.pointer = none then some (s.enter i (.running code.onNull))
      else some (s.enter i (.running code.onSet))
  | .running (.lock :: rest) =>
      if s.mutex = none then some (enter { s with mutex := some i } i (.running rest)) else none
  | .running (.construct initsGLog :: rest) =>
      if initsGLog && s.glogInits ≠ 0 then some s.initGLogAgain
      else some ((s.construct i initsGLog).enter i (.running rest))
  | .running (.unlock :: rest) => some (enter { s with mutex := none } i (.running rest))
  | .running (.checkNotNull :: rest) =>
      if s.pointer = none then none else some (s.enter i (.running rest))
  | .running (.ret :: _) => some (s.enter i (.returned s.pointer))
  | .running [] => none
  | .returned _ => none

/-- The process has ended, in a second call of `InitGoogleLogging`. -/
def Ended (s : SingletonState ι) : Prop := 1 < s.glogInits

instance (s : SingletonState ι) : Decidable s.Ended := inferInstanceAs (Decidable (1 < _))

/-- The next step of caller `i`. -/
def step (code : SingletonCode) (s : SingletonState ι) (i : ι) : Option (SingletonState ι) :=
  if s.Ended then none else s.stepAlive code i

/-- The steps of `step`, one constructor each; taking and giving back the mutex are
told apart by the mutex they leave. -/
inductive Steps (code : SingletonCode) (s : SingletonState ι) (i : ι) :
    SingletonState ι → Prop
  | readNull (called : s.phase i = .called) (null : s.pointer = none) :
      Steps code s i (s.enter i (.running code.onNull))
  | readSet (called : s.phase i = .called) (set : s.pointer ≠ none) :
      Steps code s i (s.enter i (.running code.onSet))
  | pass {instr : SingletonInstr} {rest : List SingletonInstr} (mutex : Option ι)
      (running : s.phase i = .running (instr :: rest)) (other : instr.isConstruct = false)
      (goes : instr ≠ .ret) : Steps code s i (enter { s with mutex } i (.running rest))
  | construct {initsGLog : Bool} {rest : List SingletonInstr}
      (running : s.phase i = .running (.construct initsGLog :: rest)) :
      Steps code s i ((s.construct i initsGLog).enter i (.running rest))
  | initAgain {initsGLog : Bool} {rest : List SingletonInstr}
      (running : s.phase i = .running (.construct initsGLog :: rest))
      (again : s.glogInits ≠ 0) : Steps code s i s.initGLogAgain
  | ret {rest : List SingletonInstr} (running : s.phase i = .running (.ret :: rest)) :
      Steps code s i (s.enter i (.returned s.pointer))

theorem stepAlive_of_step {code : SingletonCode} (h : step code s i = some s') :
    ¬ s.Ended ∧ s.stepAlive code i = some s' := by
  unfold step at h
  split at h
  · cases h
  · next alive => exact ⟨alive, h⟩

theorem Steps.of_step {code : SingletonCode} (h : step code s i = some s') :
    Steps code s i s' := by
  replace h := (stepAlive_of_step h).2
  unfold stepAlive at h
  split at h
  · next called =>
      split at h
      · next null => cases h; exact .readNull called null
      · next set => cases h; exact .readSet called set
  · next rest running =>
      split at h
      · cases h; exact .pass _ running rfl (by simp)
      · cases h
  · next initsGLog rest running =>
      split at h
      · next again =>
          cases h
          exact .initAgain running (of_decide_eq_true (Bool.and_eq_true_iff.mp again).2)
      · cases h; exact .construct running
  · next rest running => cases h; exact .pass _ running rfl (by simp)
  · next rest running =>
      split at h
      · cases h
      · cases h; exact .pass s.mutex running rfl (by simp)
  · next rest running => cases h; exact .ret running
  · cases h
  · cases h

/-- Only caller `i` moves. -/
theorem enter_phase (s : SingletonState ι) (i : ι) (phase : SingletonPhase) (j : ι) :
    (s.enter i phase).phase j = if j = i then phase else s.phase j :=
  Function.update_apply _ _ _ _

end Steps

/-- At most one instance is constructed, and every completed call returns it. -/
structure ConstructedOnce (s : SingletonState ι) : Prop where
  once : s.instances.length ≤ 1
  glogOnce : s.glogInits ≤ 1
  returned : ∀ i pointer, s.phase i = .returned pointer →
    s.instances.length = 1 ∧ pointer = some 0

/-- The first read of a call is made while no caller has read null and not stored. -/
def ReadsAlone (s : SingletonState ι) (i : ι) : Prop :=
  s.phase i = .called → ∀ j, (s.phase j).isPending = false

instance [Fintype ι] (s : SingletonState ι) (i : ι) : Decidable (ReadsAlone s i) :=
  inferInstanceAs (Decidable (s.phase i = .called → ∀ j, (s.phase j).isPending = false))

/-! ## The callers as claimants -/

def claimants (s : SingletonState ι) : Claimants ι where
  pending := {i | (s.phase i).isPending = true}
  acted := {i | i ∈ s.instances}

theorem mem_pending : i ∈ s.claimants.pending ↔ (s.phase i).isPending = true := Iff.rfl

theorem mem_acted : i ∈ s.claimants.acted ↔ i ∈ s.instances := Iff.rfl

/-- The caller whose first read the step is. -/
def reads (s : SingletonState ι) (i : ι) : Option ι := if s.phase i = .called then some i else none

/-- There is one static pointer, so all callers want the same. -/
abbrev wanted : ι → Unit := fun _ => ()

theorem readsAlone_iff : ReadsAlone s i ↔ s.claimants.Serial wanted (s.reads i) := by
  by_cases called : s.phase i = .called
  · rw [reads, if_pos called, Claimants.serial_some]
    simp [ReadsAlone, called, mem_pending]
  · simp [ReadsAlone, reads, called]

/-- The pointer is null until the first instance, and then names an instance; a caller
returns only after it has seen or stored one. -/
structure Inv (s : SingletonState ι) : Prop where
  null : s.pointer = none → s.instances = []
  stored : ∀ k, s.pointer = some k → k < s.instances.length
  nodup : s.instances.Nodup
  /-- A second call of `InitGoogleLogging` is made by a caller that read null, when another
  one's instance is there. -/
  glog : s.glogInits ≤ s.instances.length ∨
    s.Ended ∧ (∃ i, (s.phase i).isPending = true) ∧ ∃ j, j ∈ s.instances
  called : ∀ i, s.phase i = .called → i ∉ s.instances
  running : ∀ i rest, s.phase i = .running rest →
    (constructsOnce rest = true ∧ i ∉ s.instances) ∨
      (constructsNone rest = true ∧ s.pointer ≠ none)
  returned : ∀ i pointer, s.phase i = .returned pointer →
    ∃ k, pointer = some k ∧ k < s.instances.length

theorem inv_init : (init : SingletonState ι).Inv where
  null _ := rfl
  stored k stored := by cases stored
  nodup := List.nodup_nil
  glog := .inl le_rfl
  called i _ := List.not_mem_nil
  running i rest running := by cases running
  returned i pointer returned := by cases returned

theorem Inv.not_mem_of_pending (inv : s.Inv) (pending : (s.phase i).isPending = true) :
    i ∉ s.instances := by
  cases here : s.phase i with
  | called => exact inv.called i here
  | returned pointer => rw [here] at pending; cases pending
  | running rest =>
      rcases inv.running i rest here with ⟨_, new⟩ | ⟨none, _⟩
      · exact new
      · rw [here] at pending
        exact absurd pending (by simp [SingletonPhase.isPending,
          constructsOnce_of_constructsNone none])

/-- What a caller still has to do, one instruction further. -/
theorem constructs_tail {instr : SingletonInstr} {rest : List SingletonInstr}
    (other : instr.isConstruct = false) (goes : instr ≠ .ret) :
    constructsOnce (instr :: rest) = constructsOnce rest ∧
      constructsNone (instr :: rest) = constructsNone rest := by
  cases instr with
  | construct initsGLog => cases other
  | ret => exact absurd rfl goes
  | lock | unlock | checkNotNull => exact ⟨rfl, rfl⟩

section Steps

variable [DecidableEq ι]

omit [DecidableEq ι] in
theorem Inv.inits_le (inv : s.Inv) (alive : ¬ s.Ended) : s.glogInits ≤ s.instances.length :=
  inv.glog.resolve_right fun ended => alive ended.1

/-- A step of `i` that constructs nothing. -/
theorem Inv.moved (inv : s.Inv) (alive : ¬ s.Ended) {phase : SingletonPhase} {mutex : Option ι}
    (called : phase ≠ .called)
    (running : ∀ rest, phase = .running rest →
      (constructsOnce rest = true ∧ i ∉ s.instances) ∨
        (constructsNone rest = true ∧ s.pointer ≠ none))
    (returned : ∀ pointer, phase = .returned pointer →
      ∃ k, pointer = some k ∧ k < s.instances.length) :
    (SingletonState.enter { s with mutex } i phase).Inv where
  null := inv.null
  stored := inv.stored
  nodup := inv.nodup
  glog := .inl (inv.inits_le alive)
  called j here := by
    rw [enter_phase] at here
    split at here
    · exact absurd here called
    · exact inv.called j here
  running j rest here := by
    rw [enter_phase] at here
    split at here
    · next same => exact same ▸ running rest here
    · exact inv.running j rest here
  returned j pointer here := by
    rw [enter_phase] at here
    split at here
    · exact returned pointer here
    · exact inv.returned j pointer here

theorem Inv.constructed (inv : s.Inv) (alive : ¬ s.Ended) {initsGLog : Bool}
    {rest : List SingletonInstr}
    (running : s.phase i = .running (.construct initsGLog :: rest)) :
    ((s.construct i initsGLog).enter i (.running rest)).Inv := by
  have new : i ∉ s.instances ∧ constructsNone rest = true := by
    rcases inv.running i _ running with ⟨once, new⟩ | ⟨none, _⟩
    · exact ⟨new, once⟩
    · simp [constructsNone, isConstruct] at none
  have length : (s.construct i initsGLog).instances.length = s.instances.length + 1 := by
    simp [SingletonState.construct]
  constructor
  · intro null
    cases null
  · intro k stored
    cases stored
    exact length ▸ Nat.lt_succ_self _
  · exact List.nodup_append.mpr ⟨inv.nodup, List.nodup_singleton i, fun j member k last equal =>
      new.1 (by rwa [← List.mem_singleton.mp last, ← equal])⟩
  · exact .inl (length ▸ Nat.add_le_add (inv.inits_le alive) (Bool.toNat_le initsGLog))
  · intro j here
    rw [enter_phase] at here
    split at here
    · cases here
    · next other =>
        intro member
        rcases List.mem_append.mp member with old | last
        · exact inv.called j here old
        · exact other (List.mem_singleton.mp last)
  · intro j rest' here
    rw [enter_phase] at here
    split at here
    · cases here
      exact .inr ⟨new.2, by simp [SingletonState.construct, SingletonState.enter]⟩
    · next other =>
        rcases inv.running j rest' here with ⟨once, absent⟩ | ⟨none, _⟩
        · refine .inl ⟨once, fun member => ?_⟩
          rcases List.mem_append.mp member with old | last
          · exact absent old
          · exact other (List.mem_singleton.mp last)
        · exact .inr ⟨none, by simp [SingletonState.construct, SingletonState.enter]⟩
  · intro j pointer here
    rw [enter_phase] at here
    split at here
    · cases here
    · obtain ⟨k, same, below⟩ := inv.returned j pointer here
      exact ⟨k, same, length ▸ Nat.lt_succ_of_lt below⟩

omit [DecidableEq ι] in
/-- A caller that constructs has read null. -/
theorem Inv.constructs (inv : s.Inv) {initsGLog : Bool} {rest : List SingletonInstr}
    (running : s.phase i = .running (.construct initsGLog :: rest)) :
    constructsOnce (.construct initsGLog :: rest) = true := by
  rcases inv.running i _ running with ⟨once, _⟩ | ⟨none, _⟩
  · exact once
  · simp [constructsNone, isConstruct] at none

omit [DecidableEq ι] in
/-- A second call of `InitGoogleLogging` stores nothing. -/
theorem Inv.initAgain (inv : s.Inv) (alive : ¬ s.Ended) {initsGLog : Bool}
    {rest : List SingletonInstr} (running : s.phase i = .running (.construct initsGLog :: rest))
    (again : s.glogInits ≠ 0) : s.initGLogAgain.Inv where
  null := inv.null
  stored := inv.stored
  nodup := inv.nodup
  glog := by
    have before := inv.inits_le alive
    refine .inr ⟨Nat.succ_lt_succ (Nat.pos_of_ne_zero again), ⟨i, ?_⟩, ?_⟩
    · exact (congrArg SingletonPhase.isPending running).trans (inv.constructs running)
    · exact List.exists_mem_of_length_pos (Nat.pos_of_ne_zero again |>.trans_le before)
  called := inv.called
  running := inv.running
  returned := inv.returned

theorem Inv.stepped (inv : s.Inv) (alive : ¬ s.Ended) (h : Steps which.code s i s') :
    s'.Inv := by
  cases h with
  | readNull called null =>
      refine inv.moved alive (by simp) ?_ (by simp)
      rintro rest ⟨⟩
      exact .inl ⟨which.code_constructs.1, inv.called i called⟩
  | readSet called set =>
      refine inv.moved alive (by simp) ?_ (by simp)
      rintro rest ⟨⟩
      exact .inr ⟨which.code_constructs.2, set⟩
  | @pass instr rest mutex running other goes =>
      refine inv.moved alive (by simp) ?_ (by simp)
      rintro _ ⟨⟩
      have before := inv.running i _ running
      rwa [(constructs_tail other goes).1, (constructs_tail other goes).2] at before
  | construct running => exact inv.constructed alive running
  | initAgain running again => exact inv.initAgain alive running again
  | ret running =>
      refine inv.moved alive (by simp) (by simp) ?_
      rintro _ ⟨⟩
      rcases inv.running i _ running with ⟨once, _⟩ | ⟨_, set⟩
      · cases once
      · obtain ⟨k, here⟩ := Option.ne_none_iff_exists'.mp set
        exact ⟨k, here, inv.stored k here⟩

/-- A step of `i` that constructs nothing and leaves `i` as pending as it was changes no
claimant. -/
theorem claimants_enter (mutex : Option ι) {phase : SingletonPhase}
    (same : phase.isPending = (s.phase i).isPending) :
    (enter { s with mutex } i phase).claimants = s.claimants := by
  have all : ∀ j, ((enter { s with mutex } i phase).phase j).isPending =
      (s.phase j).isPending := fun j => by
    rw [enter_phase]
    split
    · next here => rw [same, here]
    · rfl
  simp only [claimants, all]
  rfl

/-- Each step is a step of claimants, and a check exactly when it is a first read. -/
theorem Steps.claimants_step (h : Steps which.code s i s') (inv : s.Inv) :
    s.claimants.Step wanted (s.reads i) s'.claimants := by
  cases h with
  | readNull called null =>
      rw [reads, if_pos called]
      refine .absent ?_ ?_ ?_ rfl
      · intro member
        rcases member with pending | acted
        · rw [mem_pending, called] at pending
          cases pending
        · exact inv.called i called acted
      · intro j acted
        rw [mem_acted, inv.null null] at acted
        cases acted
      · ext j
        rw [mem_pending, enter_phase, Set.mem_insert_iff, mem_pending]
        by_cases here : j = i
        · simp [here, SingletonPhase.isPending, which.code_constructs.1]
        · simp [here]
  | readSet called set =>
      have unchanged : (s.enter i (.running which.code.onSet)).claimants = s.claimants :=
        claimants_enter s.mutex (by
          rw [called]
          exact constructsOnce_of_constructsNone which.code_constructs.2)
      obtain ⟨k, here⟩ := Option.ne_none_iff_exists'.mp set
      have stored := List.getElem_mem (inv.stored k here)
      rw [reads, if_pos called, unchanged]
      exact .found (mem_acted.mpr stored)
        (fun pending => inv.not_mem_of_pending (mem_pending.mp pending) stored) rfl
  | @pass instr rest mutex running other goes =>
      have unchanged : (enter { s with mutex } i (.running rest)).claimants = s.claimants :=
        claimants_enter mutex (by
          rw [running]
          exact (constructs_tail other goes).1.symm)
      rw [reads, if_neg (by simp [running]), unchanged]
      exact .idle
  | @construct initsGLog rest running =>
      have once := inv.constructs running
      rw [reads, if_neg (by simp [running])]
      refine .act (i := i) ?_ ?_ ?_
      · rw [mem_pending, running]
        exact once
      · ext j
        rw [mem_pending, enter_phase, Set.mem_sdiff, mem_pending, Set.mem_singleton_iff]
        by_cases here : j = i
        · simp only [here, if_true, not_true, and_false, iff_false]
          rw [SingletonPhase.isPending, constructsOnce_of_constructsNone once]
          simp
        · simp [here, SingletonState.construct]
      · ext j
        rw [mem_acted, Set.mem_insert_iff, mem_acted]
        simp [SingletonState.construct, SingletonState.enter, or_comm]
  | initAgain running =>
      rw [reads, if_neg (by simp [running])]
      exact .idle
  | ret running =>
      have unchanged : (s.enter i (.returned s.pointer)).claimants = s.claimants :=
        claimants_enter s.mutex (by rw [running]; rfl)
      rw [reads, if_neg (by simp [running]), unchanged]
      exact .idle

end Steps

/-! ## Callers alone at their first reads -/

/-- Among settled claimants one instance means one constructing caller. -/
theorem Inv.length_le_one_iff (inv : s.Inv) :
    s.instances.length ≤ 1 ↔ Set.InjOn (wanted : ι → Unit) s.claimants.acted := by
  constructor
  · intro short i first j second _
    rw [mem_acted] at first second
    match instances : s.instances with
    | [] => rw [instances] at first; cases first
    | [k] =>
        rw [instances, List.mem_singleton] at first second
        rw [first, second]
    | _ :: _ :: _ => simp [instances] at short
  · intro alone
    match instances : s.instances with
    | [] => simp
    | [k] => simp
    | i :: j :: rest =>
        have member : ∀ k ∈ i :: j :: rest, k ∈ s.claimants.acted := fun k here =>
          mem_acted.mpr (instances ▸ here)
        have same : i = j := alone (member i (by simp)) (member j (by simp)) rfl
        have nodup := inv.nodup
        rw [instances, same] at nodup
        simp at nodup

theorem Inv.constructedOnce (inv : s.Inv) (apart : s.claimants.NoConflict wanted) :
    s.ConstructedOnce := by
  have once : s.instances.length ≤ 1 := inv.length_le_one_iff.mpr (apart.mono fun i => .inr)
  have inits : s.glogInits ≤ s.instances.length := by
    refine inv.glog.resolve_right ?_
    rintro ⟨_, ⟨i, pending⟩, j, acted⟩
    have same : i = j := apart (.inl pending) (.inr acted) rfl
    exact inv.not_mem_of_pending pending (same ▸ acted)
  refine ⟨once, inits.trans once, fun i pointer returned => ?_⟩
  obtain ⟨k, rfl, below⟩ := inv.returned i pointer returned
  exact ⟨by omega, congrArg some (by omega)⟩

theorem noConflict_init : (init : SingletonState ι).claimants.NoConflict wanted := by
  intro i member
  rcases member with pending | acted
  · cases pending
  · cases acted

variable [DecidableEq ι]

theorem step_inv (s : SingletonState ι) (i : ι) (s' : SingletonState ι) (inv : s.Inv)
    (h : step which.code s i = some s') : s'.Inv :=
  inv.stepped (stepAlive_of_step h).1 (.of_step h)

/-- **Singletons are constructed once.**  If every first read of a run is made while no
caller has read null and not stored its instance, then in every state of the run at most
one instance was constructed and every completed call returned it.  For a run that
leaves no caller between the two, or ends the process, the condition is also necessary. -/
theorem constructedOnce_of_readsAlone (which : SingletonClass) {sched : List ι}
    (reached : run (step which.code) init sched = some s) :
    (Along (step which.code) ReadsAlone init sched →
      Always (step which.code) ConstructedOnce init sched) ∧
    ((s.Ended ∨ ∀ i, (s.phase i).isPending = false) →
      Always (step which.code) ConstructedOnce init sched →
      Along (step which.code) ReadsAlone init sched) := by
  constructor
  · refine always_of_along (Q := fun s => s.Inv ∧ s.claimants.NoConflict wanted) ?_
      (fun s ⟨inv, apart⟩ => inv.constructedOnce apart) ⟨inv_init, noConflict_init⟩
    intro s i s' kept alone h
    rcases kept with ⟨inv, apart⟩
    have steps := Steps.of_step h
    exact ⟨step_inv s i s' inv h,
      (steps.claimants_step inv).noConflict_iff.mpr ⟨apart, readsAlone_iff.mp alone⟩⟩
  · intro complete always
    have inv := run_invariant step_inv inv_init reached
    have quiet : ∀ i, (s.phase i).isPending = false :=
      complete.resolve_left (Nat.not_lt.mpr (always.last reached).glogOnce)
    have settled : s.claimants.pending = ∅ :=
      Set.eq_empty_of_forall_notMem fun i pending => by
        rw [mem_pending, quiet i] at pending
        cases pending
    have apart := (Claimants.noConflict_of_settled settled).mpr
      (inv.length_le_one_iff.mp (always.last reached).once)
    have serial := (Claimants.noConflict_iff_along claimants step_inv
      (fun _ _ _ inv h => (Steps.of_step h).claimants_step inv) inv_init noConflict_init
      reached).mp apart
    exact serial.imp fun s i => readsAlone_iff.mpr

/-- Two callers of `RtpLog::singleton`, the second reading after the first has stored. -/
theorem readsAfterStore_constructedOnce :
    let sched := [true, true, true, false, true, true, true, false]
    Along (step RtpLog.singleton) ReadsAlone init sched ∧
      Always (step RtpLog.singleton) ConstructedOnce init sched := by
  have alone : Along (step RtpLog.singleton) ReadsAlone init
      [true, true, true, false, true, true, true, false] := by
    decide
  exact ⟨alone, (constructedOnce_of_readsAlone .rtpLog (s := ((run (step RtpLog.singleton) init
    [true, true, true, false, true, true, true, false]).getD init)) rfl).1 alone⟩

/-- Two callers that both read before either stores both go on to construct, in each of the
three classes.  `RtpConfig` and `RtpThreadManager` construct two instances and return different
ones.  `RtpLog` initialises glog twice, which ends the process: nobody takes a step again. -/
theorem bothReadFirst_construct_twice :
    (∃ s, run (step RtpLog.singleton) init [true, false, true, true, true, true, true,
        false, false] = some s ∧
      s.phase true = .returned (some 0) ∧ s.glogInits = 2 ∧
      (∀ i, step RtpLog.singleton s i = none) ∧ ¬ s.ConstructedOnce) ∧
    (∃ s, run (step RtpConfig.singleton) init [true, false, true, true, true, true,
        false, false, false, false] = some s ∧
      s.phase true = .returned (some 0) ∧ s.phase false = .returned (some 1) ∧
      ¬ s.ConstructedOnce) ∧
    ∃ s, run (step RtpThreadManager.singleton) init [true, false, true, true,
        false, false] = some s ∧
      s.phase true = .returned (some 0) ∧ s.phase false = .returned (some 1) ∧
      ¬ s.ConstructedOnce := by
  have two : ∀ s : SingletonState Bool, s.phase false = .returned (some 1) →
      ¬ s.ConstructedOnce := fun s second once => by
    obtain ⟨_, same⟩ := once.returned false _ second
    cases same
  have inits : ∀ s : SingletonState Bool, s.glogInits = 2 → ¬ s.ConstructedOnce :=
    fun s twice once => by
      have single := once.glogOnce
      omega
  exact ⟨⟨_, rfl, rfl, rfl, fun i => rfl, inits _ rfl⟩, ⟨_, rfl, rfl, rfl, two _ rfl⟩,
    ⟨_, rfl, rfl, rfl, two _ rfl⟩⟩

end SingletonState

end OpenRtp
