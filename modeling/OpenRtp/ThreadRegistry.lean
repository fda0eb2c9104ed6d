import OpenRtp.ConcurrentScan

/-!
# The list of threads as a registry

What the list is for: a `Registry` of types, each with the routine it was registered
with, on which a call is one atomic operation.  A concurrent call takes effect at the step
after which its result stands: the push of an accepted `addThread`, the erasing of a
`cleanThread`, the last step of a search otherwise.

`linearizable_iff` compares a run with the registry run that performs each call when it
takes effect.  No iterator is left at an erased node, and they give the same answers and the
same registry, exactly when nothing is erased under another call and every push finds its type
unlisted, for the search that made sure of it lies some steps back.
-/

namespace OpenRtp

/-- The registered types with their routines, in order of registration. -/
abbrev Registry := List (RtpThreadType × RtpThreadRoutine)

/-- The result of a call, and the registry after it. -/
def Registry.perform (r : Registry) :
    ListCall → ListResult (RtpThreadType × RtpThreadRoutine) × Registry
  | .addThread eType pRoutine =>
      match Keyed.find Prod.fst r eType with
      | some _ => (.status .sFail, r)
      | none => (.status .sOk, r ++ [(eType, pRoutine)])
  | .getThread eType => (.thread (Keyed.find Prod.fst r eType), r)
  | .cleanThread eType => (.void, Keyed.erase Prod.fst r eType)
  | .cleanAllThreads => (.void, [])

/-- The registry, and what each caller was answered. -/
structure RegistryState (ι : Type*) where
  registry : Registry
  answer : ι → Option (ListResult (RtpThreadType × RtpThreadRoutine))

namespace RegistryState

variable {ι : Type*} [DecidableEq ι] {calls : ι → ListCall} {r r' : RegistryState ι} {i j : ι}

def init : RegistryState ι := ⟨[], fun _ => none⟩

/-- Caller `i` makes its call, once. -/
def step (calls : ι → ListCall) (r : RegistryState ι) (i : ι) : Option (RegistryState ι) :=
  match r.answer i with
  | some _ => none
  | none =>
      let result := r.registry.perform (calls i)
      some ⟨result.2, Function.update r.answer i (some result.1)⟩

theorem step_of_unanswered (unanswered : r.answer i = none) :
    step calls r i = some ⟨(r.registry.perform (calls i)).2,
      Function.update r.answer i (some (r.registry.perform (calls i)).1)⟩ := by
  rw [step, unanswered]

theorem step_answer {answer : ListResult (RtpThreadType × RtpThreadRoutine)}
    (answered : r.answer j = some answer) (h : step calls r i = some r') :
    r'.answer j = some answer := by
  unfold step at h
  split at h
  · cases h
  · next unanswered =>
      cases h
      have other : j ≠ i := by
        rintro rfl
        rw [answered] at unanswered
        cases unanswered
      exact (Function.update_of_ne other _ _).trans answered

end RegistryState

/-! ## What a call does to the registry -/

namespace RtpThreadManager

variable {m : RtpThreadManager} {call : ListCall} {p : Nat} {eType : RtpThreadType}

/-- The entries of the list. -/
def registry (m : RtpThreadManager) : Registry := m.listThreadList.map m.entryOf

theorem find_registry (m : RtpThreadManager) (eType : RtpThreadType) :
    Keyed.find Prod.fst m.registry eType = (m.getThread eType).map m.entryOf :=
  Keyed.find_map _

theorem erase_registry (m : RtpThreadManager) (eType : RtpThreadType) :
    Keyed.erase Prod.fst m.registry eType = (m.cleanThread eType).registry :=
  Keyed.erase_map _

theorem registry_add (valid : ∀ p ∈ m.listThreadList, p < m.objects.size) (t : RtpThread) :
    registry { m with objects := m.objects.add t } = m.registry :=
  List.map_congr_left fun p member => entryOf_add (valid p member)

end RtpThreadManager

namespace ScanState

variable {ι : Type*} [DecidableEq ι] {calls : ι → ListCall} {s s' : ScanState ι} {i j : ι}
  {p q : Nat}

/-- The registry a state stands for, and the results that stand. -/
def history (s : ScanState ι) : RegistryState ι :=
  ⟨s.manager.registry, fun i => (s.phase i).result.map (ListResult.map s.manager.entryOf)⟩

/-- The caller whose call the next step of `i` puts into effect. -/
def effects (calls : ι → ListCall) (s : ScanState ι) (i : ι) : List ι :=
  if (s.phase i).result.isNone && ((step calls s i).bind fun t => (t.phase i).result).isSome
  then [i]
  else []

/-- A push finds its type unlisted. -/
def PushesNew (calls : ι → ListCall) (s : ScanState ι) (i : ι) : Prop :=
  ∀ p, s.phase i = .locked p → ∀ q ∈ s.manager.listThreadList,
    (calls i).sought ≠ some (s.manager.typeOf q)

/-- A search that misses takes effect for every call but `addThread`. -/
theorem missed_effect {m : RtpThreadManager} {call : ListCall} {eType : RtpThreadType}
    (sought : call.sought = some eType) (absent : m.getThread eType = none) :
    call.missed.result = none ∨ ∃ result, call.missed.result = some result ∧
      m.registry.perform call = (result.map m.entryOf, m.registry) := by
  cases call with
  | addThread eType' pRoutine => exact .inl rfl
  | getThread eType' =>
      cases sought
      refine .inr ⟨_, rfl, ?_⟩
      rw [Registry.perform, m.find_registry, absent]
      rfl
  | cleanThread eType' =>
      cases sought
      refine .inr ⟨_, rfl, ?_⟩
      have kept : m.cleanThread eType = m := by
        rw [RtpThreadManager.cleanThread, Keyed.erase, List.eraseP_of_forall_not]
        intro p member same
        exact RtpThreadManager.getThread_eq_none_iff.mp absent p member
          (of_decide_eq_true same).symm
      rw [Registry.perform, m.erase_registry, kept]
      rfl
  | cleanAllThreads => cases sought

omit [DecidableEq ι] in
/-- A search that has found its type stands at the first entry of that type. -/
theorem Inv.found_first {eType : RtpThreadType} (inv : Inv calls s) (phase : s.phase i = .found p)
    (member : p ∈ s.manager.listThreadList) (sought : (calls i).sought = some eType) :
    s.manager.getThread eType = some p ∧
      Keyed.erase s.manager.typeOf s.manager.listThreadList eType =
        s.manager.listThreadList.erase p := by
  have holds := inv.holds i
  rw [phase] at holds
  obtain ⟨eType', standing, same⟩ := holds
  cases standing.sought.symm.trans sought
  exact ⟨(standing.passed member).find_eq member same,
    (standing.passed member).erase_eq member same⟩

/-- A step either changes neither the registry nor a result, or makes the result of its
caller, and then performs its call. -/
theorem Steps.effect (h : Steps calls s i s') (inv : Inv calls s)
    (new : PushesNew calls s i) :
    ((s'.phase i).result = (s.phase i).result ∧ s'.manager.registry = s.manager.registry) ∨
    ((s.phase i).result = none ∧ ∃ result, (s'.phase i).result = some result ∧
      s.manager.registry.perform (calls i) =
        (result.map s'.manager.entryOf, s'.manager.registry)) := by
  have holds := inv.holds i
  cases h with
  | begin phase | size phase | same phase | other phase | next phase | lock phase
  | unlock phase => exact .inl ⟨by simp [phase, ScanPhase.result, ScanState.enter], rfl⟩
  | @beginEmpty eType phase sought list =>
      have absent : s.manager.getThread eType = none := by
        rw [RtpThreadManager.getThread, list]
        rfl
      have before : (s.phase i).result = none := by rw [phase]; rfl
      have after : ((s.enter i (calls i).missed).phase i) = (calls i).missed := by simp
      rw [before, after]
      exact (missed_effect sought absent).imp (fun none => ⟨none, rfl⟩) fun made => ⟨rfl, made⟩
  | last phase member last =>
      rw [phase] at holds
      obtain ⟨eType, standing, other⟩ := holds
      have absent : s.manager.getThread eType = none :=
        (standing.passed member).find_eq_none member other last
      have before : (s.phase i).result = none := by rw [phase]; rfl
      have after : ((s.enter i (calls i).missed).phase i) = (calls i).missed := by simp
      rw [before, after]
      exact (missed_effect standing.sought absent).imp (fun none => ⟨none, rfl⟩)
        fun made => ⟨rfl, made⟩
  | sizeZero phase call list =>
      refine .inr ⟨by rw [phase]; rfl, .void, by simp [ScanPhase.result], ?_⟩
      rw [call]
      have empty : s.manager.registry = [] := by rw [RtpThreadManager.registry, list]; rfl
      exact congrArg (Prod.mk ListResult.void) empty.symm
  | clear phase =>
      rw [phase] at holds
      refine .inr ⟨by rw [phase]; rfl, .void, by simp [ScanPhase.result], ?_⟩
      rw [holds]
      rfl
  | refuse phase member call =>
      obtain ⟨found, _⟩ := inv.found_first phase member (by rw [call]; rfl)
      refine .inr ⟨by rw [phase]; rfl, .status .sFail, by simp [ScanPhase.result], ?_⟩
      rw [call, Registry.perform, s.manager.find_registry, found]
      rfl
  | @yield p eType phase member call =>
      obtain ⟨found, _⟩ := inv.found_first phase member (by rw [call]; rfl)
      refine .inr ⟨by rw [phase]; rfl, .thread (some p), by simp [ScanPhase.result], ?_⟩
      rw [call, Registry.perform, s.manager.find_registry, found]
      rfl
  | erase phase member call =>
      obtain ⟨_, erased⟩ := inv.found_first phase member (by rw [call]; rfl)
      refine .inr ⟨by rw [phase]; rfl, .void, by simp [ScanPhase.result], ?_⟩
      rw [call, Registry.perform, s.manager.erase_registry, RtpThreadManager.cleanThread, erased]
      rfl
  | allocate phase call =>
      refine .inl ⟨by simp [phase, ScanPhase.result, ScanState.enter], ?_⟩
      exact RtpThreadManager.registry_add inv.valid _
  | @push p phase =>
      rw [phase] at holds
      obtain ⟨⟨eType, pRoutine, call, entry⟩, valid, unlisted⟩ := holds
      have absent : s.manager.getThread eType = none :=
        RtpThreadManager.getThread_eq_none_iff.mpr fun q member same =>
          new p phase q member (by rw [call, same]; rfl)
      refine .inr ⟨by rw [phase]; rfl, .status .sOk, by simp [ScanPhase.result], ?_⟩
      have appended : (s.setList (s.manager.listThreadList ++ [p])).manager.registry =
          s.manager.registry ++ [(eType, pRoutine)] := by
        rw [← entry]
        exact List.map_append
      rw [call, Registry.perform, s.manager.find_registry, absent]
      exact congrArg (Prod.mk _) appended.symm

/-- A result that stands names a valid entry. -/
theorem Inv.map_result {result : ListResult Nat} (inv : Inv calls s) (h : Steps calls s i s')
    (stands : (s.phase j).result = some result) :
    result.map s'.manager.entryOf = result.map s.manager.entryOf := by
  have holds := inv.holds j
  cases phase : s.phase j <;> rw [phase] at holds stands <;>
    simp only [ScanPhase.result, Option.some.injEq, reduceCtorEq] at stands
  case pushed => rw [← stands]; rfl
  case returned last =>
    subst stands
    cases last with
    | status | void => rfl
    | thread found =>
        cases found with
        | none => rfl
        | some p => exact congrArg (fun e => ListResult.thread (some e)) (h.entryOf (holds p rfl))

theorem Steps.answer_of_same (h : Steps calls s i s') (inv : Inv calls s)
    (same : (s'.phase j).result = (s.phase j).result) :
    s'.history.answer j = s.history.answer j := by
  change (s'.phase j).result.map _ = (s.phase j).result.map _
  rw [same]
  cases stands : (s.phase j).result with
  | none => rfl
  | some result => exact congrArg some (inv.map_result h stands)

theorem Steps.effects_eq (h : step calls s i = some s') :
    effects calls s i =
      if (s.phase i).result = none ∧ (s'.phase i).result ≠ none then [i] else [] := by
  rw [effects, h]
  refine if_congr ?_ rfl rfl
  simp [Option.isSome_iff_ne_none]

/-- Each step is, in the registry, the call it puts into effect. -/
theorem step_refines (s : ScanState ι) (i : ι) (s' : ScanState ι) (inv : Inv calls s)
    (new : PushesNew calls s i) (h : step calls s i = some s') :
    run (RegistryState.step calls) s.history (effects calls s i) = some s'.history := by
  have steps := Steps.of_step h
  rw [Steps.effects_eq h]
  rcases steps.effect inv new with ⟨same, registry⟩ | ⟨none, result, made, performed⟩
  · rw [if_neg (by rw [same]; exact fun ⟨stands, missing⟩ => missing stands)]
    have answers : s'.history.answer = s.history.answer := funext fun j => by
      refine steps.answer_of_same inv ?_
      rcases eq_or_ne j i with rfl | other
      · exact same
      · rw [steps.phase_of_ne other]
    have histories : s'.history = s.history := congrArg₂ RegistryState.mk registry answers
    rw [histories]
    rfl
  · rw [if_pos ⟨none, by rw [made]; exact nofun⟩]
    have unanswered : s.history.answer i = .none := by
      change (s.phase i).result.map _ = .none
      rw [none]
      rfl
    have answers : Function.update s.history.answer i
        (some (result.map s'.manager.entryOf)) = s'.history.answer := funext fun j => by
      rw [Function.update_apply]
      split
      · next here =>
          rw [here]
          change _ = (s'.phase i).result.map _
          rw [made]
          rfl
      · next other => exact (steps.answer_of_same inv (by rw [steps.phase_of_ne other])).symm
    refine run_cons_iff.mpr ⟨_, RegistryState.step_of_unanswered unanswered, ?_⟩
    have registries : s.history.registry.perform (calls i) =
        (result.map s'.manager.entryOf, s'.manager.registry) := performed
    rw [registries, answers]
    rfl

/-! ## A push that is not new -/

theorem Steps.result_stands {result : ListResult Nat} (h : Steps calls s i s')
    (stands : (s.phase j).result = some result) : (s'.phase j).result = some result := by
  rcases eq_or_ne j i with rfl | other
  · cases h with
    | unlock phase => rw [phase] at stands; rw [enter_phase, if_pos rfl]; exact stands
    | begin phase | beginEmpty phase | size phase | sizeZero phase | same phase | other phase
    | next phase | last phase | refuse phase | yield phase | erase phase | clear phase
    | allocate phase | lock phase | push phase => rw [phase] at stands; cases stands
  · rwa [h.phase_of_ne other]

/-- A push of a listed type is accepted, and the registry refuses it. -/
theorem push_refused {r : RegistryState ι} (inv : Inv calls s) (twice : ¬ PushesNew calls s i)
    (h : step calls s i = some s')
    (performed : run (RegistryState.step calls) s.history (effects calls s i) = some r) :
    (s'.phase i).result = some (.status .sOk) ∧ r.answer i = some (.status .sFail) := by
  simp only [PushesNew, not_forall, not_not] at twice
  obtain ⟨p, phase, q, member, listed⟩ := twice
  have holds := inv.holds i
  rw [phase] at holds
  obtain ⟨⟨eType, pRoutine, call, entry⟩, valid, unlisted⟩ := holds
  have pushed : (s'.phase i).result = some (.status .sOk) := by
    simp only [step, phase, Option.some.injEq] at h
    rw [← h, enter_phase, if_pos rfl]
    rfl
  have before : (s.phase i).result = none := by rw [phase]; rfl
  refine ⟨pushed, ?_⟩
  rw [Steps.effects_eq h, if_pos ⟨before, by rw [pushed]; exact nofun⟩, run_cons_iff] at performed
  obtain ⟨r', first, ended⟩ := performed
  cases ended
  have unanswered : s.history.answer i = none := by
    change (s.phase i).result.map _ = none
    rw [before]
    rfl
  rw [RegistryState.step_of_unanswered unanswered] at first
  cases first
  rw [call] at listed ⊢
  cases found : s.manager.getThread eType with
  | none =>
      exact absurd (Option.some.inj listed).symm
        (RtpThreadManager.getThread_eq_none_iff.mp found q member)
  | some first =>
      have refused : s.history.registry.perform (.addThread eType pRoutine) =
          (.status .sFail, s.history.registry) := by
        have listed := s.manager.find_registry eType
        rw [found] at listed
        change s.manager.registry.perform _ = _
        rw [Registry.perform, listed]
        rfl
      rw [refused]
      exact Function.update_self ..

/-! ## Callers that keep their pushes new -/

/-- Where a search of `addThread` ends without a match, no other call for the type is
between its search and its push. -/
def SoleClaim (calls : ι → ListCall) (s : ScanState ι) (i : ι) : Prop :=
  s.misses i = true → (calls i).missed = .absent →
    ∀ j, (s.phase j).isPending = true → (calls j).sought ≠ (calls i).sought

instance [Fintype ι] (calls : ι → ListCall) (s : ScanState ι) (i : ι) :
    Decidable (SoleClaim calls s i) :=
  inferInstanceAs (Decidable (s.misses i = true → (calls i).missed = .absent →
    ∀ j, (s.phase j).isPending = true → (calls j).sought ≠ (calls i).sought))

/-- Pending calls have types of their own, and none of these is listed. -/
structure PendingNew (calls : ι → ListCall) (s : ScanState ι) : Prop where
  apart : ∀ i j, (s.phase i).isPending = true → (s.phase j).isPending = true →
    (calls i).sought = (calls j).sought → i = j
  unlisted : ∀ i, (s.phase i).isPending = true → ∀ p ∈ s.manager.listThreadList,
    (calls i).sought ≠ some (s.manager.typeOf p)

/-- A call becomes pending when its search misses, and then its type is not listed. -/
theorem Steps.pending_cases (h : Steps calls s i s') (inv : Inv calls s)
    (pending : (s'.phase i).isPending = true) :
    (s.phase i).isPending = true ∨ (s.misses i = true ∧ (calls i).missed = .absent ∧
      ∀ p ∈ s.manager.listThreadList, (calls i).sought ≠ some (s.manager.typeOf p)) := by
  have claims : (calls i).missed.isPending = true → (calls i).missed = .absent := by
    cases calls i <;> simp [ListCall.missed, ScanPhase.isPending]
  cases h with
  | beginEmpty phase sought list =>
      rw [enter_phase, if_pos rfl] at pending
      refine .inr ⟨by simp [misses, phase, list], claims pending, ?_⟩
      rw [list]
      exact fun p inside => absurd inside List.not_mem_nil
  | last phase member last =>
      rw [enter_phase, if_pos rfl] at pending
      have holds := inv.holds i
      rw [phase] at holds
      obtain ⟨eType, standing, other⟩ := holds
      have absent := Keyed.find_eq_none_iff.mp
        ((standing.passed member).find_eq_none member other last)
      refine .inr ⟨by simp [misses, phase, last], claims pending, fun p inside same => ?_⟩
      exact absent p inside (Option.some.inj (same.symm.trans standing.sought))
  | allocate phase | lock phase => exact .inl (by rw [phase]; rfl)
  | begin phase | size phase | sizeZero phase | same phase | other phase | next phase
  | refuse phase | yield phase | erase phase | clear phase | push phase | unlock phase =>
      rw [enter_phase, if_pos rfl] at pending
      cases pending

theorem Steps.pendingNew (h : Steps calls s i s') (inv : Inv calls s)
    (sole : SoleClaim calls s i) (before : PendingNew calls s) : PendingNew calls s' := by
  have others : ∀ j, j ≠ i → (s'.phase j).isPending = true → (s.phase j).isPending = true :=
    fun j other pending => by rwa [h.phase_of_ne other] at pending
  have sameAsOwn : ∀ j, (s'.phase i).isPending = true → (s'.phase j).isPending = true →
      (calls j).sought = (calls i).sought → j = i := by
    intro j own pending same
    by_contra other
    rcases h.pending_cases inv own with already | ⟨misses, claims, _⟩
    · exact other (before.apart j i (others j other pending) already same)
    · exact sole misses claims j (others j other pending) same
  constructor
  · intro j k first second same
    rcases eq_or_ne j i with rfl | otherJ
    · exact (sameAsOwn k first second same.symm).symm
    · rcases eq_or_ne k i with rfl | otherK
      · exact sameAsOwn j second first same
      · exact before.apart j k (others j otherJ first) (others k otherK second) same
  · intro j pending p member
    have type : s'.manager.typeOf p = s.manager.typeOf p := by
      refine congrArg Prod.fst (h.entryOf ?_)
      rcases (h.mem_list_iff inv p).mp member with ⟨old, _⟩ | locked
      · exact inv.valid p old
      · exact ((inv.holds i).made (by rw [locked]; rfl)).valid
    rw [type]
    rcases (h.mem_list_iff inv p).mp member with ⟨old, _⟩ | locked
    · rcases eq_or_ne j i with rfl | other
      · rcases h.pending_cases inv pending with already | ⟨_, _, absent⟩
        · exact before.unlisted j already p old
        · exact absent p old
      · exact before.unlisted j (others j other pending) p old
    · have own : (s.phase i).isPending = true := by rw [locked]; rfl
      have moved : j ≠ i := by
        rintro rfl
        cases h with
        | push => rw [enter_phase, if_pos rfl] at pending; cases pending
        | begin phase | beginEmpty phase | size phase | sizeZero phase | same phase
        | other phase | next phase | last phase | refuse phase | yield phase | erase phase
        | clear phase | allocate phase | lock phase | unlock phase =>
            rw [phase] at locked
            cases locked
      obtain ⟨eType, pRoutine, call, entry⟩ := ((inv.holds i).made (by rw [locked]; rfl)).call
      intro same
      refine moved (before.apart j i (others j moved pending) own (same.trans ?_))
      rw [call]
      exact congrArg some (congrArg Prod.fst entry)

omit [DecidableEq ι] in
theorem PendingNew.pushesNew (pending : PendingNew calls s) (i : ι) : PushesNew calls s i :=
  fun p locked q member => pending.unlisted i (by rw [locked]; rfl) q member

/-- **Linearizability.**  With each operation of `std::list` one step, a run leaves no
iterator at an erased node, answers every call, and leaves the list, as the registry does
when it performs each call at the step that puts it into effect, exactly when every `erase`
and `clear` of the run is made while no other call stands at a node it erases and every push
finds its type unlisted.  Every push does where no search of `addThread` misses while another
call for the type is between its search and its push. -/
theorem linearizable_iff {sched : List ι} (reached : run (step calls) init sched = some s) :
    (Always (step calls) NoDangling init sched ∧
        run (RegistryState.step calls) .init (trace (step calls) (effects calls) init sched) =
          some s.history ↔
      Along (step calls) (Undisturbed calls) init sched ∧
        Along (step calls) (PushesNew calls) init sched) ∧
    (Along (step calls) (SoleClaim calls) init sched →
      Along (step calls) (PushesNew calls) init sched) := by
  refine ⟨and_congr (always_noDangling_iff reached) ⟨?_, ?_⟩, ?_⟩
  · refine along_of_refined history step_inv step_refines ?_ inv_init reached
    intro s i t rest u r ops inv twice first onward performed back
    obtain ⟨accepted, refused⟩ := push_refused inv twice first performed
    have stands : (u.phase i).result = some (.status .sOk) :=
      run_invariant (P := fun s : ScanState ι => (s.phase i).result = some (.status .sOk))
        (fun _ _ _ stands next => (Steps.of_step next).result_stands stands) accepted onward
    have answered : u.history.answer i = some (.status .sFail) :=
      run_invariant (P := fun r : RegistryState ι => r.answer i = some (.status .sFail))
        (fun _ _ _ answered next => RegistryState.step_answer answered next) refused back
    change (u.phase i).result.map _ = _ at answered
    rw [stands] at answered
    cases answered
  · intro new
    have refined := run_refines (I := Inv calls) (fun s i t inv _ => step_inv s i t inv)
      step_refines inv_init new reached
    exact refined
  · intro sole
    have start : PendingNew calls init := ⟨nofun, nofun⟩
    have always : Always (step calls) (PendingNew calls) init sched :=
      always_of_along (Q := fun s => Inv calls s ∧ PendingNew calls s)
        (fun s i t kept sole h => ⟨step_inv s i t kept.1 h,
          (Steps.of_step h).pendingNew kept.1 sole kept.2⟩)
        (fun s kept => kept.2) ⟨inv_init, start⟩ sole
    exact along_of_always step_inv (fun s i t inv pending h after => pending.pushesNew i)
      inv_init reached always

/-- Two registrations, a search and an erasing. -/
def fourCalls : Fin 4 → ListCall
  | 0 => .addThread .main (some 1)
  | 1 => .addThread .capture (some 2)
  | 2 => .getThread .capture
  | 3 => .cleanThread .main

/-- A search that an erasing overtakes answers as if it came second. -/
theorem erasedBehind_linearizable :
    ∃ s, run (step fourCalls) init
        [0, 0, 0, 0, 0, 1, 1, 1, 1, 1, 1, 1, 2, 2, 2, 3, 3, 3, 2, 2] = some s ∧
      s.history.answer 2 = some (.thread (some (.capture, some 2))) ∧
      run (RegistryState.step fourCalls) .init (trace (step fourCalls) (effects fourCalls) init
        [0, 0, 0, 0, 0, 1, 1, 1, 1, 1, 1, 1, 2, 2, 2, 3, 3, 3, 2, 2]) = some s.history := by
  have undisturbed : Along (step fourCalls) (Undisturbed fourCalls) init
      [0, 0, 0, 0, 0, 1, 1, 1, 1, 1, 1, 1, 2, 2, 2, 3, 3, 3, 2, 2] := by
    decide
  have sole : Along (step fourCalls) (SoleClaim fourCalls) init
      [0, 0, 0, 0, 0, 1, 1, 1, 1, 1, 1, 1, 2, 2, 2, 3, 3, 3, 2, 2] := by
    decide
  obtain ⟨s, reached, answer⟩ : ∃ s, run (step fourCalls) init
      [0, 0, 0, 0, 0, 1, 1, 1, 1, 1, 1, 1, 2, 2, 2, 3, 3, 3, 2, 2] = some s ∧
        s.history.answer 2 = some (.thread (some (.capture, some 2))) := ⟨_, rfl, rfl⟩
  obtain ⟨precise, sufficient⟩ := linearizable_iff reached
  exact ⟨s, reached, answer, (precise.mpr ⟨undisturbed, sufficient sole⟩).2⟩

end ScanState

end OpenRtp
