import Mathlib.Data.Fintype.Basic
import OpenRtp.Base.Cursor
import OpenRtp.RtpThreadManager

/-!
# Concurrent calls on the list of threads

Any number of callers of `addThread`, `getThread`, `cleanThread` and
`cleanAllThreads`, interleaved at every access to the list: a search is a loop over
`iter` that takes no lock, so other callers append to the list and erase from it while
the search stands at one of its nodes.  Each operation of `std::list` is one step.
`iter` is named by the entry of its node, for an entry is listed once; using it after
the node was erased is undefined, and there is no step for it.

`Inv` is what every run keeps: each search has passed no entry of its type, and nobody
stands at an entry that is not yet listed.
-/

namespace OpenRtp

/-- One call on the list of the manager. -/
inductive ListCall
  | addThread (eType : RtpThreadType) (pRoutine : RtpThreadRoutine)
  | getThread (eType : RtpThreadType)
  | cleanThread (eType : RtpThreadType)
  | cleanAllThreads
deriving DecidableEq, Repr

/-- What a call returns, where threads are named by `π`. -/
inductive ListResult (π : Type)
  | status (ret : RtpResult)
  | thread (found : Option π)
  | void
deriving DecidableEq, Repr

def ListResult.map {π ρ : Type} (f : π → ρ) : ListResult π → ListResult ρ
  | .status ret => .status ret
  | .thread found => .thread (found.map f)
  | .void => .void

/-- How far a call has come. -/
inductive ScanPhase
  | called
  /-- The type of the entry at `iter` is compared next. -/
  | comparing (pThread : Nat)
  /-- The type was another one, and `iter++` is next. -/
  | advancing (pThread : Nat)
  /-- The type was the one sought, and `iter` is used once more. -/
  | found (pThread : Nat)
  /-- `size()` was not 0, and `clear()` is next. -/
  | clearing
  /-- `getThread` returned `NULL` to `addThread`. -/
  | absent
  | allocated (pThread : Nat)
  | locked (pThread : Nat)
  /-- The entry is in the list, the mutex still held. -/
  | pushed
  | returned (result : ListResult Nat)
deriving DecidableEq, Repr

namespace ListCall

/-- The type a call searches the list for. -/
def sought : ListCall → Option RtpThreadType
  | .addThread eType _ => some eType
  | .getThread eType => some eType
  | .cleanThread eType => some eType
  | .cleanAllThreads => none

/-- Where a search that reaches the end of the list leads. -/
def missed : ListCall → ScanPhase
  | .addThread _ _ => .absent
  | .getThread _ => .returned (.thread none)
  | .cleanThread _ => .returned .void
  | .cleanAllThreads => .returned .void

end ListCall

namespace ScanPhase

/-- The entry `iter` stands at. -/
def cursor : ScanPhase → Option Nat
  | .comparing pThread => some pThread
  | .advancing pThread => some pThread
  | .found pThread => some pThread
  | _ => none

/-- The entry the call has allocated and not yet listed. -/
def unlisted : ScanPhase → Option Nat
  | .allocated pThread => some pThread
  | .locked pThread => some pThread
  | _ => none

/-- The search found nothing and the entry is not in the list yet. -/
def isPending : ScanPhase → Bool
  | .absent => true
  | .allocated _ => true
  | .locked _ => true
  | _ => false

/-- The result of the call, once nothing can change it. -/
def result : ScanPhase → Option (ListResult Nat)
  | .pushed => some (.status .sOk)
  | .returned result => some result
  | _ => none

end ScanPhase

/-- The manager, the holder of `m_mtxThreadManagerMutex`, and the callers. -/
structure ScanState (ι : Type*) where
  manager : RtpThreadManager
  mutex : Option ι
  phase : ι → ScanPhase

namespace ScanState

variable {ι : Type*} [DecidableEq ι] {calls : ι → ListCall} {s s' : ScanState ι} {i j : ι}
  {m : RtpThreadManager} {p q : Nat}

def init : ScanState ι := ⟨RtpThreadManager.init, none, fun _ => .called⟩

def enter (s : ScanState ι) (i : ι) (phase : ScanPhase) : ScanState ι :=
  { s with phase := Function.update s.phase i phase }

/-- The state with another list. -/
def setList (s : ScanState ι) (list : List Nat) : ScanState ι :=
  { s with manager := { s.manager with listThreadList := list } }

/-- The next step of caller `i`; it waits while another caller holds the mutex. -/
def step (calls : ι → ListCall) (s : ScanState ι) (i : ι) : Option (ScanState ι) :=
  match s.phase i with
  | .called =>
      if (calls i).sought.isSome then
        match s.manager.listThreadList.head? with
        | some p => some (s.enter i (.comparing p))
        | none => some (s.enter i (calls i).missed)
      else if s.manager.listThreadList.length ≠ 0 then some (s.enter i .clearing)
      else some (s.enter i (.returned .void))
  | .comparing p =>
      if p ∈ s.manager.listThreadList then
        if (calls i).sought = some (s.manager.typeOf p) then some (s.enter i (.found p))
        else some (s.enter i (.advancing p))
      else none
  | .advancing p =>
      if p ∈ s.manager.listThreadList then
        match Cursor.next? s.manager.listThreadList p with
        | some q => some (s.enter i (.comparing q))
        | none => some (s.enter i (calls i).missed)
      else none
  | .found p =>
      if p ∈ s.manager.listThreadList then
        match calls i with
        | .addThread _ _ => some (s.enter i (.returned (.status .sFail)))
        | .getThread _ => some (s.enter i (.returned (.thread (some p))))
        | .cleanThread _ =>
            some ((s.setList (s.manager.listThreadList.erase p)).enter i (.returned .void))
        | .cleanAllThreads => none
      else none
  | .clearing => some ((s.setList []).enter i (.returned .void))
  | .absent =>
      match calls i with
      | .addThread eType pRoutine =>
          some (enter { s with manager :=
            { s.manager with objects := s.manager.objects.add (.new eType pRoutine) } }
            i (.allocated s.manager.objects.size))
      | _ => none
  | .allocated p =>
      if s.mutex = none then some (enter { s with mutex := some i } i (.locked p))
      else none
  | .locked p => some ((s.setList (s.manager.listThreadList ++ [p])).enter i .pushed)
  | .pushed => some (enter { s with mutex := none } i (.returned (.status .sOk)))
  | .returned _ => none

/-- The next step of `i` ends its search without a match. -/
def misses (s : ScanState ι) (i : ι) : Bool :=
  match s.phase i with
  | .called => s.manager.listThreadList.isEmpty
  | .advancing p => (Cursor.next? s.manager.listThreadList p).isNone
  | _ => false

/-- The steps of `step`, one constructor each. -/
inductive Steps (calls : ι → ListCall) (s : ScanState ι) (i : ι) : ScanState ι → Prop
  | begin {p : Nat} {ps : List Nat} {eType : RtpThreadType} (phase : s.phase i = .called)
      (sought : (calls i).sought = some eType) (list : s.manager.listThreadList = p :: ps) :
      Steps calls s i (s.enter i (.comparing p))
  | beginEmpty {eType : RtpThreadType} (phase : s.phase i = .called)
      (sought : (calls i).sought = some eType) (list : s.manager.listThreadList = []) :
      Steps calls s i (s.enter i (calls i).missed)
  | size (phase : s.phase i = .called) (call : calls i = .cleanAllThreads) :
      Steps calls s i (s.enter i .clearing)
  | sizeZero (phase : s.phase i = .called) (call : calls i = .cleanAllThreads)
      (list : s.manager.listThreadList = []) : Steps calls s i (s.enter i (.returned .void))
  | same {p : Nat} (phase : s.phase i = .comparing p) (member : p ∈ s.manager.listThreadList)
      (same : (calls i).sought = some (s.manager.typeOf p)) :
      Steps calls s i (s.enter i (.found p))
  | other {p : Nat} (phase : s.phase i = .comparing p) (member : p ∈ s.manager.listThreadList)
      (other : (calls i).sought ≠ some (s.manager.typeOf p)) :
      Steps calls s i (s.enter i (.advancing p))
  | next {p q : Nat} (phase : s.phase i = .advancing p)
      (member : p ∈ s.manager.listThreadList)
      (next : Cursor.next? s.manager.listThreadList p = some q) :
      Steps calls s i (s.enter i (.comparing q))
  | last {p : Nat} (phase : s.phase i = .advancing p)
      (member : p ∈ s.manager.listThreadList)
      (last : Cursor.next? s.manager.listThreadList p = none) :
      Steps calls s i (s.enter i (calls i).missed)
  | refuse {p : Nat} {eType : RtpThreadType} {pRoutine : RtpThreadRoutine}
      (phase : s.phase i = .found p) (member : p ∈ s.manager.listThreadList)
      (call : calls i = .addThread eType pRoutine) :
      Steps calls s i (s.enter i (.returned (.status .sFail)))
  | yield {p : Nat} {eType : RtpThreadType} (phase : s.phase i = .found p)
      (member : p ∈ s.manager.listThreadList) (call : calls i = .getThread eType) :
      Steps calls s i (s.enter i (.returned (.thread (some p))))
  | erase {p : Nat} {eType : RtpThreadType} (phase : s.phase i = .found p)
      (member : p ∈ s.manager.listThreadList) (call : calls i = .cleanThread eType) :
      Steps calls s i
        ((s.setList (s.manager.listThreadList.erase p)).enter i (.returned .void))
  | clear (phase : s.phase i = .clearing) :
      Steps calls s i ((s.setList []).enter i (.returned .void))
  | allocate {eType : RtpThreadType} {pRoutine : RtpThreadRoutine}
      (phase : s.phase i = .absent) (call : calls i = .addThread eType pRoutine) :
      Steps calls s i (enter { s with manager :=
        { s.manager with objects := s.manager.objects.add (.new eType pRoutine) } }
        i (.allocated s.manager.objects.size))
  | lock {p : Nat} (phase : s.phase i = .allocated p) (free : s.mutex = none) :
      Steps calls s i (enter { s with mutex := some i } i (.locked p))
  | push {p : Nat} (phase : s.phase i = .locked p) :
      Steps calls s i ((s.setList (s.manager.listThreadList ++ [p])).enter i .pushed)
  | unlock (phase : s.phase i = .pushed) :
      Steps calls s i (enter { s with mutex := none } i (.returned (.status .sOk)))

theorem Steps.of_step (h : step calls s i = some s') : Steps calls s i s' := by
  unfold step at h
  split at h
  · next phase =>
      split at h
      · next seeks =>
          obtain ⟨eType, sought⟩ := Option.isSome_iff_exists.mp seeks
          split at h
          · next p head =>
              obtain ⟨ps, list⟩ := List.head?_eq_some_iff.mp head
              cases h
              exact .begin phase sought list
          · next empty => cases h; exact .beginEmpty phase sought (List.head?_eq_none_iff.mp empty)
      · next seeks =>
          have call : calls i = .cleanAllThreads := by
            cases call : calls i <;> simp_all [ListCall.sought]
          split at h
          · cases h; exact .size phase call
          · next empty =>
              cases h
              exact .sizeZero phase call (List.eq_nil_of_length_eq_zero (of_not_not empty))
  · next p phase =>
      split at h
      · next member =>
          split at h
          · next same => cases h; exact .same phase member same
          · next other => cases h; exact .other phase member other
      · cases h
  · next p phase =>
      split at h
      · next member =>
          split at h
          · next q next => cases h; exact .next phase member next
          · next last => cases h; exact .last phase member last
      · cases h
  · next p phase =>
      split at h
      · next member =>
          split at h
          · next call => cases h; exact .refuse phase member call
          · next call => cases h; exact .yield phase member call
          · next call => cases h; exact .erase phase member call
          · cases h
      · cases h
  · next phase => cases h; exact .clear phase
  · next phase =>
      split at h
      · next call => cases h; exact .allocate phase call
      · cases h
  · next p phase =>
      split at h
      · next free => cases h; exact .lock phase free
      · cases h
  · next p phase => cases h; exact .push phase
  · next phase => cases h; exact .unlock phase
  · cases h

@[simp] theorem enter_phase (phase : ScanPhase) (j : ι) :
    (s.enter i phase).phase j = if j = i then phase else s.phase j :=
  Function.update_apply _ _ _ _

end ScanState

/-! ## What a phase says about the manager -/

/-- The type and the routine an entry was registered with. -/
def RtpThreadManager.entryOf (m : RtpThreadManager) (p : Nat) :
    RtpThreadType × RtpThreadRoutine :=
  ((m.deref p).eThreadType, (m.deref p).pThreadRoutine)

theorem RtpThreadManager.entryOf_add {m : RtpThreadManager} {t : RtpThread} {p : Nat}
    (valid : p < m.objects.size) :
    RtpThreadManager.entryOf { m with objects := m.objects.add t } p = m.entryOf p := by
  rw [entryOf, entryOf, deref_add_of_lt valid]

namespace ScanPhase

variable {m : RtpThreadManager} {call : ListCall} {phase : ScanPhase} {p q : Nat}
  {eType : RtpThreadType} {list : List Nat}

/-- The search stands at `p` and has passed no entry of its type. -/
structure Standing (m : RtpThreadManager) (call : ListCall) (eType : RtpThreadType) (p : Nat) :
    Prop where
  sought : call.sought = some eType
  valid : p < m.objects.size
  passed : p ∈ m.listThreadList → Cursor.Passed m.typeOf m.listThreadList eType p

/-- `addThread` has made the entry `p` and not listed it. -/
structure Made (m : RtpThreadManager) (call : ListCall) (p : Nat) : Prop where
  call : ∃ eType pRoutine, call = .addThread eType pRoutine ∧ m.entryOf p = (eType, pRoutine)
  valid : p < m.objects.size
  unlisted : p ∉ m.listThreadList

/-- What the phase of a call says about the manager. -/
def Holds (m : RtpThreadManager) (call : ListCall) : ScanPhase → Prop
  | .called => True
  | .comparing p => ∃ eType, Standing m call eType p
  | .advancing p => ∃ eType, Standing m call eType p ∧ m.typeOf p ≠ eType
  | .found p => ∃ eType, Standing m call eType p ∧ m.typeOf p = eType
  | .clearing => call = .cleanAllThreads
  | .absent => ∃ eType pRoutine, call = .addThread eType pRoutine
  | .allocated p => Made m call p
  | .locked p => Made m call p
  | .pushed => ∃ eType pRoutine, call = .addThread eType pRoutine
  | .returned result => ∀ p, result = .thread (some p) → p < m.objects.size

theorem Holds.valid_of_cursor (holds : phase.Holds m call) (cursor : phase.cursor = some p) :
    p < m.objects.size := by
  cases phase <;> simp only [ScanPhase.cursor, Option.some.injEq, reduceCtorEq] at cursor
  all_goals subst cursor
  case comparing => exact holds.choose_spec.valid
  case advancing => exact holds.choose_spec.1.valid
  case found => exact holds.choose_spec.1.valid

theorem Holds.made (holds : phase.Holds m call) (unlisted : phase.unlisted = some p) :
    Made m call p := by
  cases phase <;> simp only [ScanPhase.unlisted, Option.some.injEq, reduceCtorEq] at unlisted
  all_goals subst unlisted; exact holds

/-- No phase both stands at an entry and has it unlisted. -/
theorem cursor_ne_of_unlisted (unlisted : phase.unlisted = some p) : phase.cursor ≠ some q := by
  cases phase <;> simp_all [ScanPhase.unlisted, ScanPhase.cursor]

theorem missed_holds : call.missed.Holds m call := by
  cases call <;> simp [ListCall.missed, Holds]

@[simp] theorem missed_unlisted : call.missed.unlisted = none := by
  cases call <;> rfl

@[simp] theorem missed_cursor : call.missed.cursor = none := by
  cases call <;> rfl

/-- A change of the manager that keeps what the search has passed and what is unlisted
keeps what the phase says. -/
theorem Holds.mono {m' : RtpThreadManager} (holds : phase.Holds m call)
    (size : m.objects.size ≤ m'.objects.size)
    (entries : ∀ q, q < m.objects.size → m'.entryOf q = m.entryOf q)
    (standing : ∀ q eType, phase.cursor = some q → q ∈ m'.listThreadList →
      (q ∈ m.listThreadList → Cursor.Passed m.typeOf m.listThreadList eType q) →
      Cursor.Passed m'.typeOf m'.listThreadList eType q)
    (unlisted : ∀ q, phase.unlisted = some q → q ∉ m.listThreadList →
      q ∉ m'.listThreadList) : phase.Holds m' call := by
  have stands : ∀ q eType, phase.cursor = some q → Standing m call eType q →
      Standing m' call eType q := fun q eType cursor h =>
    ⟨h.sought, Nat.lt_of_lt_of_le h.valid size, fun member =>
      standing q eType cursor member h.passed⟩
  have made : ∀ q, phase.unlisted = some q → Made m call q → Made m' call q :=
    fun q fresh h =>
      ⟨entries q h.valid ▸ h.call, Nat.lt_of_lt_of_le h.valid size, unlisted q fresh h.unlisted⟩
  have types : ∀ q, q < m.objects.size → m'.typeOf q = m.typeOf q := fun q valid =>
    congrArg Prod.fst (entries q valid)
  cases phase with
  | called | clearing | absent | pushed => exact holds
  | comparing q =>
      obtain ⟨eType, h⟩ := holds
      exact ⟨eType, stands q eType rfl h⟩
  | advancing q =>
      obtain ⟨eType, h, other⟩ := holds
      exact ⟨eType, stands q eType rfl h, by rwa [types q h.valid]⟩
  | found q =>
      obtain ⟨eType, h, same⟩ := holds
      exact ⟨eType, stands q eType rfl h, by rwa [types q h.valid]⟩
  | allocated q | locked q => exact made q rfl holds
  | returned result => exact fun q here => Nat.lt_of_lt_of_le (holds q here) size

/-- Taking entries out of the list keeps what a phase says. -/
theorem Holds.of_sublist (holds : phase.Holds m call) (nodup : m.listThreadList.Nodup)
    (sublist : list.Sublist m.listThreadList) :
    phase.Holds { m with listThreadList := list } call :=
  holds.mono (Nat.le_refl _) (fun _ _ => rfl)
    (fun _ _ _ member passed => (passed (sublist.subset member)).sublist sublist nodup member)
    (fun _ _ absent member => absent (sublist.subset member))

/-- So does a new object. -/
theorem Holds.of_add (holds : phase.Holds m call)
    (valid : ∀ p ∈ m.listThreadList, p < m.objects.size) (t : RtpThread) :
    phase.Holds { m with objects := m.objects.add t } call :=
  holds.mono (by simp) (fun _ valid => RtpThreadManager.entryOf_add valid)
    (fun _ _ _ member passed => (passed member).congr fun q inside =>
      congrArg Prod.fst (RtpThreadManager.entryOf_add (valid q inside)))
    (fun _ _ absent => absent)

/-- So does listing an entry that the call neither stands at nor holds. -/
theorem Holds.of_push (holds : phase.Holds m call) (elsewhere : phase.cursor ≠ some q)
    (foreign : phase.unlisted ≠ some q) :
    phase.Holds { m with listThreadList := m.listThreadList ++ [q] } call := by
  refine holds.mono (Nat.le_refl _) (fun _ _ => rfl) (fun p eType cursor member passed => ?_)
    (fun p fresh absent member => ?_)
  · rcases List.mem_append.mp member with old | new
    · exact (passed old).append old
    · exact absurd (List.mem_singleton.mp new ▸ cursor) elsewhere
  · rcases List.mem_append.mp member with old | new
    · exact absent old
    · exact foreign (List.mem_singleton.mp new ▸ fresh)

end ScanPhase

namespace ScanState

variable {ι : Type*} [DecidableEq ι] {calls : ι → ListCall} {s s' : ScanState ι} {i j : ι}
  {p q : Nat} {list : List Nat}

/-- Entries are listed once, and what the callers have noted is true of the manager. -/
structure Inv (calls : ι → ListCall) (s : ScanState ι) : Prop where
  valid : ∀ p ∈ s.manager.listThreadList, p < s.manager.objects.size
  nodup : s.manager.listThreadList.Nodup
  holds : ∀ i, (s.phase i).Holds s.manager (calls i)
  apart : ∀ i j p, (s.phase i).unlisted = some p → (s.phase j).unlisted = some p → i = j
  once : ∀ i j p, (s.phase i).unlisted = some p → (s.phase j).cursor ≠ some p

omit [DecidableEq ι] in
theorem inv_init : Inv calls init where
  valid p member := by cases member
  nodup := List.nodup_nil
  holds i := trivial
  apart i j p unlisted := by cases unlisted
  once i j p unlisted := by cases unlisted

theorem Inv.enter {phase : ScanPhase} (inv : Inv calls s) (holds : phase.Holds s.manager (calls i))
    (unlisted : ∀ p, phase.unlisted = some p → ∀ j, j ≠ i →
      (s.phase j).unlisted ≠ some p ∧ (s.phase j).cursor ≠ some p)
    (cursor : ∀ p, phase.cursor = some p → ∀ j, j ≠ i → (s.phase j).unlisted ≠ some p) :
    Inv calls (s.enter i phase) := by
  refine ⟨inv.valid, inv.nodup, fun j => ?_, fun j k p first second => ?_,
    fun j k p first second => ?_⟩
  · rw [enter_phase]
    split
    · next here => rw [here]; exact holds
    · exact inv.holds j
  · rw [enter_phase] at first second
    split at first
    · next atJ =>
        split at second
        · next atK => rw [atJ, atK]
        · next notK => exact absurd second (unlisted p first k notK).1
    · next notJ =>
        split at second
        · exact absurd first (unlisted p second j notJ).1
        · exact inv.apart j k p first second
  · rw [enter_phase] at first second
    split at first
    · split at second
      · exact ScanPhase.cursor_ne_of_unlisted first second
      · next notK => exact (unlisted p first k notK).2 second
    · next notJ =>
        split at second
        · exact cursor p second j notJ first
        · exact inv.once j k p first second

/-- A phase that stands nowhere new and holds nothing new. -/
theorem Inv.enter_of_subset {phase : ScanPhase} (inv : Inv calls s)
    (holds : phase.Holds s.manager (calls i))
    (unlisted : ∀ p, phase.unlisted = some p → (s.phase i).unlisted = some p)
    (cursor : ∀ p, phase.cursor = some p → p ∈ s.manager.listThreadList) :
    Inv calls (s.enter i phase) := by
  refine inv.enter holds (fun p fresh j other => ⟨fun same => ?_, ?_⟩)
    fun p here j _ fresh => ?_
  · exact other (inv.apart j i p same (unlisted p fresh))
  · exact inv.once i j p (unlisted p fresh)
  · exact ((inv.holds j).made fresh).unlisted (cursor p here)

/-- A phase whose iterator is at a listed node. -/
theorem Inv.stand {phase : ScanPhase} (inv : Inv calls s)
    (holds : phase.Holds s.manager (calls i)) (cursor : phase.cursor = some p)
    (nothing : phase.unlisted = none) (member : p ∈ s.manager.listThreadList) :
    Inv calls (s.enter i phase) :=
  inv.enter_of_subset holds (by simp [nothing]) (by simpa [cursor] using member)

/-- A phase without an iterator. -/
theorem Inv.rest {phase : ScanPhase} (inv : Inv calls s)
    (holds : phase.Holds s.manager (calls i)) (nowhere : phase.cursor = none)
    (nothing : phase.unlisted = none) : Inv calls (s.enter i phase) :=
  inv.enter_of_subset holds (by simp [nothing]) (by simp [nowhere])

section

omit [DecidableEq ι]

theorem Inv.setList (inv : Inv calls s) (sublist : list.Sublist s.manager.listThreadList) :
    Inv calls (s.setList list) :=
  ⟨fun p member => inv.valid p (sublist.subset member), inv.nodup.sublist sublist,
    fun i => (inv.holds i).of_sublist inv.nodup sublist, inv.apart, inv.once⟩

theorem Inv.setMutex (inv : Inv calls s) (mutex : Option ι) : Inv calls { s with mutex } :=
  ⟨inv.valid, inv.nodup, inv.holds, inv.apart, inv.once⟩

theorem Inv.allocate (inv : Inv calls s) (t : RtpThread) :
    Inv calls { s with manager := { s.manager with objects := s.manager.objects.add t } } :=
  ⟨fun p member => Nat.lt_of_lt_of_eq (Nat.lt_succ_of_lt (inv.valid p member))
      (Table.size_add _ _).symm,
    inv.nodup, fun i => (inv.holds i).of_add inv.valid t, inv.apart, inv.once⟩

theorem Inv.push (inv : Inv calls s) (valid : p < s.manager.objects.size)
    (unlisted : p ∉ s.manager.listThreadList)
    (foreign : ∀ j, (s.phase j).unlisted ≠ some p ∧ (s.phase j).cursor ≠ some p) :
    Inv calls (s.setList (s.manager.listThreadList ++ [p])) := by
  refine ⟨fun q member => ?_, ?_, fun j => (inv.holds j).of_push (foreign j).2 (foreign j).1,
    inv.apart, inv.once⟩
  · rcases List.mem_append.mp member with old | new
    · exact inv.valid q old
    · rwa [List.mem_singleton.mp new]
  · refine List.nodup_append.mpr
      ⟨inv.nodup, List.nodup_singleton p, fun q member r last equal => ?_⟩
    rw [equal, List.mem_singleton.mp last] at member
    exact unlisted member

theorem Inv.standing {eType : RtpThreadType} (inv : Inv calls s)
    (cursor : (s.phase i).cursor = some p)
    (sought : (calls i).sought = some eType) : ScanPhase.Standing s.manager (calls i) eType p := by
  have holds := inv.holds i
  cases phase : s.phase i <;> rw [phase] at holds cursor <;>
    simp only [ScanPhase.cursor, Option.some.injEq, reduceCtorEq] at cursor
  all_goals
    subst cursor
    obtain ⟨eType', standing⟩ := holds
  case comparing =>
    have same : eType' = eType := Option.some.inj (standing.sought.symm.trans sought)
    exact same ▸ standing
  case advancing | found =>
    have same : eType' = eType := Option.some.inj (standing.1.sought.symm.trans sought)
    exact same ▸ standing.1

end

theorem Steps.inv (h : Steps calls s i s') (inv : Inv calls s) : Inv calls s' := by
  have stands : ∀ {p eType}, (s.phase i).cursor = some p → (calls i).sought = some eType →
      ScanPhase.Standing s.manager (calls i) eType p := inv.standing
  have holds := inv.holds i
  cases h with
  | @begin p ps eType phase sought list =>
      have member : p ∈ s.manager.listThreadList := by rw [list]; exact List.mem_cons_self
      refine inv.stand ⟨eType, sought, inv.valid p member, fun _ => ?_⟩ rfl rfl member
      rw [list]
      exact .head
  | beginEmpty | last => exact inv.rest ScanPhase.missed_holds (by simp) (by simp)
  | size phase call => exact inv.rest call rfl rfl
  | sizeZero phase call list => exact inv.rest (by simp [ScanPhase.Holds]) rfl rfl
  | same phase member same =>
      exact inv.stand ⟨_, stands (by rw [phase]; rfl) same, rfl⟩ rfl rfl member
  | other phase member other =>
      rw [phase] at holds
      obtain ⟨eType, standing⟩ := holds
      refine inv.stand ⟨eType, standing, fun same => other ?_⟩ rfl rfl member
      rw [standing.sought, same]
  | @next p q phase member next =>
      rw [phase] at holds
      obtain ⟨eType, standing, other⟩ := holds
      obtain ⟨inside, passed⟩ := (standing.passed member).next inv.nodup member other next
      exact inv.stand ⟨eType, standing.sought, inv.valid q inside, fun _ => passed⟩ rfl rfl
        inside
  | refuse phase member call => exact inv.rest (by simp [ScanPhase.Holds]) rfl rfl
  | @yield p eType phase member call =>
      exact inv.rest (by simpa [ScanPhase.Holds] using inv.valid p member) rfl rfl
  | erase phase member call =>
      exact (inv.setList List.erase_sublist).rest (by simp [ScanPhase.Holds]) rfl rfl
  | clear phase =>
      exact (inv.setList (List.nil_sublist _)).rest (by simp [ScanPhase.Holds]) rfl rfl
  | @allocate eType pRoutine phase call =>
      refine (inv.allocate (.new eType pRoutine)).enter ⟨⟨eType, pRoutine, call, ?_⟩, ?_, ?_⟩ ?_
        (by simp [ScanPhase.cursor])
      · simp [RtpThreadManager.entryOf, RtpThreadManager.deref, RtpThread.new]
      · simp
      · exact fun member => Nat.lt_irrefl _ (inv.valid _ member)
      · rintro p ⟨⟩ j _
        exact ⟨fun same => Nat.lt_irrefl _ ((inv.holds j).made same).valid,
          fun same => Nat.lt_irrefl _ ((inv.holds j).valid_of_cursor same)⟩
  | lock phase free =>
      rw [phase] at holds
      exact (inv.setMutex (some i)).enter_of_subset holds (by rw [phase]; exact fun _ => id)
        (by simp [ScanPhase.cursor])
  | @push p phase =>
      rw [phase] at holds
      obtain ⟨⟨eType, pRoutine, call, entry⟩, valid, unlisted⟩ := holds
      have own : (s.phase i).unlisted = some p := by rw [phase]; rfl
      have pushed : Inv calls (s.enter i .pushed) := inv.rest ⟨eType, pRoutine, call⟩ rfl rfl
      refine pushed.push valid unlisted fun j => ?_
      rw [enter_phase]
      split
      · simp [ScanPhase.cursor, ScanPhase.unlisted]
      · next other => exact ⟨fun same => other (inv.apart j i p same own), inv.once i j p own⟩
  | unlock phase => exact (inv.setMutex none).rest (by simp [ScanPhase.Holds]) rfl rfl

theorem step_inv (s : ScanState ι) (i : ι) (s' : ScanState ι) (inv : Inv calls s)
    (h : step calls s i = some s') : Inv calls s' :=
  (Steps.of_step h).inv inv

theorem Steps.phase_of_ne (h : Steps calls s i s') (other : j ≠ i) :
    s'.phase j = s.phase j := by
  cases h <;> exact (enter_phase _ j).trans (if_neg other)

/-! ## What a step touches -/

/-- Objects stay as they are. -/
theorem Steps.deref (h : Steps calls s i s') (valid : p < s.manager.objects.size) :
    s'.manager.deref p = s.manager.deref p := by
  cases h with
  | allocate => exact RtpThreadManager.deref_add_of_lt valid
  | begin | beginEmpty | size | sizeZero | same | other | next | last | refuse | yield | erase
  | clear | lock | push | unlock => rfl

theorem Steps.entryOf (h : Steps calls s i s') (valid : p < s.manager.objects.size) :
    s'.manager.entryOf p = s.manager.entryOf p :=
  congrArg (fun t => (t.eThreadType, t.pThreadRoutine)) (h.deref valid)

/-- The entries whose nodes the next step of `i` erases. -/
def erased (calls : ι → ListCall) (s : ScanState ι) (i : ι) : List Nat :=
  match s.phase i, calls i with
  | .found p, .cleanThread _ => [p]
  | .clearing, _ => s.manager.listThreadList
  | _, _ => []

/-- A step takes out of the list what it erases and puts into it what it pushes. -/
theorem Steps.mem_list_iff (h : Steps calls s i s') (inv : Inv calls s) (q : Nat) :
    q ∈ s'.manager.listThreadList ↔
      (q ∈ s.manager.listThreadList ∧ q ∉ s.erased calls i) ∨ s.phase i = .locked q := by
  cases h with
  | erase phase member call =>
      simp [erased, phase, call, setList, ScanState.enter, inv.nodup.mem_erase_iff, and_comm]
  | clear phase => simp [erased, phase, setList, ScanState.enter]
  | push phase => simp [erased, phase, setList, ScanState.enter, eq_comm]
  | refuse phase member call | yield phase member call | allocate phase call =>
      simp [erased, phase, call, ScanState.enter]
  | begin phase | beginEmpty phase | size phase | sizeZero phase | same phase | other phase
  | next phase | last phase | lock phase | unlock phase =>
      simp [erased, phase, ScanState.enter]

/-- A caller that moves stands at a node of the list. -/
theorem Steps.cursor_mem (h : Steps calls s i s') (cursor : (s'.phase i).cursor = some p) :
    p ∈ s'.manager.listThreadList := by
  cases h with
  | begin phase sought list =>
      rw [enter_phase, if_pos rfl] at cursor
      cases cursor
      change p ∈ s.manager.listThreadList
      rw [list]
      exact List.mem_cons_self
  | next phase member next =>
      rw [enter_phase, if_pos rfl] at cursor
      cases cursor
      exact Cursor.mem_of_next? next
  | same phase member | other phase member =>
      rw [enter_phase, if_pos rfl] at cursor
      cases cursor
      exact member
  | beginEmpty | last => simp at cursor
  | size | sizeZero | refuse | yield | erase | clear | allocate | lock | push | unlock =>
      rw [enter_phase, if_pos rfl] at cursor
      cases cursor

/-! ## Iterators at erased nodes -/

/-- Every iterator stands at a node of the list. -/
def NoDangling (s : ScanState ι) : Prop :=
  Cursor.Listed (fun i => (s.phase i).cursor) s.manager.listThreadList

/-- Nobody else stands at a node that the next step of `i` erases. -/
def Undisturbed (calls : ι → ListCall) (s : ScanState ι) (i : ι) : Prop :=
  ∀ j, j ≠ i → ∀ p, (s.phase j).cursor = some p → p ∉ s.erased calls i

instance [Fintype ι] (calls : ι → ListCall) (s : ScanState ι) (i : ι) :
    Decidable (Undisturbed calls s i) :=
  inferInstanceAs (Decidable (∀ j, j ≠ i → ∀ p ∈ (s.phase j).cursor, p ∉ s.erased calls i))

omit [DecidableEq ι] in
theorem Inv.locked_unlisted (inv : Inv calls s) (locked : s.phase i = .locked p) :
    p ∉ s.manager.listThreadList :=
  ((inv.holds i).made (by rw [locked]; rfl)).unlisted

theorem Steps.noDangling_iff_undisturbed (h : Steps calls s i s') (inv : Inv calls s)
    (before : NoDangling s) : NoDangling s' ↔ Undisturbed calls s i :=
  before.iff_of_move (fun j other => by rw [h.phase_of_ne other]) (fun _ => h.cursor_mem)
    (h.mem_list_iff inv) fun _ => inv.locked_unlisted

/-- No state of a run has an iterator at a node that is no longer in the list exactly when no
step of the run erases a node under another iterator. -/
theorem always_noDangling_iff {sched : List ι} (reached : run (step calls) init sched = some s) :
    Always (step calls) NoDangling init sched ↔
      Along (step calls) (Undisturbed calls) init sched :=
  always_iff_along step_inv
    (fun _ _ _ inv before h => (Steps.of_step h).noDangling_iff_undisturbed inv before)
    inv_init (fun _ _ standing => by cases standing) reached

end ScanState

end OpenRtp
