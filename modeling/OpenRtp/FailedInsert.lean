import OpenRtp.Base.ThrowingAppend
import OpenRtp.ConcurrentInsert

/-!
# Insertions that fail

`InsertRtpPacket` and `InsertRtcpPacket` lock, push back and unlock, and `push_back` throws when
it cannot allocate.  No destructor unlocks on the way out, so a session stays usable exactly as
long as every `push_back` succeeds (`session_usable_iff`).
-/

namespace OpenRtp

open LockedAppend (itemsOf itemsOf_singleton)
open ThrowingAppend

/-- A session whose insertions may throw, and its callers. -/
abbrev FailingSession (ι : Type*) :=
  ThrowingAppend.State ι SessionMutex SessionVector SessionCall SessionVector.Item

/-- A step of a caller in `InsertRtpPacket` or `InsertRtcpPacket`. -/
abbrev InsertStep (ι : Type*) := Action ι SessionCall

namespace FailingSession

open SessionCall

variable {ι : Type*} [DecidableEq ι] {acts : List (InsertStep ι)} {s t : FailingSession ι}

/-- A new session. -/
def init : FailingSession ι := State.init

/-- `Lock`, `push_back`, which may throw, and `Unlock`. -/
def step (s : FailingSession ι) (a : InsertStep ι) : Option (FailingSession ι) :=
  ThrowingAppend.step body s a

/-- The packet of an insertion that has pushed it back and not unlocked yet. -/
def pushedIn (k : SessionVector) : Phase SessionCall → List k.Item
  | .appended call => packets k [call]
  | .outside | .locked _ => []

/-- The packets of the insertions under way. -/
def pushed (s : FailingSession ι) (k : SessionVector) : List k.Item :=
  match s.holder k.guard with
  | none => []
  | some i => pushedIn k (s.phase i)

/-- No caller outside an insertion holds a mutex, the vectors hold the packets of the insertions
that returned, in order, and every later insertion can acquire its lock. -/
structure Usable (s : FailingSession ι) : Prop where
  released : ∀ i, s.phase i = .outside → ∀ m, s.holder m ≠ some i
  contents : ∀ k, s.vectors k = packets k s.returned ++ s.pushed k
  lockable : ∀ i call, s.phase i = .outside → ∃ acts t,
    (∀ a ∈ acts, a.caller ≠ i) ∧ run step s acts = some t ∧ (step t (.lock i call)).isSome

theorem run_inv (reached : run step init acts = some s) : Inv body SessionVector.guard s :=
  run_invariant (fun _ _ _ inv stepped => inv_step guarded inv stepped) inv_init reached

theorem items_body (k : SessionVector) (phase : Phase SessionCall) :
    phase.items body k = pushedIn k phase := by
  cases phase with
  | outside | locked => rfl
  | appended call => exact (itemsOf_singleton body k call).symm.trans (itemsOf_body k [call])

omit [DecidableEq ι] in
theorem inFlight_body (s : FailingSession ι) (k : SessionVector) :
    s.inFlight body SessionVector.guard k = s.pushed k := by
  rw [State.inFlight, pushed]
  cases s.holder k.guard with
  | none => rfl
  | some i => exact items_body k (s.phase i)

theorem usable_iff : s.Usable ↔ ThrowingAppend.Usable body SessionVector.guard s := by
  have contents : ∀ k, (s.vectors k = packets k s.returned ++ s.pushed k ↔
      s.vectors k = itemsOf body k s.returned ++ s.inFlight body SessionVector.guard k) :=
    fun k => by rw [itemsOf_body, inFlight_body]
  constructor
  · intro usable
    exact ⟨usable.released, fun k => (contents k).mp (usable.contents k), usable.lockable⟩
  · intro usable
    exact ⟨usable.released, fun k => (contents k).mpr (usable.contents k), usable.lockable⟩

/-- Between insertions the mutexes of a usable session are free, and its vectors hold the
packets of the insertions that returned. -/
theorem Usable.quiet (usable : s.Usable) (quiet : ∀ i, s.phase i = .outside) :
    (∀ m, s.holder m = none) ∧ ∀ k, s.vectors k = packets k s.returned := by
  have free : ∀ m, s.holder m = none := by
    intro m
    cases held : s.holder m with
    | none => rfl
    | some i => exact absurd held (usable.released i (quiet i) m)
  refine ⟨free, fun k => ?_⟩
  have contents := usable.contents k
  rw [pushed, free, List.append_nil] at contents
  exact contents

/-- **Failed insertions.** For any callers and any interleaving of their insertions, every
state of a run is usable exactly when no `push_back` of the run throws.  One that throws changes
no vector and leaves the mutex with its caller, and from then on no run acquires it. -/
theorem session_usable_iff (reached : run step init acts = some s) :
    (Always step Usable init acts ↔ Along step (fun _ a => ¬ a.Throws) init acts) ∧
    ∀ a t, step s a = some t → a.Throws →
      ∃ call, s.phase a.caller = .locked call ∧ t.phase a.caller = .outside ∧
        t.vectors = s.vectors ∧ t.holder call.vector.guard = some a.caller ∧
        ∀ acts' t', run step t acts' = some t' → ∀ i, step t' (.lock i call) = none := by
  have inv := run_inv reached
  have agrees : Always step Usable init acts ↔
      Always step (ThrowingAppend.Usable body SessionVector.guard) init acts :=
    ⟨Always.imp fun _ => usable_iff.mp, Always.imp fun _ => usable_iff.mpr⟩
  refine ⟨agrees.trans (always_usable_iff guarded reached), fun a t stepped throws => ?_⟩
  obtain ⟨call, here, outside, vectors, held, abandoned⟩ :=
    abandoned_of_throws inv throws stepped
  refine ⟨call, here, outside, vectors, mutex_body call ▸ held, fun acts' t' later i => ?_⟩
  exact abandoned_forever guarded (inv_step guarded inv stepped) abandoned later i

/-- Two callers whose insertions all succeed, one of them waiting for the other. -/
theorem session_usable_iff_interleaved :
    Always step Usable (init : FailingSession Bool)
      [.lock true (insertRtpPacket (SessionState.numbered 1)), .append true,
        .lock false (insertRtcpPacket ⟨none⟩), .unlock true,
        .append false, .unlock false,
        .lock false (insertRtpPacket (SessionState.numbered 2)), .append false,
        .unlock false] := by
  have reached : run step (init : FailingSession Bool)
      [.lock true (insertRtpPacket (SessionState.numbered 1)), .append true,
        .lock false (insertRtcpPacket ⟨none⟩), .unlock true,
        .append false, .unlock false,
        .lock false (insertRtpPacket (SessionState.numbered 2)), .append false,
        .unlock false] = some _ := rfl
  exact (session_usable_iff reached).1.mpr (by decide)

/-- The first insertion of a packet throws, and the caller waits for itself at the second. -/
theorem thrown_insert_keeps_lock :
    ∃ s : FailingSession Unit,
      run step init [.lock () (insertRtpPacket (SessionState.numbered 1)), .throw ()] = some s ∧
      s.phase () = .outside ∧ s.holder .mtxRtpMutex = some () ∧ s.vectors .vRtpPackets = [] ∧
      step s (.lock () (insertRtpPacket (SessionState.numbered 2))) = none ∧ ¬ s.Usable := by
  refine ⟨_, rfl, rfl, rfl, rfl, rfl, fun usable => ?_⟩
  exact usable.released () rfl .mtxRtpMutex rfl

end FailingSession

end OpenRtp
