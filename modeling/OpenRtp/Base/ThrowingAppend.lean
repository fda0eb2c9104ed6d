import OpenRtp.Base.LockedAppend

/-!
# Appending under a lock, with failures

Calls that take a mutex, append an item to a vector and give the mutex back, where the append
may throw.  Nothing gives the mutex back on the way out of a call that throws, and the mutexes
are not recursive: a caller that holds one waits for it like any other.

A session of such calls is usable (`Usable`) if no caller outside a call holds a mutex, the
vectors hold what the calls that returned appended, and every mutex can be acquired.  Runs stay
usable exactly when no append throws (`always_usable_iff`), and a mutex once left behind is
never acquired again (`abandoned_forever`).
-/

namespace OpenRtp.ThrowingAppend

open LockedAppend

/-- Where a caller stands in its call. -/
inductive Phase (γ : Type*)
  | outside
  | locked (call : γ)
  | appended (call : γ)
deriving DecidableEq, Repr

/-- The call a caller is in. -/
def Phase.call {γ : Type*} : Phase γ → Option γ
  | outside => none
  | locked call => some call
  | appended call => some call

/-- A step of caller `i`. -/
inductive Action (ι γ : Type*)
  | lock (i : ι) (call : γ)
  | append (i : ι)
  | throw (i : ι)
  | unlock (i : ι)
deriving DecidableEq, Repr

def Action.caller {ι γ : Type*} : Action ι γ → ι
  | lock i _ | append i | throw i | unlock i => i

/-- The append of the step throws. -/
def Action.Throws {ι γ : Type*} : Action ι γ → Prop
  | throw _ => True
  | lock _ _ | append _ | unlock _ => False

instance {ι γ : Type*} : ∀ a : Action ι γ, Decidable a.Throws
  | .throw _ => isTrue trivial
  | .lock _ _ | .append _ | .unlock _ => isFalse id

variable {ι μ κ γ : Type*} {Item : κ → Type*}

/-- The mutexes with their holders, the vectors, the callers, and the calls that have
returned. -/
structure State (ι μ κ γ : Type*) (Item : κ → Type*) where
  holder : μ → Option ι
  vectors : (k : κ) → List (Item k)
  phase : ι → Phase γ
  returned : List γ

def State.init : State ι μ κ γ Item where
  holder := fun _ => none
  vectors := fun _ => []
  phase := fun _ => .outside
  returned := []

section Step

variable [DecidableEq ι] [DecidableEq μ] [DecidableEq κ] (body : γ → Call μ κ Item)

namespace State

variable (s : State ι μ κ γ Item) (i : ι) (call : γ)

def lock : State ι μ κ γ Item :=
  { s with
    holder := Function.update s.holder (body call).mutex (some i)
    phase := Function.update s.phase i (.locked call) }

def append : State ι μ κ γ Item :=
  { s with
    vectors := Function.update s.vectors (body call).vector
      (s.vectors (body call).vector ++ [(body call).item])
    phase := Function.update s.phase i (.appended call) }

def throw : State ι μ κ γ Item :=
  { s with phase := Function.update s.phase i .outside }

def unlock : State ι μ κ γ Item :=
  { s with
    holder := Function.update s.holder (body call).mutex none
    phase := Function.update s.phase i .outside
    returned := s.returned ++ [call] }

end State

/-- One step; `lock` waits while anyone holds the mutex. -/
def step (s : State ι μ κ γ Item) : Action ι γ → Option (State ι μ κ γ Item)
  | .lock i call =>
      match s.phase i, s.holder (body call).mutex with
      | .outside, none => some (s.lock body i call)
      | _, _ => none
  | .append i =>
      match s.phase i with
      | .locked call => some (s.append body i call)
      | .outside | .appended _ => none
  | .throw i =>
      match s.phase i with
      | .locked _ => some (s.throw i)
      | .outside | .appended _ => none
  | .unlock i =>
      match s.phase i with
      | .appended call => some (s.unlock body i call)
      | .outside | .locked _ => none

variable {s t : State ι μ κ γ Item} {a : Action ι γ} {i j : ι}

/-- The steps of `step`, one constructor each. -/
inductive Steps (s : State ι μ κ γ Item) : Action ι γ → State ι μ κ γ Item → Prop
  | lock {i : ι} {call : γ} (outside : s.phase i = .outside)
      (free : s.holder (body call).mutex = none) : Steps s (.lock i call) (s.lock body i call)
  | append {i : ι} {call : γ} (here : s.phase i = .locked call) :
      Steps s (.append i) (s.append body i call)
  | throw {i : ι} {call : γ} (here : s.phase i = .locked call) : Steps s (.throw i) (s.throw i)
  | unlock {i : ι} {call : γ} (here : s.phase i = .appended call) :
      Steps s (.unlock i) (s.unlock body i call)

variable {body}

theorem Steps.of_step (stepped : step body s a = some t) : Steps body s a t := by
  cases a with
  | lock i call =>
      simp only [step] at stepped
      split at stepped
      · next outside free => cases stepped; exact .lock outside free
      · cases stepped
  | append i =>
      cases here : s.phase i with
      | outside | appended => simp [step, here] at stepped
      | locked call =>
          simp only [step, here] at stepped
          cases stepped
          exact .append here
  | throw i =>
      cases here : s.phase i with
      | outside | appended => simp [step, here] at stepped
      | locked call =>
          simp only [step, here] at stepped
          cases stepped
          exact .throw here
  | unlock i =>
      cases here : s.phase i with
      | outside | locked => simp [step, here] at stepped
      | appended call =>
          simp only [step, here] at stepped
          cases stepped
          exact .unlock here

end Step

/-! ## Who holds what -/

/-- What the calls under way have appended to the vector `k`: the holder of its mutex may be
between its append and its unlock. -/
def Phase.items [DecidableEq κ] (body : γ → Call μ κ Item) (k : κ) : Phase γ → List (Item k)
  | appended call => ((body call).itemAt k).toList
  | outside | locked _ => []

def State.inFlight [DecidableEq κ] (body : γ → Call μ κ Item) (guard : κ → μ)
    (s : State ι μ κ γ Item) (k : κ) : List (Item k) :=
  match s.holder (guard k) with
  | none => []
  | some i => (s.phase i).items body k

/-- Every caller in a call holds its mutex, and the vectors hold what the calls that returned
appended, and what the calls under way did. -/
structure Inv [DecidableEq κ] (body : γ → Call μ κ Item) (guard : κ → μ)
    (s : State ι μ κ γ Item) : Prop where
  holds : ∀ i call, (s.phase i).call = some call → s.holder (body call).mutex = some i
  contents : ∀ k, s.vectors k = itemsOf body k s.returned ++ s.inFlight body guard k

/-- Only a caller in a call holds its mutex. -/
def Released (body : γ → Call μ κ Item) (s : State ι μ κ γ Item) : Prop :=
  ∀ i m, s.holder m = some i → ∃ call, (s.phase i).call = some call ∧ (body call).mutex = m

section Invariant

variable [DecidableEq ι] [DecidableEq μ] [DecidableEq κ] {body : γ → Call μ κ Item}
  {guard : κ → μ} {s t : State ι μ κ γ Item} {a : Action ι γ} {i j : ι} {m : μ} {call : γ}

omit [DecidableEq ι] [DecidableEq μ] in
theorem inv_init : Inv body guard (State.init : State ι μ κ γ Item) where
  holds i call inside := by cases inside
  contents k := rfl

omit [DecidableEq ι] [DecidableEq μ] [DecidableEq κ] in
theorem released_init : Released body (State.init : State ι μ κ γ Item) := by
  intro i m held
  cases held

omit [DecidableEq μ] [DecidableEq κ] in
/-- A caller in a call after one caller has moved: the one that moved, or one that was in it. -/
theorem call_of_update {phase : Phase γ}
    (inside : (Function.update s.phase i phase j).call = some call) :
    (j = i ∧ phase.call = some call) ∨ (j ≠ i ∧ (s.phase j).call = some call) := by
  rcases eq_or_ne j i with rfl | other
  · rw [Function.update_self] at inside
    exact .inl ⟨rfl, inside⟩
  · rw [Function.update_of_ne other] at inside
    exact .inr ⟨other, inside⟩

theorem holds_step (inv : Inv body guard s) (stepped : step body s a = some t) :
    ∀ j call, (t.phase j).call = some call → t.holder (body call).mutex = some j := by
  intro j call' inside
  cases Steps.of_step stepped with
  | @lock i call outside free =>
      simp only [State.lock] at inside ⊢
      rcases call_of_update inside with ⟨rfl, mine⟩ | ⟨_, inside⟩
      · cases mine
        exact Function.update_self _ _ _
      · have held := inv.holds j call' inside
        have apart : (body call').mutex ≠ (body call).mutex := by
          intro same
          rw [same, free] at held
          cases held
        rw [Function.update_of_ne apart]
        exact held
  | @append i call here =>
      simp only [State.append] at inside ⊢
      rcases call_of_update inside with ⟨rfl, mine⟩ | ⟨_, inside⟩
      · cases mine
        exact inv.holds j call' (by rw [here]; rfl)
      · exact inv.holds j call' inside
  | @throw i call here =>
      simp only [State.throw] at inside ⊢
      rcases call_of_update inside with ⟨rfl, mine⟩ | ⟨_, inside⟩
      · cases mine
      · exact inv.holds j call' inside
  | @unlock i call here =>
      simp only [State.unlock] at inside ⊢
      rcases call_of_update inside with ⟨rfl, mine⟩ | ⟨other, inside⟩
      · cases mine
      · have held := inv.holds j call' inside
        have mine := inv.holds i call (by rw [here]; rfl)
        have apart : (body call').mutex ≠ (body call).mutex := by
          intro same
          rw [same, mine] at held
          exact other (Option.some.inj held).symm
        rw [Function.update_of_ne apart]
        exact held

omit [DecidableEq ι] [DecidableEq μ] in
/-- Where the holder of a mutex is at one and the same place, the calls under way have appended
the same. -/
theorem inFlight_congr {k : κ} (holder : t.holder (guard k) = s.holder (guard k))
    (items : ∀ j, s.holder (guard k) = some j →
      (t.phase j).items body k = (s.phase j).items body k) :
    t.inFlight body guard k = s.inFlight body guard k := by
  unfold State.inFlight
  rw [holder]
  cases held : s.holder (guard k) with
  | none => rfl
  | some j => exact items j held

omit [DecidableEq μ] in
/-- A caller that has no item in the vector before a step and after it. -/
theorem items_update {k : κ} {phase : Phase γ} (before : (s.phase i).items body k = [])
    (after : phase.items body k = []) (j : ι) :
    (Function.update s.phase i phase j).items body k = (s.phase j).items body k := by
  rcases eq_or_ne j i with rfl | other
  · rw [Function.update_self, after, before]
  · rw [Function.update_of_ne other]

omit [DecidableEq ι] [DecidableEq μ] in
theorem inFlight_of_holder {k : κ} (held : s.holder (guard k) = some i) :
    s.inFlight body guard k = (s.phase i).items body k := by
  rw [State.inFlight, held]

omit [DecidableEq ι] [DecidableEq μ] in
theorem items_of_ne {k : κ} (other : (body call).vector ≠ k) :
    (Phase.appended call).items body k = [] := by
  rw [Phase.items, Call.itemAt_of_ne other, Option.toList_none]

theorem contents_step (guarded : Guarded body guard) (inv : Inv body guard s)
    (stepped : step body s a = some t) (k : κ) :
    t.vectors k = itemsOf body k t.returned ++ t.inFlight body guard k := by
  cases Steps.of_step stepped with
  | @lock i call outside free =>
      have same : (s.lock body i call).inFlight body guard k = s.inFlight body guard k := by
        have nothing : (s.phase i).items body k = [] := by rw [outside]; rfl
        rcases eq_or_ne (guard k) (body call).mutex with mine | other
        · rw [inFlight_of_holder (i := i), State.inFlight, mine, free]
          · simp only [State.lock, Function.update_self]
            rfl
          · rw [mine]
            exact Function.update_self _ _ _
        · exact inFlight_congr (Function.update_of_ne other _ _) fun j _ =>
            items_update nothing rfl j
      rw [same]
      exact inv.contents k
  | @append i call here =>
      have held := inv.holds i call (by rw [here]; rfl)
      have nothing : (s.phase i).items body k = [] := by rw [here]; rfl
      rcases eq_or_ne (body call).vector k with rfl | other
      · have holder : s.holder (guard (body call).vector) = some i := guarded.guarded call ▸ held
        have before := inv.contents (body call).vector
        rw [inFlight_of_holder holder, nothing, List.append_nil] at before
        have holder' : (s.append body i call).holder (guard (body call).vector) = some i := holder
        rw [inFlight_of_holder holder']
        simp only [State.append, Function.update_self, before, Phase.items, Call.itemAt_self,
          Option.toList_some]
      · have same : (s.append body i call).inFlight body guard k = s.inFlight body guard k :=
          inFlight_congr rfl fun j _ => items_update nothing (items_of_ne other) j
        rw [same]
        exact (Function.update_of_ne (Ne.symm other) _ _).trans (inv.contents k)
  | @throw i call here =>
      have nothing : (s.phase i).items body k = [] := by rw [here]; rfl
      have same : (s.throw i).inFlight body guard k = s.inFlight body guard k :=
        inFlight_congr rfl fun j _ => items_update nothing rfl j
      rw [same]
      exact inv.contents k
  | @unlock i call here =>
      have held := inv.holds i call (by rw [here]; rfl)
      rcases eq_or_ne (body call).vector k with rfl | other
      · have holder : s.holder (guard (body call).vector) = some i := guarded.guarded call ▸ held
        have before := inv.contents (body call).vector
        have free : (s.unlock body i call).holder (guard (body call).vector) = none := by
          rw [← guarded.guarded call]
          exact Function.update_self _ _ _
        rw [inFlight_of_holder holder, here, Phase.items, Call.itemAt_self] at before
        rw [State.inFlight, free, List.append_nil]
        simp only [State.unlock, before, itemsOf, List.filterMap_append, List.filterMap_cons,
          Call.itemAt_self, List.filterMap_nil, Option.toList_some]
      · have nothing : (s.phase i).items body k = [] := by rw [here, items_of_ne other]
        have apart : guard k ≠ (body call).mutex := fun same =>
          other (guarded.own (same.trans (guarded.guarded call))).symm
        have same : (s.unlock body i call).inFlight body guard k = s.inFlight body guard k :=
          inFlight_congr (Function.update_of_ne apart _ _) fun j _ => items_update nothing rfl j
        have calls : itemsOf body k (s.unlock body i call).returned =
            itemsOf body k s.returned := by
          simp [State.unlock, itemsOf, Call.itemAt_of_ne other]
        rw [same, calls]
        exact inv.contents k

theorem inv_step (guarded : Guarded body guard) (inv : Inv body guard s)
    (stepped : step body s a = some t) : Inv body guard t :=
  ⟨holds_step inv stepped, contents_step guarded inv stepped⟩

/-- A step that does not throw leaves no mutex behind. -/
theorem released_step (released : Released body s) (quiet : ¬ a.Throws)
    (stepped : step body s a = some t) : Released body t := by
  intro j m held
  cases Steps.of_step stepped with
  | @lock i call outside free =>
      simp only [State.lock] at held ⊢
      rcases eq_or_ne m (body call).mutex with rfl | other
      · rw [Function.update_self] at held
        cases held
        exact ⟨call, by rw [Function.update_self]; rfl, rfl⟩
      · rw [Function.update_of_ne other] at held
        obtain ⟨call', inside, same⟩ := released j m held
        have apart : j ≠ i := by
          rintro rfl
          rw [outside] at inside
          cases inside
        exact ⟨call', by rw [Function.update_of_ne apart]; exact inside, same⟩
  | @append i call here =>
      simp only [State.append] at held ⊢
      obtain ⟨call', inside, same⟩ := released j m held
      rcases eq_or_ne j i with rfl | apart
      · rw [here] at inside
        exact ⟨call', by rw [Function.update_self]; exact inside, same⟩
      · exact ⟨call', by rw [Function.update_of_ne apart]; exact inside, same⟩
  | throw here => exact absurd trivial quiet
  | @unlock i call here =>
      simp only [State.unlock] at held ⊢
      rcases eq_or_ne m (body call).mutex with rfl | other
      · rw [Function.update_self] at held
        cases held
      · rw [Function.update_of_ne other] at held
        obtain ⟨call', inside, same⟩ := released j m held
        have apart : j ≠ i := by
          rintro rfl
          rw [here] at inside
          cases inside
          exact other same.symm
        exact ⟨call', by rw [Function.update_of_ne apart]; exact inside, same⟩

end Invariant

/-! ## Usable sessions -/

/-- The calls leave the mutexes to those who come later: no caller outside a call holds one, the
vectors hold what the calls that returned appended, in order, and what the calls under way did,
and whoever wants a mutex gets it once the calls of others are through. -/
structure Usable [DecidableEq ι] [DecidableEq μ] [DecidableEq κ] (body : γ → Call μ κ Item)
    (guard : κ → μ) (s : State ι μ κ γ Item) : Prop where
  released : ∀ i, s.phase i = .outside → ∀ m, s.holder m ≠ some i
  contents : ∀ k, s.vectors k = itemsOf body k s.returned ++ s.inFlight body guard k
  lockable : ∀ i call, s.phase i = .outside → ∃ acts t,
    (∀ a ∈ acts, a.caller ≠ i) ∧ run (step body) s acts = some t ∧
      (step body t (.lock i call)).isSome

/-- The holder of the mutex is not in a call that will give it back. -/
def Abandoned (body : γ → Call μ κ Item) (m : μ) (s : State ι μ κ γ Item) : Prop :=
  ∃ i, s.holder m = some i ∧ ∀ call, (s.phase i).call = some call → (body call).mutex ≠ m

section Usable

variable [DecidableEq ι] [DecidableEq μ] [DecidableEq κ] {body : γ → Call μ κ Item}
  {guard : κ → μ} {s t : State ι μ κ γ Item} {a : Action ι γ} {i j : ι} {m : μ} {call : γ}

omit [DecidableEq κ] in
theorem unlock_holder (call : γ) (i : ι) :
    (s.unlock body i call).holder (body call).mutex = none := Function.update_self _ _ _

theorem step_lock_isSome (outside : s.phase i = .outside)
    (free : s.holder (body call).mutex = none) : (step body s (.lock i call)).isSome := by
  simp only [step, outside, free, Option.isSome_some]

/-- Once the holder of a mutex is through with its call, anyone can take the mutex. -/
theorem lockable_of_released (released : Released body s) (outside : s.phase i = .outside)
    (call : γ) :
    ∃ acts t, (∀ a ∈ acts, a.caller ≠ i) ∧ run (step body) s acts = some t ∧
      (step body t (.lock i call)).isSome := by
  cases held : s.holder (body call).mutex with
  | none => exact ⟨[], s, by simp, rfl, step_lock_isSome outside held⟩
  | some j =>
      obtain ⟨call', inside, same⟩ := released j _ held
      have apart : i ≠ j := by
        rintro rfl
        rw [outside] at inside
        cases inside
      cases here : s.phase j with
      | outside =>
          rw [here] at inside
          cases inside
      | locked call'' =>
          rw [here] at inside
          cases inside
          have first : step body s (.append j) = some (s.append body j call') := by
            simp only [step, here]
          have appended : (s.append body j call').phase j = .appended call' :=
            Function.update_self _ _ _
          have second : step body (s.append body j call') (.unlock j) =
              some ((s.append body j call').unlock body j call') := by
            simp only [step, appended]
          refine ⟨[.append j, .unlock j], _, ?_,
            run_cons_iff.mpr ⟨_, first, run_cons_iff.mpr ⟨_, second, rfl⟩⟩, ?_⟩
          · simp [Action.caller, apart.symm]
          · refine step_lock_isSome ?_ (same ▸ unlock_holder call' j)
            exact (Function.update_of_ne apart _ _).trans
              ((Function.update_of_ne apart _ _).trans outside)
      | appended call'' =>
          rw [here] at inside
          cases inside
          have first : step body s (.unlock j) = some (s.unlock body j call') := by
            simp only [step, here]
          refine ⟨[.unlock j], _, ?_, run_cons_iff.mpr ⟨_, first, rfl⟩, ?_⟩
          · simp [Action.caller, apart.symm]
          · exact step_lock_isSome ((Function.update_of_ne apart _ _).trans outside)
              (same ▸ unlock_holder call' j)

theorem usable_of_released (inv : Inv body guard s) (released : Released body s) :
    Usable body guard s where
  released i outside m held := by
    obtain ⟨call, inside, _⟩ := released i m held
    rw [outside] at inside
    cases inside
  contents := inv.contents
  lockable i call outside := lockable_of_released released outside call

/-- A call that throws leaves its mutex behind, and the vectors as they were. -/
theorem abandoned_of_throws (inv : Inv body guard s) (throws : a.Throws)
    (stepped : step body s a = some t) :
    ∃ call, s.phase a.caller = .locked call ∧ t.phase a.caller = .outside ∧
      t.vectors = s.vectors ∧ t.holder (body call).mutex = some a.caller ∧
      Abandoned body (body call).mutex t := by
  cases Steps.of_step stepped with
  | lock | append | unlock => exact absurd throws id
  | @throw i call here =>
      have held := inv.holds i call (by rw [here]; rfl)
      have outside : (s.throw i).phase i = .outside := Function.update_self _ _ _
      refine ⟨call, here, outside, rfl, held, i, held, fun call' inside => ?_⟩
      rw [outside] at inside
      cases inside

/-- And it stays behind, whatever happens. -/
theorem abandoned_step (inv : Inv body guard s) (abandoned : Abandoned body m s)
    (stepped : step body s a = some t) : Abandoned body m t := by
  obtain ⟨i, held, elsewhere⟩ := abandoned
  cases Steps.of_step stepped with
  | @lock j call outside free =>
      have apart : m ≠ (body call).mutex := by
        rintro rfl
        rw [free] at held
        cases held
      refine ⟨i, (Function.update_of_ne apart _ _).trans held, fun call' inside => ?_⟩
      simp only [State.lock] at inside
      rcases call_of_update inside with ⟨_, mine⟩ | ⟨_, inside⟩
      · cases mine
        exact apart.symm
      · exact elsewhere call' inside
  | @append j call here =>
      refine ⟨i, held, fun call' inside => elsewhere call' ?_⟩
      simp only [State.append] at inside
      rcases call_of_update inside with ⟨rfl, mine⟩ | ⟨_, inside⟩
      · rw [here]
        exact mine
      · exact inside
  | @throw j call here =>
      refine ⟨i, held, fun call' inside => elsewhere call' ?_⟩
      simp only [State.throw] at inside
      rcases call_of_update inside with ⟨_, mine⟩ | ⟨_, inside⟩
      · cases mine
      · exact inside
  | @unlock j call here =>
      have mine := inv.holds j call (by rw [here]; rfl)
      have apart : m ≠ (body call).mutex := by
        rintro rfl
        cases Option.some.inj (held.symm.trans mine)
        exact elsewhere call (by rw [here]; rfl) rfl
      refine ⟨i, (Function.update_of_ne apart _ _).trans held, fun call' inside => ?_⟩
      simp only [State.unlock] at inside
      rcases call_of_update inside with ⟨_, mine⟩ | ⟨_, inside⟩
      · cases mine
      · exact elsewhere call' inside

/-- No run acquires an abandoned mutex again. -/
theorem abandoned_forever (guarded : Guarded body guard) (inv : Inv body guard s)
    (abandoned : Abandoned body (body call).mutex s) {acts : List (Action ι γ)}
    (reached : run (step body) s acts = some t) (i : ι) : step body t (.lock i call) = none := by
  have still := run_invariant
    (P := fun s => Inv body guard s ∧ Abandoned body (body call).mutex s)
    (fun _ _ _ here stepped =>
      ⟨inv_step guarded here.1 stepped, abandoned_step here.1 here.2 stepped⟩)
    ⟨inv, abandoned⟩ reached
  obtain ⟨j, held, _⟩ := still.2
  cases outside : t.phase i with
  | outside | locked | appended => simp only [step, outside, held]

/-- **Failures under a lock.** Every state of a run is usable exactly when no append of the run
throws. -/
theorem always_usable_iff (guarded : Guarded body guard) {acts : List (Action ι γ)}
    (reached : run (step body) State.init acts = some s) :
    Always (step body) (Usable body guard) State.init acts ↔
      Along (step body) (fun _ a => ¬ a.Throws) State.init acts := by
  constructor
  · refine along_of_always (I := Inv body guard)
      (fun _ _ _ inv stepped => inv_step guarded inv stepped) ?_ inv_init reached
    intro s a t inv _ stepped usable throws
    obtain ⟨call, _, outside, _, held, _⟩ := abandoned_of_throws inv throws stepped
    exact usable.released a.caller outside _ held
  · exact always_of_along (Q := fun s => Inv body guard s ∧ Released body s)
      (fun _ _ _ here quiet stepped =>
        ⟨inv_step guarded here.1 stepped, released_step here.2 quiet stepped⟩)
      (fun _ here => usable_of_released here.1 here.2) ⟨inv_init, released_init⟩

end Usable

end OpenRtp.ThrowingAppend
