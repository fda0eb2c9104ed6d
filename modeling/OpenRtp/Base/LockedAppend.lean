import Mathlib.Data.List.Count
import Mathlib.Logic.Function.Basic
import OpenRtp.Base.Run

/-!
# Appending under a lock

Callers append items to shared vectors.  A call takes a mutex, reads the end of its
vector, writes its item there, advances the end and gives the mutex back, one step at
a time, and any number of callers interleave.

When every vector is guarded by a mutex of its own (`Guarded`), a vector holds the
items of the calls that acquired its mutex, in the order they did
(`contents_eq_replay`).  `replay` computes them from that order and from what each
caller has for that vector, and nothing else.
-/

namespace OpenRtp.LockedAppend

/-! ## Replaying an order -/

section Replay

variable {ι β : Type*} [DecidableEq ι]

/-- Each caller has a queue; whenever the order names it, it gives its next item. -/
def replay (queues : ι → List β) : List ι → List (ι × β)
  | [] => []
  | i :: order =>
      match queues i with
      | [] => replay queues order
      | x :: rest => (i, x) :: replay (Function.update queues i rest) order

theorem replay_concat (queues : ι → List β) (order : List ι) (i : ι) :
    replay queues (order ++ [i]) =
      replay queues order ++ ((queues i)[order.count i]?.map fun x => (i, x)).toList := by
  induction order generalizing queues with
  | nil => cases here : queues i <;> simp [replay, here]
  | cons j order ih =>
      rw [List.cons_append, replay, replay]
      cases here : queues j with
      | nil =>
          rw [ih]
          rcases eq_or_ne j i with rfl | other
          · simp [here]
          · simp [other]
      | cons x rest =>
          simp only [List.cons_append]
          rw [ih]
          rcases eq_or_ne j i with rfl | other
          · simp [here]
          · simp [other, Function.update_of_ne (Ne.symm other)]

/-- A caller's items come out in the order of its queue, each once. -/
theorem filter_replay (queues : ι → List β) (order : List ι) (i : ι) :
    ((replay queues order).filter fun entry => entry.1 = i).map Prod.snd =
      (queues i).take (order.count i) := by
  induction order generalizing queues with
  | nil => simp [replay]
  | cons j order ih =>
      rw [replay]
      cases here : queues j with
      | nil =>
          simp only
          rw [ih]
          rcases eq_or_ne j i with rfl | other
          · simp [here]
          · simp [other]
      | cons x rest =>
          simp only
          rcases eq_or_ne j i with rfl | other
          · simp [ih, here]
          · simp [other, ih, Function.update_of_ne (Ne.symm other)]

end Replay

/-! ## Calls, vectors and callers -/

/-- One call: the mutex it takes, the vector it appends to, and the item. -/
structure Call (μ κ : Type*) (Item : κ → Type*) where
  mutex : μ
  vector : κ
  item : Item vector

/-- The storage of a vector and its end. -/
structure Vec (α : Type*) where
  cells : List α
  finish : Nat

namespace Vec

variable {α : Type*} {v : Vec α}

def empty : Vec α := ⟨[], 0⟩

def contents (v : Vec α) : List α := v.cells.take v.finish

/-- Write a cell of the storage, or the one after the last. -/
def write (v : Vec α) (pos : Nat) (x : α) : Vec α :=
  if pos < v.cells.length then { v with cells := v.cells.set pos x }
  else { v with cells := v.cells ++ [x] }

/-- Writing at the end changes no content and puts the item there. -/
theorem write_finish (room : v.finish ≤ v.cells.length) (x : α) :
    (v.write v.finish x).finish = v.finish ∧ (v.write v.finish x).contents = v.contents ∧
      (v.write v.finish x).cells[v.finish]? = some x ∧
      v.finish < (v.write v.finish x).cells.length := by
  unfold write contents
  split
  · next inside =>
      exact ⟨rfl, List.take_set_of_le (Nat.le_refl _), by simp [inside], by simpa using inside⟩
  · next outside =>
      have last : v.finish = v.cells.length := by omega
      exact ⟨rfl, by simp [last], by simp [last], by simp [last]⟩

/-- Advancing the end takes in the item written there. -/
theorem contents_advance {x : α} (written : v.cells[v.finish]? = some x) :
    contents { v with finish := v.finish + 1 } = v.contents ++ [x] := by
  rw [contents, contents, List.take_add_one, written, Option.toList_some]

end Vec

/-- How far a call has come. -/
inductive Stage
  | locked
  | read (finish : Nat)
  | written (finish : Nat)
  | advanced
deriving DecidableEq, Repr

variable {ι μ κ γ : Type*} {Item : κ → Type*}

/-- A caller: the calls it has completed, the one in progress, and those to come. -/
structure Caller (γ : Type*) where
  done : List γ
  current : Option (γ × Stage)
  todo : List γ

/-- The program of a caller, in order. -/
def Caller.program (caller : Caller γ) : List γ :=
  caller.done ++ (caller.current.map Prod.fst).toList ++ caller.todo

/-- The mutexes with their holders, the vectors, and the callers. -/
structure State (ι μ κ γ : Type*) (Item : κ → Type*) where
  holder : μ → Option ι
  vectors : (k : κ) → Vec (Item k)
  callers : ι → Caller γ

def State.init (programs : ι → List γ) : State ι μ κ γ Item where
  holder := fun _ => none
  vectors := fun _ => .empty
  callers := fun i => ⟨[], none, programs i⟩

/-! ## Steps -/

namespace State

variable (s : State ι μ κ γ Item) (mutex : μ) (holder : Option ι) (k : κ) (v : Vec (Item k))
  (i : ι) (caller : Caller γ)

def setHolder [DecidableEq μ] : State ι μ κ γ Item :=
  { s with holder := Function.update s.holder mutex holder }

def setVector [DecidableEq κ] : State ι μ κ γ Item :=
  { s with vectors := Function.update s.vectors k v }

def setCaller [DecidableEq ι] : State ι μ κ γ Item :=
  { s with callers := Function.update s.callers i caller }

@[simp] theorem setHolder_holder [DecidableEq μ] (mutex' : μ) :
    (s.setHolder mutex holder).holder mutex' =
      if mutex' = mutex then holder else s.holder mutex' :=
  Function.update_apply _ _ _ _

@[simp] theorem setHolder_vectors [DecidableEq μ] :
    (s.setHolder mutex holder).vectors = s.vectors := rfl

@[simp] theorem setHolder_callers [DecidableEq μ] :
    (s.setHolder mutex holder).callers = s.callers := rfl

@[simp] theorem setVector_holder [DecidableEq κ] : (s.setVector k v).holder = s.holder := rfl

@[simp] theorem setVector_vectors_self [DecidableEq κ] : (s.setVector k v).vectors k = v :=
  Function.update_self _ _ _

theorem setVector_vectors_of_ne [DecidableEq κ] {k' : κ} (other : k' ≠ k) :
    (s.setVector k v).vectors k' = s.vectors k' :=
  Function.update_of_ne other _ _

@[simp] theorem setVector_callers [DecidableEq κ] : (s.setVector k v).callers = s.callers := rfl

@[simp] theorem setVector_eq_self [DecidableEq κ] : s.setVector k (s.vectors k) = s := by
  simp [setVector]

@[simp] theorem setCaller_holder [DecidableEq ι] :
    (s.setCaller i caller).holder = s.holder := rfl

@[simp] theorem setCaller_vectors [DecidableEq ι] :
    (s.setCaller i caller).vectors = s.vectors := rfl

@[simp] theorem setCaller_callers [DecidableEq ι] (j : ι) :
    (s.setCaller i caller).callers j = if j = i then caller else s.callers j :=
  Function.update_apply _ _ _ _

end State

section Step

variable [DecidableEq ι] [DecidableEq μ] [DecidableEq κ]

variable (body : γ → Call μ κ Item)

/-- The next step of caller `i`; it waits while another caller holds the mutex. -/
def State.step (s : State ι μ κ γ Item) (i : ι) : Option (State ι μ κ γ Item) :=
  match s.callers i with
  | ⟨_, none, []⟩ => none
  | ⟨done, none, call :: todo⟩ =>
      if s.holder (body call).mutex = none then
        some ((s.setHolder (body call).mutex (some i)).setCaller i
          ⟨done, some (call, .locked), todo⟩)
      else none
  | ⟨done, some (call, .locked), todo⟩ =>
      some (s.setCaller i
        ⟨done, some (call, .read (s.vectors (body call).vector).finish), todo⟩)
  | ⟨done, some (call, .read finish), todo⟩ =>
      some ((s.setVector (body call).vector
        ((s.vectors (body call).vector).write finish (body call).item)).setCaller i
          ⟨done, some (call, .written finish), todo⟩)
  | ⟨done, some (call, .written finish), todo⟩ =>
      some ((s.setVector (body call).vector
        { s.vectors (body call).vector with finish := finish + 1 }).setCaller i
          ⟨done, some (call, .advanced), todo⟩)
  | ⟨done, some (call, .advanced), todo⟩ =>
      some ((s.setHolder (body call).mutex none).setCaller i ⟨done ++ [call], none, todo⟩)

/-- The caller, if the step acquires the mutex. -/
def State.acquires (mutex : μ) (s : State ι μ κ γ Item) (i : ι) : List ι :=
  match s.callers i with
  | ⟨_, none, call :: _⟩ => if (body call).mutex = mutex then [i] else []
  | _ => []

/-- The steps of `step`, one constructor each. -/
inductive Steps (s : State ι μ κ γ Item) (i : ι) : State ι μ κ γ Item → Prop
  | lock {done todo : List γ} {call : γ} (here : s.callers i = ⟨done, none, call :: todo⟩)
      (free : s.holder (body call).mutex = none) :
      Steps s i ((s.setHolder (body call).mutex (some i)).setCaller i
        ⟨done, some (call, .locked), todo⟩)
  | read {done todo : List γ} {call : γ}
      (here : s.callers i = ⟨done, some (call, .locked), todo⟩) :
      Steps s i (s.setCaller i
        ⟨done, some (call, .read (s.vectors (body call).vector).finish), todo⟩)
  | write {done todo : List γ} {call : γ} {finish : Nat}
      (here : s.callers i = ⟨done, some (call, .read finish), todo⟩) :
      Steps s i ((s.setVector (body call).vector
        ((s.vectors (body call).vector).write finish (body call).item)).setCaller i
          ⟨done, some (call, .written finish), todo⟩)
  | advance {done todo : List γ} {call : γ} {finish : Nat}
      (here : s.callers i = ⟨done, some (call, .written finish), todo⟩) :
      Steps s i ((s.setVector (body call).vector
        { s.vectors (body call).vector with finish := finish + 1 }).setCaller i
          ⟨done, some (call, .advanced), todo⟩)
  | unlock {done todo : List γ} {call : γ}
      (here : s.callers i = ⟨done, some (call, .advanced), todo⟩) :
      Steps s i ((s.setHolder (body call).mutex none).setCaller i
        ⟨done ++ [call], none, todo⟩)

variable {body} {s s' : State ι μ κ γ Item} {i j : ι}

theorem Steps.of_step (h : s.step body i = some s') : Steps body s i s' := by
  unfold State.step at h
  split at h
  · cases h
  · next here =>
      split at h
      · next free => cases h; exact .lock here free
      · cases h
  · next here => cases h; exact .read here
  · next here => cases h; exact .write here
  · next here => cases h; exact .advance here
  · next here => cases h; exact .unlock here

end Step

/-! ## Mutual exclusion -/

/-- What a call has done so far to the vector it appends to. -/
def Stage.Fits {α : Type*} (v : Vec α) (x : α) : Stage → Prop
  | .locked => True
  | .read finish => finish = v.finish
  | .written finish => finish = v.finish ∧ v.cells[finish]? = some x
  | .advanced => True

/-- Each vector is guarded by a mutex of its own. -/
structure Guarded (body : γ → Call μ κ Item) (guard : κ → μ) : Prop where
  own : Function.Injective guard
  guarded : ∀ call, (body call).mutex = guard (body call).vector

/-- The holders of the mutexes are the callers in a call, and the call of each has done
to its vector what its stage says. -/
structure State.Inv (body : γ → Call μ κ Item) (programs : ι → List γ)
    (s : State ι μ κ γ Item) : Prop where
  program : ∀ i, (s.callers i).program = programs i
  holder : ∀ mutex i, s.holder mutex = some i ↔
    ∃ call stage, (s.callers i).current = some (call, stage) ∧ (body call).mutex = mutex
  room : ∀ k, (s.vectors k).finish ≤ (s.vectors k).cells.length
  stage : ∀ i call stage, (s.callers i).current = some (call, stage) →
    stage.Fits (s.vectors (body call).vector) (body call).item

section Inv

variable {body : γ → Call μ κ Item} {guard : κ → μ} {programs : ι → List γ}
  {s s' : State ι μ κ γ Item} {i j : ι}

theorem State.inv_init : (State.init programs : State ι μ κ γ Item).Inv body programs where
  program i := rfl
  holder mutex i := by simp [State.init]
  room k := Nat.le_refl _
  stage i call stage current := by cases current

/-- Two callers in a call are on different vectors. -/
theorem State.Inv.apart (inv : s.Inv body programs) (guarded : Guarded body guard)
    {call call' : γ} {stage stage' : Stage} (first : (s.callers i).current = some (call, stage))
    (second : (s.callers j).current = some (call', stage')) (other : j ≠ i) :
    (body call').vector ≠ (body call).vector := fun same => by
  have mutex : (body call').mutex = (body call).mutex := by
    rw [guarded.guarded, guarded.guarded, same]
  have holds := (inv.holder _ i).mpr ⟨call, stage, first, rfl⟩
  have holds' := (inv.holder _ j).mpr ⟨call', stage', second, mutex⟩
  exact other (Option.some.inj (holds'.symm.trans holds))

/-- A call on another vector does not hold the mutex of `k`. -/
theorem State.Inv.holder_ne (inv : s.Inv body programs) (guarded : Guarded body guard)
    {call : γ} {stage : Stage} (current : (s.callers i).current = some (call, stage))
    {k : κ} (other : (body call).vector ≠ k) : s.holder (guard k) ≠ some i := fun held => by
  obtain ⟨call', stage', current', mutex⟩ := (inv.holder _ i).mp held
  rw [current] at current'
  cases current'
  rw [guarded.guarded] at mutex
  exact other (guarded.own mutex)

variable [DecidableEq ι]

/-- A step inside a call of `i`, which leaves its vector as `v`. -/
theorem State.Inv.inside [DecidableEq κ] (inv : s.Inv body programs)
    (guarded : Guarded body guard)
    {done todo : List γ} {call : γ} {stage stage' : Stage}
    (here : s.callers i = ⟨done, some (call, stage), todo⟩)
    {v : Vec (Item (body call).vector)} (room : v.finish ≤ v.cells.length)
    (fits : stage'.Fits v (body call).item) :
    ((s.setVector (body call).vector v).setCaller i
      ⟨done, some (call, stage'), todo⟩).Inv body programs := by
  refine ⟨fun j => ?_, fun mutex j => ?_, fun k => ?_, fun j call' stage'' current => ?_⟩
  · rw [← inv.program j, setCaller_callers]
    split
    · next same => rw [same, here]; rfl
    · rfl
  · rw [setCaller_holder, setVector_holder, inv.holder, setCaller_callers]
    split
    · next same => rw [same, here]; simp
    · rfl
  · rcases eq_or_ne k (body call).vector with rfl | differs
    · simpa using room
    · rw [setCaller_vectors, setVector_vectors_of_ne _ _ _ differs]
      exact inv.room k
  · rw [setCaller_callers] at current
    rw [setCaller_vectors]
    split at current
    · cases current
      rwa [setVector_vectors_self]
    · next same =>
        have other := inv.apart guarded (i := i) (by rw [here]) current same
        rw [setVector_vectors_of_ne _ _ _ other]
        exact inv.stage j call' stage'' current

variable [DecidableEq μ]

theorem State.Inv.lock (inv : s.Inv body programs) {done todo : List γ} {call : γ}
    (here : s.callers i = ⟨done, none, call :: todo⟩)
    (free : s.holder (body call).mutex = none) :
    ((s.setHolder (body call).mutex (some i)).setCaller i
      ⟨done, some (call, .locked), todo⟩).Inv body programs := by
  refine ⟨fun j => ?_, fun mutex j => ?_, inv.room, fun j call' stage current => ?_⟩
  · rw [← inv.program j, setCaller_callers]
    split
    · next same => rw [same, here]; simp [Caller.program]
    · rfl
  · have idle : s.holder mutex ≠ some i := fun holds => by
      obtain ⟨_, _, current, _⟩ := (inv.holder mutex i).mp holds
      rw [here] at current
      cases current
    rw [setCaller_holder, setHolder_holder, setCaller_callers]
    rcases eq_or_ne j i with rfl | other
    · by_cases mine : mutex = (body call).mutex
      · simp [mine]
      · simp [mine, idle, Ne.symm mine]
    · rw [if_neg other, setHolder_callers, ← inv.holder]
      by_cases mine : mutex = (body call).mutex
      · simp [mine, free, Ne.symm other]
      · rw [if_neg mine]
  · rw [setCaller_callers] at current
    split at current
    · cases current; trivial
    · exact inv.stage j call' stage current

theorem State.Inv.unlock (inv : s.Inv body programs) {done todo : List γ} {call : γ}
    {stage : Stage} (here : s.callers i = ⟨done, some (call, stage), todo⟩) :
    ((s.setHolder (body call).mutex none).setCaller i
      ⟨done ++ [call], none, todo⟩).Inv body programs := by
  refine ⟨fun j => ?_, fun mutex j => ?_, inv.room, fun j call' stage current => ?_⟩
  · rw [← inv.program j, setCaller_callers]
    split
    · next same => rw [same, here]; simp [Caller.program]
    · rfl
  · have holds := (inv.holder _ i).mpr ⟨call, stage, by rw [here], rfl⟩
    rw [setCaller_holder, setHolder_holder, setCaller_callers]
    rcases eq_or_ne j i with rfl | other
    · by_cases mine : mutex = (body call).mutex
      · simp [mine]
      · rw [if_neg mine, if_pos rfl, inv.holder, here]
        simp [Ne.symm mine]
    · rw [if_neg other, setHolder_callers, ← inv.holder]
      by_cases mine : mutex = (body call).mutex
      · simp [mine, holds, Ne.symm other]
      · rw [if_neg mine]
  · rw [setCaller_callers] at current
    split at current
    · cases current
    · exact inv.stage j call' stage current

theorem State.Inv.stepped [DecidableEq κ] (inv : s.Inv body programs)
    (guarded : Guarded body guard)
    (h : Steps body s i s') : s'.Inv body programs := by
  cases h with
  | lock here free => exact inv.lock here free
  | @read done todo call here =>
      have fits : Stage.Fits (s.vectors (body call).vector) (body call).item
          (.read (s.vectors (body call).vector).finish) := rfl
      simpa using inv.inside guarded here (inv.room _) fits
  | write here =>
      have finish := inv.stage i _ _ (by rw [here])
      obtain ⟨same, _, written, inside⟩ := Vec.write_finish (inv.room _) (body _).item
      cases finish
      exact inv.inside guarded here (by rw [same]; exact Nat.le_of_lt inside)
        ⟨same.symm, written⟩
  | advance here =>
      obtain ⟨finish, written⟩ := inv.stage i _ _ (by rw [here])
      subst finish
      exact inv.inside guarded here (List.getElem?_eq_some_iff.mp written).1 trivial
  | unlock here => exact inv.unlock here

end Inv

/-! ## The order of acquisition -/

section Order

variable [DecidableEq κ]

/-- The item of a call, if the call appends to `k`. -/
def Call.itemAt (call : Call μ κ Item) (k : κ) : Option (Item k) :=
  if same : call.vector = k then some (same ▸ call.item) else none

omit [DecidableEq κ] in
@[simp] theorem Call.itemAt_self [DecidableEq κ] (call : Call μ κ Item) :
    call.itemAt call.vector = some call.item := by
  simp [itemAt]

theorem Call.itemAt_of_ne {call : Call μ κ Item} {k : κ} (other : call.vector ≠ k) :
    call.itemAt k = none := by
  simp [itemAt, other]

/-- The items some calls append to `k`, in order. -/
def itemsOf (body : γ → Call μ κ Item) (k : κ) (calls : List γ) : List (Item k) :=
  calls.filterMap fun call => (body call).itemAt k

theorem itemsOf_singleton (body : γ → Call μ κ Item) (k : κ) (call : γ) :
    itemsOf body k [call] = ((body call).itemAt k).toList := by
  rw [itemsOf, List.filterMap_cons, List.filterMap_nil]
  cases (body call).itemAt k <;> rfl

/-- The calls a caller has completed and the one in progress. -/
def Caller.started (caller : Caller γ) : List γ :=
  caller.done ++ (caller.current.map Prod.fst).toList

variable {body : γ → Call μ κ Item} {guard : κ → μ} {programs : ι → List γ}
  {s s' : State ι μ κ γ Item} {i j : ι} {k : κ} {order : List ι}

/-- The item of the call that holds the mutex of `k`, until it is inside the vector. -/
def State.inFlight (body : γ → Call μ κ Item) (guard : κ → μ) (k : κ)
    (s : State ι μ κ γ Item) : List (Item k) :=
  match s.holder (guard k) with
  | none => []
  | some i =>
      match (s.callers i).current with
      | none => []
      | some (call, stage) => if stage = .advanced then [] else ((body call).itemAt k).toList

theorem State.inFlight_of_holder (i : ι) (call : γ) (stage : Stage)
    (holds : s.holder (guard (body call).vector) = some i)
    (current : (s.callers i).current = some (call, stage)) :
    s.inFlight body guard (body call).vector =
      if stage = .advanced then [] else [(body call).item] := by
  simp [inFlight, holds, current]

variable [DecidableEq ι]

/-- The vector holds the items replayed from the order of acquisition, but for the one in
flight, and each caller was named once for each item it has started to append. -/
structure State.History (body : γ → Call μ κ Item) (guard : κ → μ) (programs : ι → List γ)
    (k : κ) (order : List ι) (s : State ι μ κ γ Item) : Prop where
  count : ∀ i, order.count i = (itemsOf body k (s.callers i).started).length
  contents : (s.vectors k).contents ++ s.inFlight body guard k =
    (replay (fun i => itemsOf body k (programs i)) order).map Prod.snd

theorem State.history_init :
    (State.init programs : State ι μ κ γ Item).History body guard programs k [] where
  count _ := rfl
  contents := rfl

/-- A step of `i` for another vector. -/
theorem State.History.foreign (history : s.History body guard programs k order)
    (vector : s'.vectors k = s.vectors k)
    (holder : s'.holder (guard k) = s.holder (guard k)) (notMine : s.holder (guard k) ≠ some i)
    (others : ∀ j, j ≠ i → s'.callers j = s.callers j)
    (started : itemsOf body k (s'.callers i).started = itemsOf body k (s.callers i).started) :
    s'.History body guard programs k order := by
  refine ⟨fun j => ?_, ?_⟩
  · by_cases same : j = i
    · rw [same, started, history.count]
    · rw [others j same, history.count]
  · rw [← history.contents, vector]
    unfold inFlight
    rw [holder]
    cases held : s.holder (guard k) with
    | none => rfl
    | some j =>
        have other : j ≠ i := fun same => notMine (same ▸ held)
        simp only [others j other]

/-- A step inside a call of `i`: nothing is lost between the vector and the item in
flight. -/
theorem State.History.inside (history : s.History body guard programs k order)
    (inv : s.Inv body programs) (guarded : Guarded body guard)
    {done todo : List γ} {call : γ} {stage : Stage}
    (here : s.callers i = ⟨done, some (call, stage), todo⟩) (stage' : Stage)
    {v : Vec (Item (body call).vector)}
    (moved : v.contents ++ (if stage' = .advanced then [] else [(body call).item]) =
      (s.vectors (body call).vector).contents ++
        if stage = .advanced then [] else [(body call).item]) :
    ((s.setVector (body call).vector v).setCaller i
      ⟨done, some (call, stage'), todo⟩).History body guard programs k order := by
  have current : (s.callers i).current = some (call, stage) := by rw [here]
  rcases eq_or_ne (body call).vector k with rfl | differs
  · have holds : s.holder (guard (body call).vector) = some i :=
      (inv.holder _ i).mpr ⟨call, stage, current, guarded.guarded call⟩
    refine ⟨fun j => ?_, ?_⟩
    · rw [history.count, setCaller_callers]
      split
      · next mine => rw [mine, here]; rfl
      · rfl
    · rw [← history.contents, inFlight_of_holder i call _ holds current, ← moved,
        inFlight_of_holder i call stage' (by simpa using holds)
          (by simp)]
      simp
  · refine history.foreign (i := i) (setVector_vectors_of_ne _ _ _ (Ne.symm differs)) rfl
      (inv.holder_ne guarded current differs) (fun j other => by simp [other]) ?_
    simp [here, Caller.started]

variable [DecidableEq μ]

theorem State.History.lock (history : s.History body guard programs k order)
    (inv : s.Inv body programs) (guarded : Guarded body guard)
    {done todo : List γ} {call : γ} (here : s.callers i = ⟨done, none, call :: todo⟩)
    (free : s.holder (body call).mutex = none) :
    ((s.setHolder (body call).mutex (some i)).setCaller i
      ⟨done, some (call, .locked), todo⟩).History body guard programs k
        (order ++ if (body call).mutex = guard k then [i] else []) := by
  rcases eq_or_ne (body call).vector k with rfl | differs
  · rw [guarded.guarded] at free ⊢
    rw [if_pos rfl]
    have count := history.count i
    have program := inv.program i
    rw [here] at count program
    have queue : itemsOf body (body call).vector (programs i) =
        itemsOf body (body call).vector done ++
          (body call).item :: itemsOf body (body call).vector todo := by
      rw [← program]
      simp [Caller.program, itemsOf]
    refine ⟨fun j => ?_, ?_⟩
    · rw [List.count_append, setCaller_callers]
      rcases eq_or_ne j i with rfl | mine
      · rw [count, if_pos rfl]
        simp [Caller.started, itemsOf]
      · rw [history.count, if_neg mine]
        simp [Ne.symm mine]
    · rw [inFlight_of_holder i call .locked (by simp) (by simp),
        replay_concat, queue, count]
      have before := history.contents
      rw [inFlight, free] at before
      simp [Caller.started, ← before]
  · have other : (body call).mutex ≠ guard k := fun equal =>
      differs (guarded.own ((guarded.guarded call).symm.trans equal))
    rw [if_neg other, List.append_nil]
    have idle : s.holder (guard k) ≠ some i := fun held => by
      obtain ⟨_, _, current, _⟩ := (inv.holder _ i).mp held
      rw [here] at current
      cases current
    refine history.foreign (i := i) rfl (by simp [Ne.symm other]) idle
      (fun j other => by simp [other]) ?_
    simp [here, Caller.started, itemsOf, Call.itemAt_of_ne differs]

theorem State.History.unlock (history : s.History body guard programs k order)
    (inv : s.Inv body programs) (guarded : Guarded body guard)
    {done todo : List γ} {call : γ} (here : s.callers i = ⟨done, some (call, .advanced), todo⟩) :
    ((s.setHolder (body call).mutex none).setCaller i
      ⟨done ++ [call], none, todo⟩).History body guard programs k order := by
  have current : (s.callers i).current = some (call, .advanced) := by rw [here]
  rcases eq_or_ne (body call).vector k with rfl | differs
  · have holds : s.holder (guard (body call).vector) = some i :=
      (inv.holder _ i).mpr ⟨call, .advanced, current, guarded.guarded call⟩
    refine ⟨fun j => ?_, ?_⟩
    · rw [history.count, setCaller_callers]
      split
      · next mine => rw [mine, here]; simp [Caller.started]
      · rfl
    · rw [← history.contents, inFlight_of_holder i call _ holds current]
      simp [inFlight, guarded.guarded]
  · have other : guard k ≠ (body call).mutex := fun equal =>
      differs (guarded.own ((guarded.guarded call).symm.trans equal.symm))
    refine history.foreign (i := i) rfl (by simp [other])
      (inv.holder_ne guarded current differs) (fun j other => by simp [other]) ?_
    simp [here, Caller.started]

theorem State.History.stepped (history : s.History body guard programs k order)
    (inv : s.Inv body programs) (guarded : Guarded body guard) (h : Steps body s i s') :
    s'.History body guard programs k (order ++ s.acquires body (guard k) i) := by
  cases h with
  | lock here free =>
      rw [acquires, here]
      exact history.lock inv guarded here free
  | @read done todo call here =>
      rw [acquires, here, List.append_nil]
      simpa using history.inside inv guarded here (.read _)
        (v := s.vectors (body call).vector) (by simp)
  | write here =>
      have finish := inv.stage i _ _ (by rw [here])
      cases finish
      rw [acquires, here, List.append_nil]
      refine history.inside inv guarded here _ ?_
      rw [(Vec.write_finish (inv.room _) (body _).item).2.1]
      simp
  | advance here =>
      obtain ⟨finish, written⟩ := inv.stage i _ _ (by rw [here])
      subst finish
      rw [acquires, here, List.append_nil]
      refine history.inside inv guarded here _ ?_
      rw [Vec.contents_advance written]
      simp
  | unlock here =>
      rw [acquires, here, List.append_nil]
      exact history.unlock inv guarded here

/-- The callers that acquired the mutex of `k` along a run, in order. -/
def acquisitions (body : γ → Call μ κ Item) (guard : κ → μ) (programs : ι → List γ) (k : κ)
    (sched : List ι) : List ι :=
  trace (State.step body) (State.acquires body (guard k))
    (State.init programs : State ι μ κ γ Item) sched

theorem run_inv_history (guarded : Guarded body guard) {sched : List ι}
    (reached : run (State.step body) (State.init programs) sched = some s) :
    s.Inv body programs ∧
      s.History body guard programs k (acquisitions body guard programs k sched) := by
  refine run_history (R := fun sched s => s.Inv body programs ∧
    s.History body guard programs k (acquisitions body guard programs k sched))
    ⟨State.inv_init, State.history_init⟩ ?_ reached
  intro sched u i t before kept next
  rcases kept with ⟨inv, history⟩
  have steps := Steps.of_step next
  refine ⟨inv.stepped guarded steps, ?_⟩
  rw [acquisitions, trace_concat before next]
  exact history.stepped inv guarded steps

/-- **Appending under a lock.**  When no call is in progress, a vector holds the items
replayed from the order its mutex was acquired in; of each caller they are the items of
its completed calls, in order. -/
theorem contents_eq_replay (guarded : Guarded body guard) {sched : List ι}
    (reached : run (State.step body) (State.init programs) sched = some s)
    (quiet : ∀ i, (s.callers i).current = none) :
    let entries := replay (fun i => itemsOf body k (programs i))
      (acquisitions body guard programs k sched)
    (s.vectors k).contents = entries.map Prod.snd ∧
      ∀ i, (entries.filter fun entry => entry.1 = i).map Prod.snd =
        itemsOf body k (s.callers i).done := by
  obtain ⟨inv, history⟩ := run_inv_history (k := k) guarded reached
  refine ⟨?_, fun i => ?_⟩
  · have free : s.holder (guard k) = none := by
      refine Option.eq_none_iff_forall_ne_some.mpr fun j held => ?_
      obtain ⟨_, _, current, _⟩ := (inv.holder _ j).mp held
      rw [quiet j] at current
      cases current
    have contents := history.contents
    rwa [State.inFlight, free, List.append_nil] at contents
  · have started : (s.callers i).started = (s.callers i).done := by
      simp [Caller.started, quiet i]
    rw [filter_replay, history.count, started, ← inv.program i, Caller.program, quiet i]
    simp [itemsOf]

/-- A caller that nobody interrupts appends its item. -/
theorem append_alone (inv : s.Inv body programs) {done todo : List γ} {call : γ}
    (here : s.callers i = ⟨done, none, call :: todo⟩)
    (free : s.holder (body call).mutex = none) :
    ∃ s', run (State.step body) s (List.replicate 5 i) = some s' ∧
      (s'.vectors (body call).vector).contents =
        (s.vectors (body call).vector).contents ++ [(body call).item] ∧
      s'.callers i = ⟨done ++ [call], none, todo⟩ ∧ s'.holder (body call).mutex = none := by
  obtain ⟨finish, same, written, _⟩ :=
    Vec.write_finish (inv.room (body call).vector) (body call).item
  have appended := Vec.contents_advance (v := Vec.write _ _ _) (by rwa [finish])
  rw [finish, same] at appended
  refine ⟨_, by simp [run, List.replicate, State.step, here, free]; rfl, ?_, by simp, by simp⟩
  simpa using appended

end Order

end OpenRtp.LockedAppend
