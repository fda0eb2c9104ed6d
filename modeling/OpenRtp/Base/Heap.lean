import OpenRtp.Base.Table

/-!
# Arrays made by `new[]`

One `Heap α` holds every array of element type `α` that `new[]` has produced.  A
cell that was never written is `none`, and a block counts the `delete[]`s run on
it, so a double release is a count of two rather than a stuck machine.

`Heap.Owned h held` is exclusive ownership of the blocks of `h` by a family of
holders: nothing was released twice, and every identity held is live and held
once.  The lemmas under it are the ownership discipline one operation at a time:
forget, allocate, release.
-/

namespace OpenRtp

/-- One array: its cells, and how many times `delete[]` was run on it. -/
structure Block (α : Type*) where
  cells : List (Option α)
  releases : Nat
deriving DecidableEq, Repr

abbrev Heap (α : Type*) := Table (Block α)

namespace Heap

variable {α : Type*}

/-- `new T[n]`: `n` indeterminate cells, under the identity `h.size`. -/
def new (h : Heap α) (n : Nat) : Heap α := h.add ⟨List.replicate n none, 0⟩

/-- `delete[]` of the array `i`. -/
def release (h : Heap α) (i : Nat) : Heap α :=
  h.modify i fun b => { b with releases := b.releases + 1 }

/-- `delete[]` of a pointer; deleting a null pointer does nothing. -/
def releasePtr (h : Heap α) : Option Nat → Heap α
  | none => h
  | some i => h.release i

/-- The first `n` cells of the array `i`. -/
def read (h : Heap α) (i n : Nat) : List (Option α) :=
  ((h.get? i).map fun b => b.cells.take n).getD []

/-- The first `n` cells behind a pointer; nothing behind a null one. -/
def view (h : Heap α) : Option Nat → Nat → List (Option α)
  | none, _ => []
  | some i, n => h.read i n

/-- Overwrite the array `i` from its start. -/
def write (h : Heap α) (i : Nat) (cells : List (Option α)) : Heap α :=
  h.modify i fun b => { b with cells := cells ++ b.cells.drop cells.length }

/-- `memcpy(dst, src, n)` between two arrays, `n` counted in cells. -/
def memcpy (h : Heap α) (dst src n : Nat) : Heap α := h.write dst (h.read src n)

/-- `new T[n]` followed by a `memcpy` of `n` cells from `src`; `none` when the
allocation throws `std::bad_alloc`. -/
def newCopy (alloc : Bool) (h : Heap α) (n src : Nat) : Option (Nat × Heap α) :=
  if alloc then some (h.size, (h.new n).memcpy h.size src n) else none

/-- Store one value at index `k` of the array `i`. -/
def store (h : Heap α) (i k : Nat) (v : α) : Heap α :=
  h.modify i fun b => { b with cells := b.cells.set k (some v) }

/-- The array `i` exists and has not been released. -/
def Live (h : Heap α) (i : Nat) : Prop := ∃ b, h.get? i = some b ∧ b.releases = 0

/-- The array `i` exists and has at least `n` cells. -/
def HasCells (h : Heap α) (i n : Nat) : Prop := ∃ b ∈ h.get? i, n ≤ b.cells.length

instance (h : Heap α) (i n : Nat) : Decidable (h.HasCells i n) :=
  inferInstanceAs (Decidable (∃ b ∈ h.get? i, n ≤ b.cells.length))

@[simp] theorem size_new (h : Heap α) (n : Nat) : (h.new n).size = h.size + 1 := by
  simp [new]

@[simp] theorem size_memcpy (h : Heap α) (dst src n : Nat) :
    (h.memcpy dst src n).size = h.size := by
  simp [memcpy, write]

@[simp] theorem size_store (h : Heap α) (i k : Nat) (v : α) :
    (h.store i k v).size = h.size := by
  simp [store]

@[simp] theorem size_releasePtr (h : Heap α) (ptr : Option Nat) :
    (h.releasePtr ptr).size = h.size := by
  cases ptr with
  | none => rfl
  | some i => exact Table.size_modify _ _ _

/-- `delete[]` leaves what can be read where it is. -/
@[simp] theorem read_releasePtr (h : Heap α) (ptr : Option Nat) (i n : Nat) :
    (h.releasePtr ptr).read i n = h.read i n := by
  cases ptr with
  | none => rfl
  | some j =>
      rcases eq_or_ne j i with rfl | other
      · simp [read, releasePtr, release, Function.comp_def]
      · simp [read, releasePtr, release, Table.get?_modify_of_ne other]

@[simp] theorem view_zero (h : Heap α) (ptr : Option Nat) : h.view ptr 0 = [] := by
  cases ptr with
  | none => rfl
  | some i => cases here : Table.get? h i <;> simp [view, read, here]

theorem hasCells_of_length_read {h : Heap α} {i n : Nat} (positive : 0 < n)
    (length : (h.read i n).length = n) : h.HasCells i n := by
  cases here : h.get? i with
  | none =>
      simp [read, here] at length
      omega
  | some b =>
      simp only [read, here, Option.map_some, Option.getD_some, List.length_take] at length
      exact ⟨b, here, by omega⟩

theorem length_read {h : Heap α} {i n : Nat} (enough : h.HasCells i n) :
    (h.read i n).length = n := by
  obtain ⟨b, here, le⟩ := enough
  simp [read, Option.mem_def.mp here, le]

theorem read_new_of_ne {h : Heap α} {n i m : Nat} (other : i ≠ h.size) :
    (h.new n).read i m = h.read i m := by
  simp [read, new, Table.get?_add_of_ne other]

theorem read_memcpy_of_ne {h : Heap α} {dst src n i m : Nat} (other : dst ≠ i) :
    (h.memcpy dst src n).read i m = h.read i m := by
  simp [read, memcpy, write, Table.get?_modify_of_ne other]

theorem read_store_of_ne {h : Heap α} {i k j m : Nat} {v : α} (other : i ≠ j) :
    (h.store i k v).read j m = h.read j m := by
  simp [read, store, Table.get?_modify_of_ne other]

/-- Making an array and filling it leaves the older arrays alone. -/
theorem read_new_memcpy_of_lt {h : Heap α} {i : Nat} (older : i < h.size) (n src m : Nat) :
    ((h.new n).memcpy h.size src n).read i m = h.read i m := by
  rw [read_memcpy_of_ne (Nat.ne_of_gt older), read_new_of_ne (Nat.ne_of_lt older)]

/-- A fresh array filled by `memcpy` from an older one holds what was read there. -/
theorem read_new_memcpy {h : Heap α} {src n : Nat} (enough : h.HasCells src n) :
    ((h.new n).memcpy h.size src n).read h.size n = h.read src n := by
  have older : src ≠ h.size := by
    obtain ⟨b, here, _⟩ := enough
    exact Nat.ne_of_lt (Table.lt_size_of_get? (Option.mem_def.mp here))
  have length := length_read enough
  have source : (h.new n).read src n = h.read src n := read_new_of_ne older
  rw [memcpy, source]
  simp [read, write, new] at length ⊢
  simp [length, List.take_of_length_le]

/-! ## Exclusive ownership -/

/-- The holders `κ` own the arrays they hold: no array was released twice, and
every identity held is live and held by one holder only. -/
structure Owned {κ : Type*} (h : Heap α) (held : κ → Option Nat) : Prop where
  releasedOnce : ∀ i b, h.get? i = some b → b.releases ≤ 1
  live : ∀ s i, held s = some i → h.Live i
  unique : ∀ s t i, held s = some i → held t = some i → s = t

variable {κ : Type*} {h : Heap α} {held held' : κ → Option Nat}

theorem Owned.empty (nothing : ∀ s, held s = none) : Owned (Table.empty : Heap α) held where
  releasedOnce i b here := by simp at here
  live s i holds := by simp [nothing s] at holds
  unique s t i holds := by simp [nothing s] at holds

/-- Holders may forget what they hold. -/
theorem Owned.forget (owned : Owned h held)
    (fewer : ∀ s i, held' s = some i → held s = some i) : Owned h held' where
  releasedOnce := owned.releasedOnce
  live s i holds := owned.live s i (fewer s i holds)
  unique s t i left right := owned.unique s t i (fewer s i left) (fewer t i right)

/-- A holder gives up its pointer without releasing the array. -/
theorem Owned.drop [DecidableEq κ] (owned : Owned h held) (s : κ) :
    Owned h (Function.update held s none) := by
  refine owned.forget fun t i after => ?_
  rcases eq_or_ne t s with rfl | other
  · simp at after
  · rwa [Function.update_of_ne other] at after

/-- An operation that changes no release count, and no set of arrays, keeps
ownership. -/
theorem Owned.of_releases_eq {h' : Heap α} (owned : Owned h held)
    (same : ∀ i, (h'.get? i).map Block.releases = (h.get? i).map Block.releases) :
    Owned h' held where
  releasedOnce i b here := by
    have count := same i
    rw [here, Option.map_some, eq_comm, Option.map_eq_some_iff] at count
    obtain ⟨c, before, equal⟩ := count
    exact equal ▸ owned.releasedOnce i c before
  live s i holds := by
    obtain ⟨b, here, fresh⟩ := owned.live s i holds
    have count := same i
    rw [here, Option.map_some, Option.map_eq_some_iff] at count
    obtain ⟨c, after, equal⟩ := count
    exact ⟨c, after, equal.trans fresh⟩
  unique := owned.unique

theorem releases_write (h : Heap α) (i : Nat) (cells : List (Option α)) (j : Nat) :
    ((h.write i cells).get? j).map Block.releases = (h.get? j).map Block.releases := by
  rcases eq_or_ne i j with rfl | other
  · simp [write, Function.comp_def]
  · simp [write, Table.get?_modify_of_ne other]

theorem releases_store (h : Heap α) (i k : Nat) (v : α) (j : Nat) :
    ((h.store i k v).get? j).map Block.releases = (h.get? j).map Block.releases := by
  rcases eq_or_ne i j with rfl | other
  · simp [store, Function.comp_def]
  · simp [store, Table.get?_modify_of_ne other]

/-! ## Live arrays -/

/-- Liveness depends on release counts only. -/
theorem live_congr {h h' : Heap α} {i : Nat}
    (same : (h'.get? i).map Block.releases = (h.get? i).map Block.releases) :
    h'.Live i ↔ h.Live i := by
  have counts : ∀ h : Heap α, h.Live i ↔ (h.get? i).map Block.releases = some 0 := by
    intro h
    simp [Live, Option.map_eq_some_iff]
  rw [counts, counts, same]

theorem live_add (h : Heap α) (cells : List (Option α)) (i : Nat) :
    Live (h.add ⟨cells, 0⟩) i ↔ i = h.size ∨ h.Live i := by
  unfold Live
  rw [Table.get?_add]
  split
  · next same => simp [same]
  · next other => simp [other]

theorem live_new_memcpy (h : Heap α) (n src m i : Nat) :
    ((h.new n).memcpy h.size src m).Live i ↔ i = h.size ∨ h.Live i :=
  (live_congr (releases_write _ _ _ _)).trans (live_add h _ i)

/-- What is released is not live any more; the rest is as before. -/
theorem live_releasePtr (h : Heap α) (ptr : Option Nat) (i : Nat) :
    (h.releasePtr ptr).Live i ↔ h.Live i ∧ ptr ≠ some i := by
  cases ptr with
  | none => simp [releasePtr]
  | some j =>
      rcases eq_or_ne j i with rfl | other
      · simp [Live, releasePtr, release]
      · simp [Live, releasePtr, release, Table.get?_modify_of_ne other, other]

/-- How many arrays are live. -/
def liveCount (h : Heap α) : Nat := h.rows.countP fun b => b.releases = 0

theorem liveCount_add (h : Heap α) (cells : List (Option α)) :
    liveCount (h.add ⟨cells, 0⟩) = h.liveCount + 1 := by
  simp [liveCount, Table.add]

/-- A live array that is released is one fewer. -/
theorem liveCount_release {h : Heap α} {i : Nat} (live : h.Live i) :
    (h.release i).liveCount + 1 = h.liveCount := by
  obtain ⟨b, here, fresh⟩ := live
  obtain ⟨inside, same⟩ := List.getElem?_eq_some_iff.mp here
  have counted : 0 < h.rows.countP fun b => b.releases = 0 :=
    List.countP_pos_iff.mpr ⟨b, same ▸ List.getElem_mem inside, by simpa using fresh⟩
  have changed : (h.release i).rows = h.rows.set i { b with releases := b.releases + 1 } := by
    simp [release, Table.modify, List.modify_eq_set_getElem?, List.getElem?_eq_getElem inside, same]
  rw [liveCount, changed, List.countP_set inside, same]
  simp only [fresh, liveCount]
  simp
  omega

/-! ## Ownership, one operation at a time -/

/-- One more array, held by nobody yet. -/
theorem Owned.add (owned : Owned h held) (cells : List (Option α)) :
    Owned (h.add ⟨cells, 0⟩) held where
  releasedOnce i b here := by
    rw [Table.get?_add] at here
    split at here
    · cases here
      exact Nat.zero_le 1
    · exact owned.releasedOnce i b here
  live s i holds := by
    obtain ⟨b, here, fresh⟩ := owned.live s i holds
    exact ⟨b, Table.get?_add_of_some here, fresh⟩
  unique := owned.unique

/-- A holder takes the array just made by `new[]` and filled by `memcpy`,
forgetting the one it held. -/
theorem Owned.newCopy [DecidableEq κ] (owned : Owned h held) (s : κ) (src n : Nat) :
    Owned ((h.new n).memcpy h.size src n)
      (Function.update held s (some h.size)) := by
  have fresh : ∀ t, held t ≠ some h.size := by
    intro t holds
    obtain ⟨b, here, _⟩ := owned.live t h.size holds
    exact absurd (Table.lt_size_of_get? here) (Nat.lt_irrefl _)
  have grown : Owned (h.new n) (Function.update held s (some h.size)) :=
    { releasedOnce := (owned.add _).releasedOnce
      live := by
        intro t i holds
        rcases eq_or_ne t s with rfl | other
        · rw [Function.update_self, Option.some.injEq] at holds
          subst holds
          exact ⟨_, Table.get?_add_self h _, rfl⟩
        · rw [Function.update_of_ne other] at holds
          exact (owned.add _).live t i holds
      unique := by
        intro t u i left right
        by_cases first : t = s <;> by_cases second : u = s
        · rw [first, second]
        · subst first
          rw [Function.update_self, Option.some.injEq] at left
          rw [Function.update_of_ne second, ← left] at right
          exact absurd right (fresh u)
        · subst second
          rw [Function.update_self, Option.some.injEq] at right
          rw [Function.update_of_ne first, ← right] at left
          exact absurd left (fresh t)
        · rw [Function.update_of_ne first] at left
          rw [Function.update_of_ne second] at right
          exact owned.unique t u i left right }
  exact grown.of_releases_eq (releases_write _ _ _)

/-- A holder takes an array just made, forgetting the one it held. -/
theorem Owned.take [DecidableEq κ] (owned : Owned h held) (s : κ) (cells : List (Option α)) :
    Owned (h.add ⟨cells, 0⟩) (Function.update held s (some h.size)) := by
  refine (owned.newCopy s 0 0).of_releases_eq fun i => ?_
  rw [memcpy, releases_write, new, Table.get?_add, Table.get?_add]
  split <;> rfl

/-- A holder releases the array it holds and gives up the pointer. -/
theorem Owned.release [DecidableEq κ] (owned : Owned h held) {s : κ} {i : Nat}
    (holds : held s = some i) :
    Owned (h.release i) (Function.update held s none) where
  releasedOnce j b here := by
    rcases eq_or_ne i j with rfl | differs
    · obtain ⟨c, before, fresh⟩ := owned.live s i holds
      simp only [Heap.release, Table.get?_modify_self, before, Option.map_some,
        Option.some.injEq] at here
      subst here
      exact Nat.le_of_eq (congrArg (· + 1) fresh)
    · rw [Heap.release, Table.get?_modify_of_ne differs] at here
      exact owned.releasedOnce j b here
  live t j other := by
    rcases eq_or_ne t s with rfl | differs
    · simp at other
    · rw [Function.update_of_ne differs] at other
      have apart : i ≠ j := by
        rintro rfl
        exact differs (owned.unique t s i other holds)
      obtain ⟨b, here, fresh⟩ := owned.live t j other
      exact ⟨b, by rw [Heap.release, Table.get?_modify_of_ne apart, here], fresh⟩
  unique t u j left right := by
    rcases eq_or_ne t s with rfl | first
    · simp at left
    · rcases eq_or_ne u s with rfl | second
      · simp at right
      · rw [Function.update_of_ne first] at left
        rw [Function.update_of_ne second] at right
        exact owned.unique t u j left right

/-- A holder releases whatever it holds, a null pointer included. -/
theorem Owned.releasePtr [DecidableEq κ] (owned : Owned h held) (s : κ) :
    Owned (h.releasePtr (held s)) (Function.update held s none) := by
  cases holds : held s with
  | none => exact owned.drop s
  | some i => exact owned.release holds

end Heap

end OpenRtp
