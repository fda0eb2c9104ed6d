import Mathlib.Data.List.Basic
import Mathlib.Tactic.TypeStar

/-!
# Tables of created objects

A `Table` keeps one row for every object ever created: the identity of an object
is its position, a new object takes the next free one, and rows change but are
never removed.  Heap blocks, heap-allocated objects and operating-system threads
are all tables here, so a stale identity still finds the row it named.
-/

namespace OpenRtp

/-- Rows by identity, in order of creation. -/
structure Table (β : Type*) where
  rows : List β
deriving DecidableEq, Repr

namespace Table

variable {β : Type*}

def empty : Table β := ⟨[]⟩

/-- The next free identity; every smaller one has been given out. -/
def size (t : Table β) : Nat := t.rows.length

def get? (t : Table β) (i : Nat) : Option β := t.rows[i]?

/-- Create an object; its identity is the old `size`. -/
def add (t : Table β) (b : β) : Table β := ⟨t.rows ++ [b]⟩

def modify (t : Table β) (i : Nat) (f : β → β) : Table β := ⟨t.rows.modify i f⟩

@[simp] theorem size_empty : (empty : Table β).size = 0 := rfl

@[simp] theorem size_add (t : Table β) (b : β) : (t.add b).size = t.size + 1 := by
  simp [size, add]

@[simp] theorem size_modify (t : Table β) (i : Nat) (f : β → β) :
    (t.modify i f).size = t.size := by
  simp [size, modify]

@[simp] theorem get?_empty (i : Nat) : (empty : Table β).get? i = none := rfl

theorem get?_eq_none_iff {t : Table β} {i : Nat} : t.get? i = none ↔ t.size ≤ i := by
  simp [get?, size]

theorem lt_size_of_get? {t : Table β} {i : Nat} {b : β} (h : t.get? i = some b) :
    i < t.size := by
  by_contra outside
  rw [get?_eq_none_iff.mpr (Nat.le_of_not_lt outside)] at h
  cases h

theorem exists_get?_of_lt {t : Table β} {i : Nat} (h : i < t.size) :
    ∃ b, t.get? i = some b :=
  ⟨t.rows[i], List.getElem?_eq_getElem h⟩

theorem get?_add (t : Table β) (b : β) (i : Nat) :
    (t.add b).get? i = if i = t.size then some b else t.get? i := by
  rcases eq_or_ne i t.size with rfl | last
  · simp [get?, add, size]
  · rw [if_neg last]
    unfold size at last
    rcases Nat.lt_or_ge i t.rows.length with below | above
    · exact List.getElem?_append_left below
    · simp only [get?, add]
      rw [List.getElem?_eq_none above, List.getElem?_eq_none]
      simp only [List.length_append, List.length_singleton]
      omega

@[simp] theorem get?_add_self (t : Table β) (b : β) : (t.add b).get? t.size = some b := by
  simp [get?_add]

theorem get?_add_of_ne {t : Table β} {b : β} {i : Nat} (h : i ≠ t.size) :
    (t.add b).get? i = t.get? i := by
  simp [get?_add, h]

/-- Creating an object leaves every existing row alone. -/
theorem get?_add_of_some {t : Table β} {b c : β} {i : Nat} (h : t.get? i = some c) :
    (t.add b).get? i = some c := by
  rw [get?_add_of_ne (Nat.ne_of_lt (lt_size_of_get? h)), h]

theorem get?_modify (t : Table β) (i j : Nat) (f : β → β) :
    (t.modify i f).get? j = if i = j then (t.get? j).map f else t.get? j := by
  simp only [get?, modify, List.getElem?_modify]
  split
  · rfl
  · simp

@[simp] theorem get?_modify_self (t : Table β) (i : Nat) (f : β → β) :
    (t.modify i f).get? i = (t.get? i).map f := by
  simp [get?_modify]

theorem get?_modify_of_ne {t : Table β} {i j : Nat} {f : β → β} (h : i ≠ j) :
    (t.modify i f).get? j = t.get? j := by
  simp [get?_modify, h]

theorem modify_modify (t : Table β) (i : Nat) (f g : β → β) :
    (t.modify i f).modify i g = t.modify i (g ∘ f) := by
  simp [modify, List.modify_modify_eq]

end Table

end OpenRtp
