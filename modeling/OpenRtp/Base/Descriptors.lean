import Mathlib.Data.List.Range
import Mathlib.Logic.Function.Basic
import Mathlib.Tactic.TypeStar

/-!
# Descriptor tables

The open files of a process, numbered by descriptors.  A new descriptor is the lowest one
that is free (`openFile_of_lowest`), and is below the limit of the process
(`lt_limit_of_openFile`); a descriptor above the limit may still be open from before.
-/

namespace OpenRtp

/-- What each descriptor is open on, and the limit that a new one is below. -/
structure Descriptors (φ : Type*) where
  file : Nat → Option φ
  limit : Nat

namespace Descriptors

variable {φ : Type*} {d d' : Descriptors φ} {f : φ} {fd n : Nat}

def set (d : Descriptors φ) (fd : Nat) (file : Option φ) : Descriptors φ :=
  { d with file := Function.update d.file fd file }

@[simp] theorem limit_set (d : Descriptors φ) (fd : Nat) (file : Option φ) :
    (d.set fd file).limit = d.limit := rfl

theorem file_set (d : Descriptors φ) (fd : Nat) (file : Option φ) (n : Nat) :
    (d.set fd file).file n = if n = fd then file else d.file n :=
  Function.update_apply _ _ _ _

def lowestFree (d : Descriptors φ) : Option Nat :=
  (List.range d.limit).find? fun fd => (d.file fd).isNone

/-- `open`: the new descriptor, unless none is free. -/
def openFile (d : Descriptors φ) (f : φ) : Option Nat × Descriptors φ :=
  match d.lowestFree with
  | some fd => (some fd, d.set fd (some f))
  | none => (none, d)

/-- `dup`: another descriptor for the same file. -/
def dup (d : Descriptors φ) (fd : Nat) : Option Nat × Descriptors φ :=
  match d.file fd with
  | some f => d.openFile f
  | none => (none, d)

/-- `close`, which fails on a number that is no descriptor. -/
def close (d : Descriptors φ) (fd : Int) : Descriptors φ :=
  if fd < 0 then d else d.set fd.toNat none

theorem lowestFree_eq_some_iff :
    d.lowestFree = some fd ↔
      fd < d.limit ∧ d.file fd = none ∧ ∀ n < fd, d.file n ≠ none := by
  rw [lowestFree, List.find?_range_eq_some, List.mem_range]
  constructor
  · intro found
    rcases found with ⟨free, below, taken⟩
    exact ⟨below, Option.isNone_iff_eq_none.mp free, fun n less =>
      Option.isSome_iff_ne_none.mp (by simpa using taken n less)⟩
  · intro lowest
    rcases lowest with ⟨below, free, taken⟩
    refine ⟨Option.isNone_iff_eq_none.mpr free, below, fun n less => ?_⟩
    simpa using Option.isSome_iff_ne_none.mpr (taken n less)

theorem openFile_of_lowest (below : fd < d.limit) (free : d.file fd = none)
    (taken : ∀ n < fd, d.file n ≠ none) : d.openFile f = (some fd, d.set fd (some f)) := by
  rw [openFile, lowestFree_eq_some_iff.mpr ⟨below, free, taken⟩]

theorem lt_limit_of_openFile (opened : (d.openFile f).1 = some fd) : fd < d.limit := by
  unfold openFile at opened
  split at opened
  · next n lowest =>
      cases opened
      exact (lowestFree_eq_some_iff.mp lowest).1
  · cases opened

@[simp] theorem limit_openFile (d : Descriptors φ) (f : φ) :
    (d.openFile f).2.limit = d.limit := by
  unfold openFile
  split <;> rfl

theorem lt_limit_of_dup (opened : (d.dup n).1 = some fd) : fd < d.limit := by
  unfold dup at opened
  split at opened
  · exact lt_limit_of_openFile opened
  · cases opened

@[simp] theorem limit_dup (d : Descriptors φ) (n : Nat) : (d.dup n).2.limit = d.limit := by
  unfold dup
  split
  · exact limit_openFile d _
  · rfl

theorem file_close (d : Descriptors φ) (fd : Int) (n : Nat) :
    (d.close fd).file n = if fd = n then none else d.file n := by
  unfold close
  split
  · next negative => rw [if_neg (by omega)]
  · next descriptor =>
      rw [file_set]
      exact if_congr (by omega) rfl rfl

@[simp] theorem limit_close (d : Descriptors φ) (fd : Int) : (d.close fd).limit = d.limit := by
  unfold close
  split <;> rfl

/-- Closing a list of descriptors closes those and no other. -/
theorem file_foldl_close (fds : List Int) (d : Descriptors φ) (n : Nat) :
    (fds.foldl close d).file n = if (n : Int) ∈ fds then none else d.file n := by
  induction fds generalizing d with
  | nil => simp
  | cons fd fds ih =>
      rw [List.foldl_cons, ih, file_close]
      rcases eq_or_ne (n : Int) fd with same | other
      · simp [same]
      · simp [other, Ne.symm other]

@[simp] theorem limit_foldl_close (fds : List Int) (d : Descriptors φ) :
    (fds.foldl close d).limit = d.limit := by
  induction fds generalizing d with
  | nil => rfl
  | cons fd fds ih => rw [List.foldl_cons, ih, limit_close]

/-- With the first three descriptors free, `open` and two calls of `dup` take them. -/
theorem open_three (f : φ) (free : ∀ fd < 3, d.file fd = none) (room : 3 ≤ d.limit) :
    ∃ d₁ d₂ d₃, d.openFile f = (some 0, d₁) ∧ d₁.dup 0 = (some 1, d₂) ∧
      d₂.dup 0 = (some 2, d₃) ∧
      ∀ fd, d₃.file fd = if fd < 3 then some f else d.file fd := by
  have first : d.openFile f = (some 0, d.set 0 (some f)) :=
    openFile_of_lowest (by omega) (free 0 (by omega)) (by simp)
  have second : (d.set 0 (some f)).dup 0 = (some 1, (d.set 0 (some f)).set 1 (some f)) := by
    have here : (d.set 0 (some f)).file 0 = some f := by simp [file_set]
    rw [dup, here]
    refine openFile_of_lowest (by rw [limit_set]; omega) ?_ fun n less => ?_
    · simpa [file_set] using free 1 (by omega)
    · have zero : n = 0 := by omega
      simp [file_set, zero]
  have third : ((d.set 0 (some f)).set 1 (some f)).dup 0 =
      (some 2, ((d.set 0 (some f)).set 1 (some f)).set 2 (some f)) := by
    have here : ((d.set 0 (some f)).set 1 (some f)).file 0 = some f := by simp [file_set]
    rw [dup, here]
    refine openFile_of_lowest (by simp only [limit_set]; omega) ?_ fun n less => ?_
    · simpa [file_set] using free 2 (by omega)
    · rcases (show n = 0 ∨ n = 1 by omega) with rfl | rfl <;> simp [file_set]
  refine ⟨_, _, _, first, second, third, fun fd => ?_⟩
  simp only [file_set]
  rcases (show fd = 0 ∨ fd = 1 ∨ fd = 2 ∨ 3 ≤ fd by omega) with rfl | rfl | rfl | above
  · rfl
  · rfl
  · rfl
  · rw [if_neg (by omega), if_neg (by omega), if_neg (by omega), if_neg (by omega)]

end Descriptors

end OpenRtp
