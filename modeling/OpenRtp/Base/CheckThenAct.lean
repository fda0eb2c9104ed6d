import Mathlib.Data.Set.Function
import OpenRtp.Base.Run

/-!
# Checking first, acting later

Callers share a resource: each checks whether an action with its key was taken, and
if it saw none, takes the action itself in a later step.  A caller that saw none is a
claimant from then on, first pending and then acted.  Two claimants with one key are
a conflict.

A conflict never goes away, and one step makes one exactly when it is a check met by
a pending claimant with the same key (`Step.noConflict_iff`).  So a run is free of
conflicts exactly when every check of it is `Serial` (`noConflict_iff_along`),
whatever locks the actions themselves hold.
-/

namespace OpenRtp

/-- The callers that saw nothing and have yet to act, and those that acted. -/
structure Claimants (ι : Type*) where
  pending : Set ι
  acted : Set ι

namespace Claimants

variable {ι κ σ α : Type*} {key : ι → κ} {c c' : Claimants ι} {check : Option ι}

def all (c : Claimants ι) : Set ι := c.pending ∪ c.acted

/-- No two claimants have one key. -/
def NoConflict (key : ι → κ) (c : Claimants ι) : Prop := Set.InjOn key c.all

/-- The check, if there is one, meets no pending claimant with its key. -/
def Serial (key : ι → κ) (c : Claimants ι) (check : Option ι) : Prop :=
  ∀ i, check = some i → ∀ j ∈ c.pending, key j ≠ key i

@[simp] theorem serial_some {i : ι} :
    c.Serial key (some i) ↔ ∀ j ∈ c.pending, key j ≠ key i := by
  simp [Serial]

@[simp] theorem serial_none : c.Serial key none := by
  simp [Serial]

/-- What a step does to the claimants; `check` is the caller whose check it is. -/
inductive Step (key : ι → κ) (c : Claimants ι) : Option ι → Claimants ι → Prop
  | found {i j : ι} (acted : j ∈ c.acted) (finished : j ∉ c.pending) (same : key j = key i) :
      Step key c (some i) c
  | absent {i : ι} {c' : Claimants ι} (new : i ∉ c.all) (absent : ∀ j ∈ c.acted, key j ≠ key i)
      (pending : c'.pending = insert i c.pending) (acted : c'.acted = c.acted) :
      Step key c (some i) c'
  | act {i : ι} {c' : Claimants ι} (claimed : i ∈ c.pending)
      (pending : c'.pending = c.pending \ {i}) (acted : c'.acted = insert i c.acted) :
      Step key c none c'
  | idle : Step key c none c

/-- One step keeps the claimants apart exactly when they were and its check is serial. -/
theorem Step.noConflict_iff (h : Step key c check c') :
    c'.NoConflict key ↔ c.NoConflict key ∧ c.Serial key check := by
  cases h with
  | @found i j acted finished same =>
      refine ⟨fun apart => ⟨apart, serial_some.mpr fun k pending equal => ?_⟩, And.left⟩
      have one := apart (.inl pending) (.inr acted) (equal.trans same.symm)
      exact finished (one ▸ pending)
  | @absent i c' new absent pending acted =>
      have all : c'.all = insert i c.all := by
        rw [Claimants.all, pending, acted, Set.insert_union, Claimants.all]
      rw [NoConflict, all, Set.injOn_insert new, serial_some]
      refine and_congr_right fun _ => ⟨fun free j claimed equal => ?_, fun serial => ?_⟩
      · exact free ⟨j, .inl claimed, equal⟩
      · intro conflict
        rcases conflict with ⟨j, claimed | done, equal⟩
        · exact serial j claimed equal
        · exact absent j done equal
  | @act i c' claimed pending acted =>
      have all : c'.all = c.all := by
        rw [Claimants.all, pending, acted, Set.union_insert, ← Set.insert_union,
          Set.insert_sdiff_singleton, Set.insert_eq_of_mem claimed, Claimants.all]
      rw [NoConflict, all]
      exact ⟨fun apart => ⟨apart, serial_none⟩, And.left⟩
  | idle => exact ⟨fun apart => ⟨apart, serial_none⟩, And.left⟩

/-- **Check then act.** A system whose steps act on its claimants as `Step` allows is
free of conflicts after a run exactly when every check of the run is serial. -/
theorem noConflict_iff_along {step : σ → α → Option σ} {I : σ → Prop}
    (claimants : σ → Claimants ι) {checks : σ → α → Option ι}
    (preserved : ∀ s a t, I s → step s a = some t → I t)
    (steps : ∀ s a t, I s → step s a = some t →
      (claimants s).Step key (checks s a) (claimants t))
    {s t : σ} {as : List α} (invariant : I s) (apart : (claimants s).NoConflict key)
    (reached : run step s as = some t) :
    (claimants t).NoConflict key ↔
      Along step (fun s a => (claimants s).Serial key (checks s a)) s as := by
  rw [iff_along (P := fun s => (claimants s).NoConflict key) preserved
    (fun s a t inv next => (steps s a t inv next).noConflict_iff) invariant reached]
  exact and_iff_right apart

/-- With nothing pending, conflicts are between those that acted. -/
theorem noConflict_of_settled (settled : c.pending = ∅) :
    c.NoConflict key ↔ Set.InjOn key c.acted := by
  rw [NoConflict, all, settled, Set.empty_union]

end Claimants

end OpenRtp
