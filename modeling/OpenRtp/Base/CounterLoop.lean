import Mathlib.Algebra.Ring.Nat
import Mathlib.Data.List.Range
import Mathlib.Tactic.TypeStar

/-!
# Counting loops with a counter narrower than the bound

`for (; i < bound; i++)` over a `w`-bit counter and a `v`-bit bound, the counter widened for
the comparison.  The loop ends exactly when the bound is a value of the counter
(`forBelow_eq_some_iff`): any larger bound is above every counter, and a counter that wraps
starts over.
-/

namespace OpenRtp

variable {σ : Type*} {w v : Nat}

/-- The state after `for (; i < bound; i++) body`, if the loop ends within `fuel` tests of its
condition. -/
def forBelow (bound : BitVec v) (body : BitVec w → σ → σ) : Nat → BitVec w → σ → Option σ
  | 0, _, _ => none
  | fuel + 1, i, s =>
      if i.setWidth v < bound then forBelow bound body fuel (i + 1) (body i s) else some s

/-- The counters from `i` on below the bound. -/
def countersFrom (bound : BitVec v) (i : BitVec w) : List (BitVec w) :=
  (List.range' i.toNat (bound.toNat - i.toNat)).map (BitVec.ofNat w)

variable {bound : BitVec v} {body : BitVec w → σ → σ} {fuel : Nat} {i : BitVec w} {s t : σ}

theorem below_iff (wide : w ≤ v) : i.setWidth v < bound ↔ i.toNat < bound.toNat := by
  rw [BitVec.lt_def, BitVec.toNat_setWidth_of_le wide]

/-- While the bound is a value of the counter, a counter below it does not wrap. -/
theorem toNat_succ (value : bound.toNat < 2 ^ w) (below : i.toNat < bound.toNat) :
    (i + 1).toNat = i.toNat + 1 := by
  have inside : i.toNat + 1 < 2 ^ w := by omega
  rw [BitVec.toNat_add, BitVec.ofNat_eq_ofNat, BitVec.toNat_ofNat, Nat.add_mod_mod,
    Nat.mod_eq_of_lt inside]

theorem countersFrom_of_below (value : bound.toNat < 2 ^ w) (below : i.toNat < bound.toNat) :
    countersFrom bound i = i :: countersFrom bound (i + 1) := by
  have more : bound.toNat - i.toNat = bound.toNat - (i + 1).toNat + 1 := by
    rw [toNat_succ value below]
    omega
  rw [countersFrom, more, List.range'_succ, List.map_cons, BitVec.ofNat_toNat,
    BitVec.setWidth_eq, countersFrom, toNat_succ value below]

theorem countersFrom_of_le (reached : bound.toNat ≤ i.toNat) : countersFrom bound i = [] := by
  simp [countersFrom, Nat.sub_eq_zero_of_le reached]

/-- No counter reaches a bound that is not one of its values. -/
theorem forBelow_endless (wide : w ≤ v) (large : 2 ^ w ≤ bound.toNat) :
    forBelow bound body fuel i s = none := by
  induction fuel generalizing i s with
  | zero => rfl
  | succ fuel ih =>
      have below : i.toNat < bound.toNat := Nat.lt_of_lt_of_le i.isLt large
      rw [forBelow, if_pos ((below_iff wide).mpr below), ih]

/-- **Counting loops.** The loop ends exactly when the bound is a value of the counter, after
one pass for each counter below the bound, in order. -/
theorem forBelow_eq_some_iff (wide : w ≤ v) :
    forBelow bound body fuel i s = some t ↔
      bound.toNat < 2 ^ w ∧ bound.toNat - i.toNat < fuel ∧
        t = (countersFrom bound i).foldl (fun s i => body i s) s := by
  rcases Nat.lt_or_ge bound.toNat (2 ^ w) with value | large
  · rw [and_iff_right value]
    induction fuel generalizing i s with
    | zero => simp [forBelow]
    | succ fuel ih =>
        rw [forBelow]
        rcases Nat.lt_or_ge i.toNat bound.toNat with below | reached
        · rw [if_pos ((below_iff wide).mpr below), ih, countersFrom_of_below value below,
            List.foldl_cons, toNat_succ value below]
          exact and_congr_left fun _ => by omega
        · rw [if_neg (mt (below_iff wide).mp (Nat.not_lt.mpr reached)),
            countersFrom_of_le reached, Option.some.injEq, List.foldl_nil,
            and_iff_right (show bound.toNat - i.toNat < fuel + 1 by omega), eq_comm]
  · have outside : ¬ bound.toNat < 2 ^ w := Nat.not_lt.mpr large
    simp [forBelow_endless wide large, outside]

end OpenRtp
