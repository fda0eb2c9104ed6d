import Mathlib.Algebra.Ring.Nat
import Mathlib.Tactic.TypeStar

/-!
# C arithmetic on unsigned objects

Values of C expressions after the integer promotions, with a 32-bit `int`.  An unsigned object
narrower than `int` is promoted to `int`, a 32-bit one stays unsigned.  An operation whose
result its promoted type cannot represent is undefined, and so is here a store that would lose
bits: both are `none`.  So an expression evaluates to `some` exactly when all its operations
are defined and all its stores keep every bit.
-/

namespace OpenRtp

/-- A promoted operand: its type and its 32 bits. -/
inductive CValue
  | int (x : BitVec 32)
  | unsigned (x : BitVec 32)
deriving DecidableEq, Repr

namespace CValue

def bits : CValue → BitVec 32
  | int x => x
  | unsigned x => x

def value : CValue → Int
  | int x => x.toInt
  | unsigned x => x.toNat

/-- The promotion of an unsigned object of `w` bits. -/
def promote {w : Nat} (x : BitVec w) : CValue :=
  if w < 32 then int (x.setWidth 32) else unsigned (x.setWidth 32)

/-- The usual arithmetic conversions: an `int` beside an unsigned operand becomes unsigned. -/
def bitwise (f : BitVec 32 → BitVec 32 → BitVec 32) : CValue → CValue → CValue
  | int x, int y => int (f x y)
  | a, b => unsigned (f a.bits b.bits)

/-- `a & b`. -/
def and (a b : CValue) : CValue := bitwise (· &&& ·) a b

/-- `a | b`. -/
def or (a b : CValue) : CValue := bitwise (· ||| ·) a b

/-- `a << k`. -/
def shl (a : CValue) (k : Nat) : Option CValue :=
  if k < 32 then
    match a with
    | int x =>
        if 0 ≤ x.toInt ∧ x.toInt.toNat * 2 ^ k < 2 ^ 31 then some (int (x <<< k)) else none
    | unsigned x => some (unsigned (x <<< k))
  else none

/-- `a >> k`, arithmetic on a negative operand. -/
def shr (a : CValue) (k : Nat) : Option CValue :=
  if k < 32 then
    match a with
    | int x => some (int (x.sshiftRight k))
    | unsigned x => some (unsigned (x >>> k))
  else none

/-- The conversion of a value to an unsigned type of `w` bits that loses no bit. -/
def store (w : Nat) (a : CValue) : Option (BitVec w) :=
  if 0 ≤ a.value ∧ a.value.toNat < 2 ^ w then some (BitVec.ofNat w a.value.toNat) else none

variable {w v k : Nat} {x : BitVec 32} {a : CValue}

/-! ## Promotions -/

theorem promote_of_narrow (narrow : w < 32) (x : BitVec w) : promote x = int (x.setWidth 32) :=
  if_pos narrow

@[simp] theorem promote_word (x : BitVec 32) : promote x = unsigned x := by
  rw [promote, if_neg (Nat.lt_irrefl 32), BitVec.setWidth_eq]

/-- A promotion keeps the number. -/
theorem value_promote (fits : w ≤ 32) (x : BitVec w) : (promote x).value = x.toNat := by
  unfold promote
  split
  · next narrow =>
      have below : x.toNat < 2 ^ 31 :=
        Nat.lt_of_lt_of_le x.isLt (Nat.pow_le_pow_right (by decide) (by omega))
      have same : (x.setWidth 32).toNat = x.toNat := BitVec.toNat_setWidth_of_le fits
      rw [value, BitVec.toInt_eq_toNat_of_lt (by omega), same]
  · rw [value, BitVec.toNat_setWidth_of_le fits]

/-! ## Unsigned operands -/

@[simp] theorem unsigned_and (x : BitVec 32) (b : CValue) :
    (unsigned x).and b = unsigned (x &&& b.bits) := rfl

@[simp] theorem unsigned_or (x y : BitVec 32) :
    (unsigned x).or (unsigned y) = unsigned (x ||| y) := rfl

theorem unsigned_shl (inside : k < 32) (x : BitVec 32) :
    (unsigned x).shl k = some (unsigned (x <<< k)) := if_pos inside

theorem unsigned_shr (inside : k < 32) (x : BitVec 32) :
    (unsigned x).shr k = some (unsigned (x >>> k)) := if_pos inside

/-! ## Bounds -/

theorem toNat_mask_le (x m : BitVec 32) : (x &&& m).toNat ≤ m.toNat := by
  rw [BitVec.toNat_and]
  exact Nat.and_le_right

theorem toNat_shr_le {n : Nat} (bound : x.toNat ≤ n) (k : Nat) : (x >>> k).toNat ≤ n >>> k := by
  rw [BitVec.toNat_ushiftRight, Nat.shiftRight_eq_div_pow, Nat.shiftRight_eq_div_pow]
  exact Nat.div_le_div_right bound

theorem toNat_shl_le {n : Nat} (bound : x.toNat ≤ n) (k : Nat) : (x <<< k).toNat ≤ n <<< k := by
  rw [BitVec.toNat_shiftLeft, Nat.shiftLeft_eq, Nat.shiftLeft_eq]
  exact Nat.le_trans (Nat.mod_le _ _) (Nat.mul_le_mul_right _ bound)

theorem toNat_or_lt {y : BitVec 32} (first : x.toNat < 2 ^ w) (second : y.toNat < 2 ^ w) :
    (x ||| y).toNat < 2 ^ w := by
  rw [BitVec.toNat_or]
  exact Nat.or_lt_two_pow first second

/-! ## Signed operands -/

/-- Shifting a non-negative `int` is defined exactly when the product is an `int`. -/
theorem int_shl (inside : k < 32) (nonneg : x.toNat < 2 ^ 31) :
    (int x).shl k = if x.toNat * 2 ^ k < 2 ^ 31 then some (int (x <<< k)) else none := by
  have value : x.toInt = x.toNat := BitVec.toInt_eq_toNat_of_lt (by omega)
  rw [shl, if_pos inside]
  simp only [value, Int.natCast_nonneg, true_and, Int.toNat_natCast]

/-! ## Stores -/

theorem store_eq_some_of_value {n : Nat} (value : a.value = n) (fits : n < 2 ^ w) :
    a.store w = some (BitVec.ofNat w n) := by
  rw [store, value, Int.toNat_natCast, if_pos ⟨Int.natCast_nonneg n, fits⟩]

theorem store_unsigned (fits : x.toNat < 2 ^ w) : (unsigned x).store w = some (x.setWidth w) := by
  rw [store_eq_some_of_value rfl fits, BitVec.ofNat_toNat]

@[simp] theorem store_word (x : BitVec 32) : (unsigned x).store 32 = some x := by
  rw [store_unsigned x.isLt, BitVec.setWidth_eq]

/-- A shift to the right makes room. -/
theorem store_shifted (fits : 32 ≤ w + k) (x : BitVec 32) :
    (unsigned (x >>> k)).store w = some ((x >>> k).setWidth w) := by
  refine store_unsigned ?_
  rw [BitVec.toNat_ushiftRight, Nat.shiftRight_eq_div_pow]
  refine Nat.div_lt_of_lt_mul (Nat.lt_of_lt_of_le x.isLt ?_)
  rw [← Nat.pow_add]
  exact Nat.pow_le_pow_right (by decide) (by omega)

theorem store_int (nonneg : x.toNat < 2 ^ 31) (fits : x.toNat < 2 ^ w) :
    (int x).store w = some (x.setWidth w) := by
  have same : (int x).value = x.toNat := BitVec.toInt_eq_toNat_of_lt (by omega)
  rw [store_eq_some_of_value same fits, BitVec.ofNat_toNat]

/-- A masked value fits where the mask does. -/
theorem store_mask {m : BitVec 32} (fits : m.toNat < 2 ^ w) (x : BitVec 32) :
    (unsigned (x &&& m)).store w = some ((x &&& m).setWidth w) :=
  store_unsigned (Nat.lt_of_le_of_lt (toNat_mask_le x m) fits)

theorem store_masked {m : BitVec 32} (fits : m.toNat >>> k < 2 ^ w) (x : BitVec 32) :
    (unsigned ((x &&& m) >>> k)).store w = some (((x &&& m) >>> k).setWidth w) :=
  store_unsigned (Nat.lt_of_le_of_lt (toNat_shr_le (toNat_mask_le x m) k) fits)

/-- An object can be stored in a wider one. -/
theorem store_promote (fits : w ≤ 32) (wide : w ≤ v) (x : BitVec w) :
    (promote x).store v = some (x.setWidth v) := by
  have inside : x.toNat < 2 ^ v :=
    Nat.lt_of_lt_of_le x.isLt (Nat.pow_le_pow_right (by decide) wide)
  rw [store_eq_some_of_value (value_promote fits x) inside, BitVec.ofNat_toNat]

end CValue

end OpenRtp
