import Mathlib.Tactic.IntervalCases

/-!
# Bit-fields over bytes

A C structure laid over a byte buffer.  A 32-bit unit is four bytes in the order of the
host, and a bit-field is a run of bits of a unit, allocated from the least significant
bit on a little-endian host and from the most significant one on a big-endian host, as
GCC does on both.

* `load_store` and `load_store_of_apart`: units behave as cells.
* `get_set` and `get_set_of_apart`: so do the fields inside them.
* `eq_of_extracts` and `eq_of_loads`: bytes are determined by units, and a unit by two
  fields that fill it.
-/

namespace OpenRtp

abbrev Byte := BitVec 8

/-- The byte order of the host. -/
inductive Host
  | little
  | big
deriving DecidableEq, Repr

/-! ## Bytes of a unit -/

/-- Byte `k` of a value, counted from the least significant. -/
def byteOf {w : Nat} (x : BitVec w) (k : Nat) : Byte := x.extractLsb' (8 * k) 8

/-- The unit with the given bytes, the least significant first. -/
def unitOf (b₀ b₁ b₂ b₃ : Byte) : BitVec 32 :=
  b₀.setWidth 32 ||| b₁.setWidth 32 <<< 8 ||| b₂.setWidth 32 <<< 16 ||| b₃.setWidth 32 <<< 24

theorem getLsbD_byteOf {w : Nat} (x : BitVec w) (k i : Nat) :
    (byteOf x k).getLsbD i = (decide (i < 8) && x.getLsbD (8 * k + i)) := by
  rw [byteOf, BitVec.getLsbD_extractLsb']

theorem getLsbD_unitOf (b₀ b₁ b₂ b₃ : Byte) {i : Nat} (inside : i < 32) :
    (unitOf b₀ b₁ b₂ b₃).getLsbD i =
      if i < 8 then b₀.getLsbD i else if i < 16 then b₁.getLsbD (i - 8)
      else if i < 24 then b₂.getLsbD (i - 16) else b₃.getLsbD (i - 24) := by
  simp only [unitOf, BitVec.getLsbD_or, BitVec.getLsbD_shiftLeft, BitVec.getLsbD_setWidth]
  grind

@[simp] theorem byteOf_unitOf (b₀ b₁ b₂ b₃ : Byte) :
    byteOf (unitOf b₀ b₁ b₂ b₃) 0 = b₀ ∧ byteOf (unitOf b₀ b₁ b₂ b₃) 1 = b₁ ∧
      byteOf (unitOf b₀ b₁ b₂ b₃) 2 = b₂ ∧ byteOf (unitOf b₀ b₁ b₂ b₃) 3 = b₃ := by
  refine ⟨?_, ?_, ?_, ?_⟩
  all_goals
    apply BitVec.eq_of_getLsbD_eq
    intro i inside
    rw [getLsbD_byteOf, getLsbD_unitOf _ _ _ _ (by omega)]
    grind

theorem unitOf_byteOf (x : BitVec 32) :
    unitOf (byteOf x 0) (byteOf x 1) (byteOf x 2) (byteOf x 3) = x := by
  apply BitVec.eq_of_getLsbD_eq
  intro i inside
  rw [getLsbD_unitOf _ _ _ _ inside]
  simp only [getLsbD_byteOf]
  grind

theorem unitOf_inj {b₀ b₁ b₂ b₃ c₀ c₁ c₂ c₃ : Byte}
    (same : unitOf b₀ b₁ b₂ b₃ = unitOf c₀ c₁ c₂ c₃) :
    b₀ = c₀ ∧ b₁ = c₁ ∧ b₂ = c₂ ∧ b₃ = c₃ := by
  obtain ⟨h₀, h₁, h₂, h₃⟩ := byteOf_unitOf b₀ b₁ b₂ b₃
  rw [same] at h₀ h₁ h₂ h₃
  obtain ⟨k₀, k₁, k₂, k₃⟩ := byteOf_unitOf c₀ c₁ c₂ c₃
  exact ⟨h₀.symm.trans k₀, h₁.symm.trans k₁, h₂.symm.trans k₂, h₃.symm.trans k₃⟩

/-- The low `n` bytes of a value, the most significant first. -/
def bytesBe {w : Nat} (x : BitVec w) (n : Nat) : List Byte := (List.range n).reverse.map (byteOf x)

@[simp] theorem length_bytesBe {w : Nat} (x : BitVec w) (n : Nat) : (bytesBe x n).length = n := by
  simp [bytesBe]

/-! ## Units of a buffer -/

/-- Byte `i` of a buffer. -/
def byteAt (bytes : List Byte) (i : Nat) : Byte := bytes.getD i 0

/-- Write four consecutive bytes. -/
def writeBytes (bytes : List Byte) (off : Nat) (b₀ b₁ b₂ b₃ : Byte) : List Byte :=
  (((bytes.set off b₀).set (off + 1) b₁).set (off + 2) b₂).set (off + 3) b₃

namespace Host

/-- Read the unit at `off`. -/
def load (host : Host) (bytes : List Byte) (off : Nat) : BitVec 32 :=
  let b₀ := byteAt bytes off
  let b₁ := byteAt bytes (off + 1)
  let b₂ := byteAt bytes (off + 2)
  let b₃ := byteAt bytes (off + 3)
  match host with
  | little => unitOf b₀ b₁ b₂ b₃
  | big => unitOf b₃ b₂ b₁ b₀

/-- Write the unit at `off`. -/
def store (host : Host) (bytes : List Byte) (off : Nat) (x : BitVec 32) : List Byte :=
  match host with
  | little => writeBytes bytes off (byteOf x 0) (byteOf x 1) (byteOf x 2) (byteOf x 3)
  | big => writeBytes bytes off (byteOf x 3) (byteOf x 2) (byteOf x 1) (byteOf x 0)

end Host

@[simp] theorem length_writeBytes (bytes : List Byte) (off : Nat) (b₀ b₁ b₂ b₃ : Byte) :
    (writeBytes bytes off b₀ b₁ b₂ b₃).length = bytes.length := by
  simp [writeBytes]

theorem byteAt_set {bytes : List Byte} {i : Nat} (inside : i < bytes.length) (b : Byte)
    (j : Nat) : byteAt (bytes.set i b) j = if j = i then b else byteAt bytes j := by
  unfold byteAt
  rw [List.getD_eq_getElem?_getD, List.getD_eq_getElem?_getD, List.getElem?_set]
  rcases eq_or_ne i j with rfl | other
  · simp [inside]
  · simp [other, Ne.symm other]

theorem byteAt_writeBytes {bytes : List Byte} {off : Nat} (inside : off + 4 ≤ bytes.length)
    (b₀ b₁ b₂ b₃ : Byte) (j : Nat) :
    byteAt (writeBytes bytes off b₀ b₁ b₂ b₃) j =
      if j = off then b₀ else if j = off + 1 then b₁ else if j = off + 2 then b₂
      else if j = off + 3 then b₃ else byteAt bytes j := by
  unfold writeBytes
  rw [byteAt_set (by simp; omega), byteAt_set (by simp; omega), byteAt_set (by simp; omega),
    byteAt_set (by omega)]
  split_ifs <;> first | rfl | omega

theorem drop_writeBytes {bytes : List Byte} {off n : Nat} (inside : off + 4 ≤ n)
    (b₀ b₁ b₂ b₃ : Byte) : (writeBytes bytes off b₀ b₁ b₂ b₃).drop n = bytes.drop n := by
  unfold writeBytes
  rw [List.drop_set_of_lt (by omega), List.drop_set_of_lt (by omega),
    List.drop_set_of_lt (by omega), List.drop_set_of_lt (by omega)]

theorem byteAt_take {bytes : List Byte} {i n : Nat} (inside : i < n) :
    byteAt (bytes.take n) i = byteAt bytes i := by
  simp [byteAt, inside]

/-- Buffers are equal up to a point exactly when their bytes before it are. -/
theorem take_eq_take_iff {bytes bytes' : List Byte} {n : Nat} (room : n ≤ bytes.length)
    (room' : n ≤ bytes'.length) :
    bytes.take n = bytes'.take n ↔ ∀ i < n, byteAt bytes i = byteAt bytes' i := by
  constructor
  · intro same i inside
    rw [← byteAt_take inside, same, byteAt_take inside]
  · intro same
    refine List.ext_getElem (by simp [room, room']) fun i first second => ?_
    have inside : i < n := by simp at first; omega
    have byte := same i inside
    simpa [byteAt, Nat.lt_of_lt_of_le inside room, Nat.lt_of_lt_of_le inside room'] using byte

namespace Host

variable {host : Host} {bytes bytes' : List Byte} {off off' n : Nat} {x : BitVec 32}

@[simp] theorem length_store : (host.store bytes off x).length = bytes.length := by
  cases host <;> simp [store]

theorem drop_store (inside : off + 4 ≤ n) :
    (host.store bytes off x).drop n = bytes.drop n := by
  cases host <;> exact drop_writeBytes inside _ _ _ _

theorem load_store (inside : off + 4 ≤ bytes.length) :
    host.load (host.store bytes off x) off = x := by
  cases host
  all_goals
    unfold load store
    simp only [byteAt_writeBytes inside]
    simpa using unitOf_byteOf x

theorem load_store_of_apart (inside : off + 4 ≤ bytes.length)
    (apart : off' + 4 ≤ off ∨ off + 4 ≤ off') :
    host.load (host.store bytes off x) off' = host.load bytes off' := by
  have same : ∀ k, k < 4 → ∀ b₀ b₁ b₂ b₃,
      byteAt (writeBytes bytes off b₀ b₁ b₂ b₃) (off' + k) = byteAt bytes (off' + k) :=
    fun k small b₀ b₁ b₂ b₃ => by
      rw [byteAt_writeBytes inside, if_neg (by omega), if_neg (by omega), if_neg (by omega),
        if_neg (by omega)]
  have first := same 0 (by omega)
  rw [Nat.add_zero] at first
  cases host <;>
    simp only [load, store, first, same 1 (by omega), same 2 (by omega), same 3 (by omega)]

/-- A unit determines its four bytes. -/
theorem byteAt_eq_of_load (same : host.load bytes off = host.load bytes' off) {k : Nat}
    (small : k < 4) : byteAt bytes (off + k) = byteAt bytes' (off + k) := by
  cases host
  all_goals
    obtain ⟨h₀, h₁, h₂, h₃⟩ := unitOf_inj same
    interval_cases k <;> assumption

/-- Buffers of `n` units that agree on every unit are equal. -/
theorem eq_of_loads (host : Host) (length : bytes.length = 4 * n)
    (length' : bytes'.length = 4 * n)
    (same : ∀ j < n, host.load bytes (4 * j) = host.load bytes' (4 * j)) : bytes = bytes' := by
  refine List.ext_getElem (length.trans length'.symm) fun i inside inside' => ?_
  have unit := byteAt_eq_of_load (same (i / 4) (by omega)) (k := i % 4) (by omega)
  rw [Nat.div_add_mod] at unit
  simpa [byteAt, inside, inside'] using unit

/-- A unit is read from the bytes before any point past it. -/
theorem load_take (inside : off + 4 ≤ n) : host.load (bytes.take n) off = host.load bytes off := by
  have same : ∀ k < 4, byteAt (bytes.take n) (off + k) = byteAt bytes (off + k) :=
    fun k small => byteAt_take (by omega)
  have first := same 0 (by omega)
  rw [Nat.add_zero] at first
  cases host <;>
    simp only [load, first, same 1 (by omega), same 2 (by omega), same 3 (by omega)]

end Host

/-! ## Fields of a unit -/

/-- A bit-field: the offset of its unit, and the bits of the unit allocated before it. -/
structure BitField (width : Nat) where
  unit : Nat
  start : Nat
deriving DecidableEq, Repr

namespace BitField

variable {w w' : Nat}

/-- The field lies inside its unit. -/
def Fits (f : BitField w) : Prop := f.start + w ≤ 32

instance (f : BitField w) : Decidable f.Fits := inferInstanceAs (Decidable (_ ≤ _))

/-- The least significant bit of the field in its unit. -/
def shift (host : Host) (f : BitField w) : Nat :=
  match host with
  | .little => f.start
  | .big => 32 - f.start - w

def extract (host : Host) (f : BitField w) (u : BitVec 32) : BitVec w :=
  (u >>> f.shift host).setWidth w

def insert (host : Host) (f : BitField w) (u : BitVec 32) (v : BitVec w) : BitVec 32 :=
  let mask := (BitVec.allOnes w).setWidth 32 <<< f.shift host
  (u &&& ~~~mask) ||| v.setWidth 32 <<< f.shift host

variable {host : Host} {f : BitField w} {g : BitField w'}

theorem Fits.shift_add_le (fits : f.Fits) (host : Host) : f.shift host + w ≤ 32 := by
  unfold Fits at fits
  cases host <;> simp only [shift] <;> omega

theorem getLsbD_extract (u : BitVec 32) (i : Nat) :
    (f.extract host u).getLsbD i = (decide (i < w) && u.getLsbD (f.shift host + i)) := by
  simp [extract]

theorem getLsbD_insert (fits : f.Fits) (u : BitVec 32) (v : BitVec w) {i : Nat}
    (inside : i < 32) :
    (f.insert host u v).getLsbD i =
      if f.shift host ≤ i ∧ i < f.shift host + w then v.getLsbD (i - f.shift host)
      else u.getLsbD i := by
  have small := fits.shift_add_le host
  simp only [insert, BitVec.getLsbD_or, BitVec.getLsbD_and, BitVec.getLsbD_not,
    BitVec.getLsbD_shiftLeft, BitVec.getLsbD_setWidth, BitVec.getLsbD_allOnes, inside]
  by_cases below : i < f.shift host
  · simp [below, Nat.not_le_of_lt below]
  · have last : i - f.shift host < 32 := by omega
    by_cases within : i < f.shift host + w
    · have bit : i - f.shift host < w := by omega
      simp [below, within, last, bit, Nat.le_of_not_lt below]
    · have beyond : ¬ i - f.shift host < w := by omega
      have none : v.getLsbD (i - f.shift host) = false := BitVec.getLsbD_of_ge _ _ (by omega)
      simp [below, within, beyond, none]

@[simp] theorem extract_insert (fits : f.Fits) (u : BitVec 32) (v : BitVec w) :
    f.extract host (f.insert host u v) = v := by
  have small := fits.shift_add_le host
  apply BitVec.eq_of_getLsbD_eq
  intro i inside
  rw [getLsbD_extract, getLsbD_insert fits u v (by omega), if_pos ⟨by omega, by omega⟩]
  simp [inside]

theorem extract_insert_of_disjoint (fitsF : f.Fits) (fitsG : g.Fits)
    (disjoint : f.start + w ≤ g.start ∨ g.start + w' ≤ f.start) (u : BitVec 32)
    (v : BitVec w) : g.extract host (f.insert host u v) = g.extract host u := by
  have away : f.shift host + w ≤ g.shift host ∨ g.shift host + w' ≤ f.shift host := by
    unfold Fits at fitsF fitsG
    cases host <;> simp only [shift] <;> omega
  have small := fitsG.shift_add_le host
  apply BitVec.eq_of_getLsbD_eq
  intro i inside
  rw [getLsbD_extract, getLsbD_extract, getLsbD_insert fitsF u v (by omega), if_neg (by omega)]

/-- Two fields that fill a unit determine it. -/
theorem eq_of_extracts (fill : w + w' = 32) (first : f.start = 0) (second : g.start = w)
    {u u' : BitVec 32} (sameF : f.extract host u = f.extract host u')
    (sameG : g.extract host u = g.extract host u') : u = u' := by
  apply BitVec.eq_of_getLsbD_eq
  intro i inside
  have bitF := congrArg (fun v => v.getLsbD (i - f.shift host)) sameF
  have bitG := congrArg (fun v => v.getLsbD (i - g.shift host)) sameG
  simp only [getLsbD_extract] at bitF bitG
  by_cases inF : f.shift host ≤ i ∧ i < f.shift host + w
  · simpa [Nat.add_sub_cancel' inF.1, show i - f.shift host < w by omega] using bitF
  · have inG : g.shift host ≤ i ∧ i < g.shift host + w' := by
      cases host <;> simp only [shift, first, second] at inF ⊢ <;> omega
    simpa [Nat.add_sub_cancel' inG.1, show i - g.shift host < w' by omega] using bitG

/-- A field that fills its unit is the unit. -/
theorem extract_of_fill {f : BitField 32} (start : f.start = 0) (u : BitVec 32) :
    f.extract host u = u := by
  apply BitVec.eq_of_getLsbD_eq
  intro i inside
  rw [getLsbD_extract]
  cases host <;> simp [shift, start, inside]

/-! ## Fields of a buffer -/

def get (host : Host) (bytes : List Byte) (f : BitField w) : BitVec w :=
  f.extract host (host.load bytes f.unit)

def set (host : Host) (bytes : List Byte) (f : BitField w) (v : BitVec w) : List Byte :=
  host.store bytes f.unit (f.insert host (host.load bytes f.unit) v)

/-- The fields lie in units apart, or in one unit without a bit in common. -/
def Apart (f : BitField w) (g : BitField w') : Prop :=
  (g.unit + 4 ≤ f.unit ∨ f.unit + 4 ≤ g.unit) ∨
    (f.unit = g.unit ∧ (f.start + w ≤ g.start ∨ g.start + w' ≤ f.start))

instance (f : BitField w) (g : BitField w') : Decidable (Apart f g) :=
  inferInstanceAs (Decidable (_ ∨ _))

variable {bytes : List Byte} {v : BitVec w} {n : Nat}

@[simp] theorem length_set : (set host bytes f v).length = bytes.length := Host.length_store

theorem drop_set (inside : f.unit + 4 ≤ n) : (set host bytes f v).drop n = bytes.drop n :=
  Host.drop_store inside

theorem get_set (fits : f.Fits) (inside : f.unit + 4 ≤ bytes.length) :
    get host (set host bytes f v) f = v := by
  rw [get, set, Host.load_store inside, extract_insert fits]

theorem get_set_of_apart (fitsF : f.Fits) (fitsG : g.Fits) (apart : Apart f g)
    (inside : f.unit + 4 ≤ bytes.length) :
    get host (set host bytes f v) g = get host bytes g := by
  rcases apart with units | ⟨same, bits⟩
  · rw [get, set, Host.load_store_of_apart inside units, get]
  · rw [get, get, set, ← same, Host.load_store inside,
      extract_insert_of_disjoint fitsF fitsG bits]

/-- A field that fills its unit determines it. -/
theorem load_eq_of_get {f : BitField 32} {bytes' : List Byte} (start : f.start = 0)
    (same : get host bytes f = get host bytes' f) :
    host.load bytes f.unit = host.load bytes' f.unit := by
  rwa [get, get, extract_of_fill start, extract_of_fill start] at same

/-- So do two that fill it together. -/
theorem load_eq_of_gets {bytes' : List Byte} (fill : w + w' = 32) (unit : g.unit = f.unit)
    (first : f.start = 0) (second : g.start = w)
    (sameF : get host bytes f = get host bytes' f)
    (sameG : get host bytes g = get host bytes' g) :
    host.load bytes f.unit = host.load bytes' f.unit := by
  rw [get, get, unit] at sameG
  exact eq_of_extracts fill first second sameF sameG

theorem get_take (inside : f.unit + 4 ≤ n) : get host (bytes.take n) f = get host bytes f := by
  rw [get, Host.load_take inside, get]

end BitField

end OpenRtp
