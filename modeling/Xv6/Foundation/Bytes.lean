import Mathlib

/-! # Fixed-size byte blocks

Memory pages, disk blocks and the records stored in them are all arrays of
bytes. This file gives the three views the rest of the development needs of
such an array: unsigned little-endian integers, runs of bytes, and single bits.
Each view comes with the laws that reading what was written gives it back and
that reading elsewhere is undisturbed.
-/

namespace Xv6

/-- An array of exactly `size` bytes. -/
abbrev Bytes (size : Nat) := Fin size → UInt8

namespace Bytes

/-- The byte at an offset. Offsets past the end read as zero, so that the
integer and slice views below are total. -/
def byteAt (bytes : Bytes size) (offset : Nat) : UInt8 :=
  if inside : offset < size then bytes ⟨offset, inside⟩ else 0

theorem byteAt_of_size_le (bytes : Bytes size) (offset : Nat)
    (outside : size ≤ offset) : bytes.byteAt offset = 0 := by
  simp [byteAt, Nat.not_lt.mpr outside]

def zero (size : Nat) : Bytes size := fun _ => 0

@[simp] theorem byteAt_zero (size offset : Nat) : (zero size).byteAt offset = 0 := by
  simp [byteAt, zero]

/-! ## Little-endian integers -/

/-- The unsigned integer stored in `width` bytes, least significant first. -/
def getLE : (width : Nat) → Bytes size → (offset : Nat) → Nat
  | 0, _, _ => 0
  | width + 1, bytes, offset =>
      (bytes.byteAt offset).toNat + 256 * getLE width bytes (offset + 1)

/-- Store the low `width` bytes of `value`, least significant first. -/
def putLE (width : Nat) (bytes : Bytes size) (offset value : Nat) : Bytes size :=
  fun index =>
    if offset ≤ index.val ∧ index.val < offset + width then
      UInt8.ofNat (value / 256 ^ (index.val - offset))
    else
      bytes index

theorem byteAt_putLE_of_inside (bytes : Bytes size) (width offset value position : Nat)
    (lower : offset ≤ position) (upper : position < offset + width)
    (fits : position < size) :
    (bytes.putLE width offset value).byteAt position =
      UInt8.ofNat (value / 256 ^ (position - offset)) := by
  simp [byteAt, putLE, lower, upper, fits]

theorem byteAt_putLE_of_outside (bytes : Bytes size) (width offset value position : Nat)
    (outside : position < offset ∨ offset + width ≤ position) :
    (bytes.putLE width offset value).byteAt position = bytes.byteAt position := by
  have notInside : ¬(offset ≤ position ∧ position < offset + width) := by omega
  simp [byteAt, putLE, notInside]

theorem getLE_congr : ∀ (width : Nat) {left : Bytes size} {right : Bytes otherSize}
    {leftOffset rightOffset : Nat},
    (∀ position, position < width →
      left.byteAt (leftOffset + position) = right.byteAt (rightOffset + position)) →
    left.getLE width leftOffset = right.getLE width rightOffset
  | 0, _, _, _, _, _ => rfl
  | width + 1, left, right, leftOffset, rightOffset, agree => by
      have first := agree 0 (Nat.succ_pos width)
      simp only [Nat.add_zero] at first
      have rest : left.getLE width (leftOffset + 1) = right.getLE width (rightOffset + 1) := by
        apply getLE_congr width
        intro position bound
        have next := agree (position + 1) (by omega)
        simpa only [Nat.add_assoc, Nat.add_comm 1] using next
      simp only [getLE, first, rest]

/-- Bytes that spell a number digit by digit are read back as that number. -/
theorem getLE_of_digits : ∀ (width : Nat) (bytes : Bytes size) (offset value : Nat),
    (∀ position, position < width →
      bytes.byteAt (offset + position) = UInt8.ofNat (value / 256 ^ position)) →
    bytes.getLE width offset = value % 256 ^ width
  | 0, _, _, _, _ => by simp [getLE, Nat.mod_one]
  | width + 1, bytes, offset, value, digits => by
      have first := digits 0 (Nat.succ_pos width)
      simp only [Nat.add_zero, Nat.pow_zero, Nat.div_one] at first
      have rest : bytes.getLE width (offset + 1) = value / 256 % 256 ^ width := by
        apply getLE_of_digits width
        intro position bound
        have next := digits (position + 1) (by omega)
        rw [Nat.add_assoc, Nat.add_comm 1, next, Nat.pow_succ', Nat.div_div_eq_div_mul]
      rw [getLE, first, rest, Nat.pow_succ', Nat.mod_mul]
      simp

theorem getLE_putLE_same (bytes : Bytes size) (width offset value : Nat)
    (fits : offset + width ≤ size) :
    (bytes.putLE width offset value).getLE width offset = value % 256 ^ width := by
  apply getLE_of_digits
  intro position bound
  rw [byteAt_putLE_of_inside _ _ _ _ _ (by omega) (by omega) (by omega)]
  simp

theorem getLE_putLE_of_disjoint (bytes : Bytes size)
    (width offset value otherWidth otherOffset : Nat)
    (disjoint : otherOffset + otherWidth ≤ offset ∨ offset + width ≤ otherOffset) :
    (bytes.putLE width offset value).getLE otherWidth otherOffset =
      bytes.getLE otherWidth otherOffset := by
  apply getLE_congr
  intro position bound
  exact byteAt_putLE_of_outside _ _ _ _ _ (by omega)

@[simp] theorem getLE_zero : ∀ (width size offset : Nat), (zero size).getLE width offset = 0
  | 0, _, _ => rfl
  | width + 1, size, offset => by simp [getLE, getLE_zero width]

/-- Store `count` values of four bytes each, one after another. -/
def putWords (bytes : Bytes size) (offset : Nat) (values : Nat → Nat) (count : Nat) :
    Bytes size :=
  (List.range count).foldl
    (fun bytes index => bytes.putLE 4 (offset + 4 * index) (values index)) bytes

section

variable (bytes : Bytes size) (offset : Nat) (values : Nat → Nat)
include bytes offset values

theorem putWords_succ (count : Nat) :
    bytes.putWords offset values (count + 1) =
      (bytes.putWords offset values count).putLE 4 (offset + 4 * count) (values count) := by
  simp [putWords, List.range_succ]

theorem getLE_putWords_of_outside (width position : Nat) : ∀ count,
    position + width ≤ offset ∨ offset + 4 * count ≤ position →
      (bytes.putWords offset values count).getLE width position = bytes.getLE width position
  | 0, _ => rfl
  | count + 1, outside => by
      rw [putWords_succ, getLE_putLE_of_disjoint _ _ _ _ _ _ (by omega)]
      exact getLE_putWords_of_outside width position count (by omega)

theorem getLE_putWords_of_inside :
    ∀ count, offset + 4 * count ≤ size → ∀ index, index < count →
      (bytes.putWords offset values count).getLE 4 (offset + 4 * index) =
        values index % 256 ^ 4
  | 0, _, _, bound => absurd bound (Nat.not_lt_zero _)
  | count + 1, fits, index, bound => by
      rw [putWords_succ]
      rcases Nat.lt_succ_iff_lt_or_eq.mp bound with earlier | last
      · rw [getLE_putLE_of_disjoint _ _ _ _ _ _ (by omega)]
        exact getLE_putWords_of_inside count (by omega) index earlier
      · subst last
        exact getLE_putLE_same _ _ _ _ (by omega)

end

/-! ## Runs of bytes -/

/-- The `length` bytes from `offset` on. -/
def slice (bytes : Bytes size) (offset length : Nat) : List UInt8 :=
  (List.range length).map fun position => bytes.byteAt (offset + position)

/-- Overwrite the bytes from `offset` on with a run of bytes. -/
def splice (bytes : Bytes size) (offset : Nat) (run : List UInt8) : Bytes size :=
  fun index =>
    if offset ≤ index.val then
      run.getD (index.val - offset) (bytes index)
    else
      bytes index

theorem byteAt_splice_of_inside (bytes : Bytes size) (offset : Nat) (run : List UInt8)
    (position : Nat) (lower : offset ≤ position) (upper : position < offset + run.length)
    (fits : position < size) :
    (bytes.splice offset run).byteAt position = run.getD (position - offset) 0 := by
  have within : position - offset < run.length := by omega
  simp [byteAt, splice, lower, fits, List.getD_eq_getElem?_getD, within]

theorem byteAt_splice_of_outside (bytes : Bytes size) (offset : Nat) (run : List UInt8)
    (position : Nat) (outside : position < offset ∨ offset + run.length ≤ position) :
    (bytes.splice offset run).byteAt position = bytes.byteAt position := by
  by_cases lower : offset ≤ position
  · have past : run.length ≤ position - offset := by omega
    simp [byteAt, splice, lower, List.getD_eq_getElem?_getD, past]
  · simp [byteAt, splice, lower]

/-! ## Single bits -/

/-- Bit `index`, counted from the least significant bit of byte zero. -/
def bit (bytes : Bytes size) (index : Nat) : Bool :=
  (bytes.byteAt (index / 8)).toBitVec.getLsbD (index % 8)

/-- The byte in which only bit `position` is set. -/
def mask (position : Nat) : UInt8 := UInt8.ofBitVec (1#8 <<< position)

def setBit (bytes : Bytes size) (index : Nat) : Bytes size :=
  bytes.splice (index / 8) [bytes.byteAt (index / 8) ||| mask (index % 8)]

def clearBit (bytes : Bytes size) (index : Nat) : Bytes size :=
  bytes.splice (index / 8) [bytes.byteAt (index / 8) &&& ~~~mask (index % 8)]

theorem getLsbD_mask (position other : Nat) (bound : other < 8) :
    (mask position).toBitVec.getLsbD other = decide (other = position) := by
  simp only [mask, BitVec.getLsbD_shiftLeft, BitVec.getLsbD_one]
  by_cases equal : other = position
  · subst equal
    simp [bound]
  · by_cases below : other < position
    · simp [below, equal]
    · have positive : other - position ≠ 0 := by omega
      simp [positive, equal]

private theorem bit_splice_single (bytes : Bytes size) (index other : Nat) (value : UInt8)
    (fits : index / 8 < size) :
    (bytes.splice (index / 8) [value]).bit other =
      if other / 8 = index / 8 then value.toBitVec.getLsbD (other % 8) else bytes.bit other := by
  unfold bit
  by_cases same : other / 8 = index / 8
  · rw [same, byteAt_splice_of_inside _ _ _ _ (Nat.le_refl _) (by simp) fits]
    simp
  · rw [byteAt_splice_of_outside _ _ _ _ (by simp only [List.length_singleton]; omega)]
    simp [same]

theorem bit_setBit (bytes : Bytes size) (index other : Nat) (fits : index / 8 < size) :
    (bytes.setBit index).bit other = (decide (other = index) || bytes.bit other) := by
  rw [setBit, bit_splice_single _ _ _ _ fits]
  by_cases same : other / 8 = index / 8
  · have bound : other % 8 < 8 := Nat.mod_lt _ (by omega)
    have equalIff : other % 8 = index % 8 ↔ other = index := by omega
    simp [same, bit, getLsbD_mask _ _ bound, equalIff, Bool.or_comm]
  · have different : other ≠ index := fun equal => same (equal ▸ rfl)
    simp [same, different]

theorem bit_clearBit (bytes : Bytes size) (index other : Nat) (fits : index / 8 < size) :
    (bytes.clearBit index).bit other = (!decide (other = index) && bytes.bit other) := by
  rw [clearBit, bit_splice_single _ _ _ _ fits]
  by_cases same : other / 8 = index / 8
  · have bound : other % 8 < 8 := Nat.mod_lt _ (by omega)
    have equalIff : other % 8 = index % 8 ↔ other = index := by omega
    simp only [same, if_true, bit, UInt8.toBitVec_and, UInt8.toBitVec_not, BitVec.getLsbD_and,
      BitVec.getLsbD_not, getLsbD_mask _ _ bound, equalIff, bound, decide_true, Bool.true_and]
    exact Bool.and_comm _ _
  · have different : other ≠ index := fun equal => same (equal ▸ rfl)
    simp [same, different]

end Bytes

end Xv6
