import Mathlib

/-! # Affine generators

A map `x ↦ a * x + c` of a commutative ring in which a power of two is zero runs through
a cycle of that power of two, if `a` is one above a multiple of four and `c` is odd.
-/

namespace Xv6.Affine

open Function

/-- A cycle as long as the type is large visits every value once. -/
theorem existsUnique_iterate {Value : Type} [Finite Value] {step : Value → Value} {x : Value}
    (period : minimalPeriod step x = Nat.card Value) (value : Value) :
    ∃! n, n < Nat.card Value ∧ step^[n] x = value := by
  have injective : Injective fun n : Fin (Nat.card Value) => step^[n] x := by
    intro i j same
    exact Fin.ext (iterate_injOn_Iio_minimalPeriod (i.isLt.trans_eq period.symm)
      (j.isLt.trans_eq period.symm) same)
  have sizes : Nat.card Value ≤ Nat.card (Fin (Nat.card Value)) := by rw [Nat.card_fin]
  rcases (injective.bijective_of_nat_card_le sizes).2 value with ⟨n, reaches⟩
  refine ⟨n, ⟨n.isLt, reaches⟩, fun other also => ?_⟩
  exact congrArg Fin.val (@injective ⟨other, also.1⟩ n (also.2.trans reaches.symm))

variable {Ring : Type} [CommRing Ring] {step : Ring → Ring} {t s : Ring}

/-- Twice as many steps double the distance of the multiplier from one. -/
theorem iterate_two_pow (affine : ∀ x, step x = (1 + 4 * t) * x + (1 + 2 * s)) (k : Nat) :
    ∃ t' s', ∀ x, step^[2 ^ k] x = (1 + 2 ^ (k + 2) * t') * x + 2 ^ k * (1 + 2 * s') := by
  induction k with
  | zero =>
    refine ⟨t, s, fun x => ?_⟩
    rw [pow_zero, iterate_one, affine]
    ring
  | succ k induction =>
    rcases induction with ⟨t', s', twice⟩
    refine ⟨t' + 2 ^ (k + 1) * t' * t', s' + 2 ^ k * t' * (1 + 2 * s'), fun x => ?_⟩
    rw [pow_succ, mul_two, iterate_add_apply, twice, twice]
    ring

theorem minimalPeriod_eq (affine : ∀ x, step x = (1 + 4 * t) * x + (1 + 2 * s)) {k : Nat}
    (wraps : (2 : Ring) ^ (k + 1) = 0) (last : (2 : Ring) ^ k ≠ 0) (x : Ring) :
    minimalPeriod step x = 2 ^ (k + 1) := by
  have : Fact (Nat.Prime 2) := ⟨Nat.prime_two⟩
  apply minimalPeriod_eq_prime_pow
  · intro periodic
    rcases iterate_two_pow affine k with ⟨t', s', half⟩
    have returns : (1 + 2 ^ (k + 2) * t') * x + 2 ^ k * (1 + 2 * s') = x :=
      (half x).symm.trans periodic
    exact last (by linear_combination returns - (2 * t' * x + s') * wraps)
  · rcases iterate_two_pow affine (k + 1) with ⟨t', s', whole⟩
    change step^[2 ^ (k + 1)] x = x
    rw [whole]
    linear_combination (4 * t' * x + 1 + 2 * s') * wraps

end Xv6.Affine
