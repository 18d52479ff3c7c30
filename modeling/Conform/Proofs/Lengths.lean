import Conform.Number.Basic

/-!
# Lengths — natural numbers as binary64 numbers and back

Lengths are written as numbers, which are exact up to 2 ^ 53 and on a coarser grid from there on.
A length that is read from a number is read again from the number that it is written as
(`toLength_ofNat_toLength`), and whatever is read again is written as an integer
(`ofNat_isIntegral`).
-/

namespace Conform

namespace Magnitude

/-- A magnitude on the grid is nearest to itself. -/
theorem nearest_of_spacing_dvd {units : Nat} (h : spacing units ∣ units) :
    nearest units 1 = units := by
  have hpos := spacing_pos units
  have hmod : units % spacing units = 0 := Nat.mod_eq_zero_of_dvd h
  unfold nearest
  simp only [Nat.div_one, Nat.one_mul, hmod]
  rw [if_neg (by omega), Nat.div_mul_cancel h]

/-- Multiples of a power of two stay multiples of it when they are rounded. -/
theorem dvd_nearest {units k : Nat} (h : Nat.pow 2 k ∣ units) :
    Nat.pow 2 k ∣ nearest units 1 := by
  by_cases hgap : units.log2 - 52 ≤ k
  · -- The grid is finer than the multiples are, so nothing is rounded.
    have hspacing : spacing units ∣ units := Nat.dvd_trans (Nat.pow_dvd_pow 2 hgap) h
    rw [nearest_of_spacing_dvd hspacing]
    exact h
  · have hspacing : Nat.pow 2 k ∣ spacing units := Nat.pow_dvd_pow 2 (by omega)
    unfold nearest
    simp only [Nat.div_one]
    exact Nat.dvd_mul_left_of_dvd hspacing _

end Magnitude

namespace Number

theorem one_pos : 0 < one := by
  unfold one
  -- The power is kept from being evaluated.
  generalize 1074 = k
  exact Nat.two_pow_pos k

theorem one_dvd_nearest (n : Nat) : one ∣ Magnitude.nearest (n * one) 1 := by
  unfold one
  generalize 1074 = k
  exact Magnitude.dvd_nearest (Nat.dvd_mul_left _ n)

theorem maxLength_ofNat : (ofNat maxLength).isFinite = true ∧
    (ofNat maxLength).toLength = maxLength := by
  decide +kernel

/-- A number that is written for a natural number is no less than zero. -/
theorem ofNat_not_lt_zero (n : Nat) : (ofNat n).lt .zero = false := by
  unfold ofNat ofUnits
  split
  · simp [lt, zero, signedZero, signedUnits]
  · rfl

theorem ofNat_isFinite {n : Nat} (h : (ofNat n).toLength = n) : (ofNat n).isFinite = true := by
  by_cases hlimit : Magnitude.nearest (n * one) 1 < Magnitude.limit
  · unfold ofNat ofUnits
    rw [dif_pos hlimit]
    rfl
  · have hinfinite : ofNat n = .infinite false := by
      unfold ofNat ofUnits
      rw [dif_neg hlimit]
    -- An infinity is read as the greatest length, which is finite.
    rw [hinfinite] at h
    change maxLength = n at h
    rw [← h]
    exact maxLength_ofNat.1

/-- A whole number has no fractional part, however it is rounded. -/
theorem ofNat_isIntegral {n : Nat} (h : (ofNat n).isFinite = true) :
    (ofNat n).isIntegral = true := by
  by_cases hlimit : Magnitude.nearest (n * one) 1 < Magnitude.limit
  · unfold ofNat ofUnits
    rw [dif_pos hlimit]
    exact beq_iff_eq.mpr (Nat.mod_eq_zero_of_dvd (one_dvd_nearest n))
  · unfold ofNat ofUnits at h
    rw [dif_neg hlimit] at h
    cases h

/-- The integer part of a natural number is written as that number. -/
theorem toLength_ofNat_of_units {m : Magnitude} {k : Nat} (h : m.units = k * one) :
    (ofNat k).toLength = min k maxLength := by
  have hnearest : Magnitude.nearest (k * one) 1 = k * one := by
    rw [← h]
    exact Magnitude.nearest_of_spacing_dvd m.representable.1
  have hlimit : Magnitude.nearest (k * one) 1 < Magnitude.limit := by
    rw [hnearest, ← h]
    exact m.representable.2
  unfold ofNat ofUnits
  rw [dif_pos hlimit]
  show min (Magnitude.nearest (k * one) 1 / one) maxLength = _
  rw [hnearest, Nat.mul_div_cancel k one_pos]

/-- A length that was read is read again from what it is written as. -/
theorem toLength_ofNat_toLength {n : Number} (hintegral : n.isIntegral = true) :
    (ofNat n.toLength).toLength = n.toLength := by
  cases n with
  | nan | infinite => cases hintegral
  | finite negative m =>
    cases negative with
    | true =>
      have hzero := toLength_ofNat_of_units (m := ⟨0, Magnitude.representable_zero⟩)
        (Nat.zero_mul one).symm
      rw [Nat.zero_min] at hzero
      exact hzero
    | false =>
      have hmod : m.units % one = 0 := beq_iff_eq.mp hintegral
      have hunits : m.units = m.units / one * one :=
        (Nat.div_mul_cancel (Nat.dvd_of_mod_eq_zero hmod)).symm
      show (ofNat (min (m.units / one) maxLength)).toLength = min (m.units / one) maxLength
      by_cases hmax : m.units / one ≤ maxLength
      · rw [Nat.min_eq_left hmax, toLength_ofNat_of_units hunits, Nat.min_eq_left hmax]
      · rw [Nat.min_eq_right (by omega), maxLength_ofNat.2]

end Number

end Conform
