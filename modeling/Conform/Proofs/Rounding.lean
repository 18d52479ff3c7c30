import Mathlib.Data.Nat.Dist
import Conform.Proofs.Lengths

/-!
# Rounding — the magnitude nearest to a quotient

A quotient lies between two neighbours on the grid, `q` and `q + 1` gaps (`Bracket`), and rounding
takes one of the two by what is left over (`Bracket.nearest_eq`).  So it takes the nearest grid
point, and of two that are equally near the even one (`nearest_isNearest`); it reaches the limit
just where the quotient reaches the middle between the greatest finite magnitude and the limit
(`nearest_lt_pow_iff`); it depends on the quotient only (`nearest_mul_mul`), and it commutes with
powers of two where no digit is lost below the grid (`nearest_mul_pow`).
-/

namespace Conform.Magnitude

/-! ## 1. The neighbours of a quotient -/

variable {num den units k q r : Nat}

/-- Between two powers of two the grid has one gap; the finest grid begins at zero. -/
theorem spacing_eq_pow (lower : k ≠ 0 → 2 ^ (52 + k) ≤ units) (upper : units < 2 ^ (53 + k)) :
    spacing units = 2 ^ k := by
  change 2 ^ (units.log2 - 52) = 2 ^ k
  congr 1
  by_cases hzero : units = 0
  · have hk : k = 0 := by
      by_contra hk
      have := lower hk
      have := Nat.two_pow_pos (52 + k)
      omega
    rw [hzero, hk]
    rfl
  · have hlog : units.log2 < 53 + k := (Nat.log2_lt hzero).mpr upper
    by_cases hk : k = 0
    · omega
    · have := (Nat.le_log2 hzero).mpr (lower hk)
      omega

/-- `q` gaps of `2 ^ k` units, and `r / den` units, less than a gap, where the grid has that gap. -/
structure Bracket (num den k q r : Nat) : Prop where
  split : num = q * (den * 2 ^ k) + r
  rest : r < den * 2 ^ k
  lower : k ≠ 0 → 2 ^ 52 ≤ q
  upper : q < 2 ^ 53

/-- One of `q` and `q + 1`: what is nearer to `q + r / size`, and the even one of the two in the
middle between them. -/
def halfEven (size q r : Nat) : Nat :=
  if size < 2 * r ∨ (size = 2 * r ∧ q % 2 = 1) then q + 1 else q

theorem halfEven_cases (size q r : Nat) :
    (halfEven size q r = q ∧ (2 * r < size ∨ 2 * r = size ∧ q % 2 = 0)) ∨
      (halfEven size q r = q + 1 ∧ (size < 2 * r ∨ 2 * r = size ∧ q % 2 = 1)) := by
  unfold halfEven
  split <;> omega

namespace Bracket

theorem div_eq (h : Bracket num den k q r) : num / (den * 2 ^ k) = q := by
  have hrest := h.rest
  rw [h.split, Nat.mul_comm q, Nat.mul_add_div (by omega), Nat.div_eq_of_lt hrest, Nat.add_zero]

theorem mod_eq (h : Bracket num den k q r) : num % (den * 2 ^ k) = r := by
  rw [h.split, Nat.mul_comm q, Nat.mul_add_mod, Nat.mod_eq_of_lt h.rest]

/-- The whole units of the quotient lie where the grid has the gap of the bracket. -/
theorem spacing_eq (h : Bracket num den k q r) : spacing (num / den) = 2 ^ k := by
  have hdiv : num / den / 2 ^ k = q := by
    rw [Nat.div_div_eq_div_mul]
    exact h.div_eq
  have hgap := Nat.two_pow_pos k
  apply spacing_eq_pow
  · intro hk
    rw [Nat.pow_add, ← Nat.le_div_iff_mul_le hgap, hdiv]
    exact h.lower hk
  · rw [Nat.pow_add, ← Nat.div_lt_iff_lt_mul hgap, hdiv]
    exact h.upper

/-- Rounding takes one of the two neighbours. -/
theorem nearest_eq (h : Bracket num den k q r) :
    nearest num den = halfEven (den * 2 ^ k) q r * 2 ^ k := by
  unfold nearest halfEven
  simp only [h.spacing_eq, h.div_eq, h.mod_eq]

end Bracket

/-- Every quotient has its neighbours. -/
theorem exists_bracket (num : Nat) (hden : 0 < den) : ∃ k q r, Bracket num den k q r := by
  let k := (num / den).log2 - 52
  have hsize : 0 < den * 2 ^ k := Nat.mul_pos hden (Nat.two_pow_pos k)
  refine ⟨k, num / (den * 2 ^ k), num % (den * 2 ^ k), ?_, Nat.mod_lt _ hsize, ?_, ?_⟩
  · rw [Nat.mul_comm]
    exact (Nat.div_add_mod _ _).symm
  · intro hk
    have hne : num / den ≠ 0 := by
      intro h
      rw [show k = (num / den).log2 - 52 from rfl, h] at hk
      exact hk rfl
    rw [← Nat.div_div_eq_div_mul, Nat.le_div_iff_mul_le (Nat.two_pow_pos k), ← Nat.pow_add]
    exact Nat.le_trans (Nat.pow_le_pow_right (by decide) (by omega)) (Nat.log2_self_le hne)
  · rw [← Nat.div_div_eq_div_mul, Nat.div_lt_iff_lt_mul (Nat.two_pow_pos k), ← Nat.pow_add]
    exact Nat.lt_of_lt_of_le Nat.lt_log2_self (Nat.pow_le_pow_right (by decide) (by omega))

/-! ## 2. Nearest, and even where two are equally near -/

/-- A count of units on the grid to which no other is nearer, and even where another one is as
near. -/
structure IsNearest (num den units : Nat) : Prop where
  onGrid : spacing units ∣ units
  closest : ∀ other, spacing other ∣ other →
    Nat.dist (units * den) num ≤ Nat.dist (other * den) num
  even : ∀ other, spacing other ∣ other → other ≠ units →
    Nat.dist (other * den) num = Nat.dist (units * den) num → units / spacing units % 2 = 0

/-- Between the neighbours of a quotient lies no grid point. -/
theorem Bracket.grid (h : Bracket num den k q r) {other : Nat} (grid : spacing other ∣ other) :
    other ≤ q * 2 ^ k ∨ (q + 1) * 2 ^ k ≤ other := by
  by_cases hle : other ≤ q * 2 ^ k
  · exact .inl hle
  · refine .inr ?_
    have hgap := Nat.two_pow_pos k
    -- From `q` gaps on the grid is no finer than these gaps are.
    have hdvd : 2 ^ k ∣ other := by
      apply Nat.dvd_trans _ grid
      by_cases hk : k = 0
      · rw [hk]
        exact Nat.one_dvd _
      · have hlower : 2 ^ (52 + k) ≤ other := by
          rw [Nat.pow_add]
          exact Nat.le_trans (Nat.mul_le_mul_right _ (h.lower hk)) (by omega)
        have hne : other ≠ 0 := by
          have := Nat.two_pow_pos (52 + k)
          omega
        have := (Nat.le_log2 hne).mpr hlower
        exact Nat.pow_dvd_pow 2 (by omega)
    obtain ⟨c, rfl⟩ := hdvd
    rw [Nat.mul_comm (2 ^ k)] at hle ⊢
    exact Nat.mul_le_mul_right _ (Nat.lt_of_mul_lt_mul_right (Nat.lt_of_not_le hle))

/-- A neighbour that is even in its bracket is even on the grid. -/
theorem Bracket.even (h : Bracket num den k q r) {c : Nat} (hc : c = q ∨ c = q + 1)
    (heven : c % 2 = 0) : c * 2 ^ k / spacing (c * 2 ^ k) % 2 = 0 := by
  have hgap := Nat.two_pow_pos k
  have hupper := h.upper
  by_cases hlt : c < 2 ^ 53
  · have hspacing : spacing (c * 2 ^ k) = 2 ^ k := by
      apply spacing_eq_pow
      · intro hk
        have := h.lower hk
        rw [Nat.pow_add]
        exact Nat.mul_le_mul_right _ (by omega)
      · rw [Nat.pow_add]
        exact Nat.mul_lt_mul_of_pos_right hlt hgap
    rw [hspacing, Nat.mul_div_cancel _ hgap, heven]
  · -- The upper neighbour is the power of two at which the gap doubles.
    have hpow : c * 2 ^ k = 2 ^ 52 * 2 ^ (k + 1) := by
      rw [show c = 2 ^ 52 * 2 by omega, Nat.pow_succ' (n := k), Nat.mul_assoc]
    have hspacing : spacing (c * 2 ^ k) = 2 ^ (k + 1) := by
      rw [hpow, ← Nat.pow_add]
      exact spacing_eq_pow (fun _ => Nat.le_refl _) (Nat.pow_lt_pow_right (by decide) (by omega))
    rw [hspacing, hpow, Nat.mul_div_cancel _ (Nat.two_pow_pos _)]
    rfl

/-- Rounding gives the nearest point of the grid, the even one at a tie. -/
theorem nearest_isNearest (num : Nat) (hden : 0 < den) : IsNearest num den (nearest num den) := by
  obtain ⟨k, q, r, h⟩ := exists_bracket num hden
  have hsplit : num = q * 2 ^ k * den + r := by
    rw [h.split, Nat.mul_comm den, Nat.mul_assoc]
  have hupper : (q + 1) * 2 ^ k * den = q * 2 ^ k * den + den * 2 ^ k := by
    rw [Nat.add_mul, Nat.add_mul, Nat.one_mul, Nat.mul_comm (2 ^ k) den]
  have hrest := h.rest
  -- What lies on the grid is at most the lower neighbour, or at least the upper one.
  have hgrid (other : Nat) (hother : spacing other ∣ other) :
      other * den ≤ q * 2 ^ k * den ∨ (q + 1) * 2 ^ k * den ≤ other * den :=
    (h.grid hother).imp (Nat.mul_le_mul_right den) (Nat.mul_le_mul_right den)
  refine ⟨spacing_nearest_dvd num den, fun other hother => ?_, fun other hother hne hdist => ?_⟩
  · rw [h.nearest_eq]
    unfold Nat.dist
    have hside := hgrid other hother
    rcases halfEven_cases (den * 2 ^ k) q r with ⟨heq, hcase⟩ | ⟨heq, hcase⟩ <;> rw [heq] <;> omega
  · rw [h.nearest_eq] at hne hdist ⊢
    have hstrict (c : Nat) (hc : other ≠ c * 2 ^ k) : other * den ≠ c * 2 ^ k * den :=
      fun heq => hc (Nat.eq_of_mul_eq_mul_right hden heq)
    have hside := hgrid other hother
    unfold Nat.dist at hdist
    rcases halfEven_cases (den * 2 ^ k) q r with ⟨heq, hcase⟩ | ⟨heq, hcase⟩ <;>
      rw [heq] at hne hdist ⊢ <;> have hother := hstrict _ hne
    · exact h.even (.inl rfl) (by omega)
    · exact h.even (.inr rfl) (by omega)

/-! ## 3. The limit -/

/-- Rounding stays below a power of two just where the quotient stays below the middle between that
power and the last grid point before it. -/
theorem nearest_lt_pow_iff (num : Nat) (hden : 0 < den) (g : Nat) :
    nearest num den < 2 ^ (54 + g) ↔ num < (2 ^ 54 - 1) * (den * 2 ^ g) := by
  obtain ⟨k, q, r, h⟩ := exists_bracket num hden
  have hrest := h.rest
  have hupper := h.upper
  have hstep := halfEven_cases (den * 2 ^ k) q r
  rw [h.nearest_eq]
  -- The grid of the power has gaps of `2 ^ (g + 1)` below it.
  rcases Nat.lt_trichotomy k (g + 1) with hk | rfl | hk
  · -- The quotient lies where the grid is finer, and rounding goes to the power before at most.
    have hgap : 2 ^ k ≤ 2 ^ g := Nat.pow_le_pow_right (by decide) (by omega)
    have hsize : den * 2 ^ k ≤ den * 2 ^ g := Nat.mul_le_mul_left den hgap
    apply iff_of_true
    · calc halfEven (den * 2 ^ k) q r * 2 ^ k
          ≤ 2 ^ 53 * 2 ^ g := Nat.mul_le_mul (by omega) hgap
        _ < 2 ^ (54 + g) := by
          rw [← Nat.pow_add]
          exact Nat.pow_lt_pow_right (by decide) (by omega)
    · calc num = q * (den * 2 ^ k) + r := h.split
        _ < (q + 1) * (den * 2 ^ k) := by rw [Nat.succ_mul]; omega
        _ ≤ (2 ^ 54 - 1) * (den * 2 ^ g) := Nat.mul_le_mul (by omega) hsize
  · -- The last grid point is odd, so that from the middle on rounding goes to the power.
    have hsize : den * 2 ^ (g + 1) = 2 * (den * 2 ^ g) := by
      rw [Nat.pow_succ, ← Nat.mul_assoc, Nat.mul_comm]
    have hpow : 2 ^ (54 + g) = 2 ^ 53 * 2 ^ (g + 1) := by
      rw [← Nat.pow_add]
      congr 1
      omega
    rw [hpow, Nat.mul_lt_mul_right (Nat.two_pow_pos (g + 1)), h.split]
    rw [hsize] at hrest hstep ⊢
    by_cases hlast : q = 2 ^ 53 - 1
    · rw [hlast] at hstep ⊢
      omega
    · have hle : q * (2 * (den * 2 ^ g)) ≤ (2 ^ 53 - 2) * (2 * (den * 2 ^ g)) :=
        Nat.mul_le_mul_right _ (by omega)
      omega
  · have hgap : 2 ^ (g + 2) ≤ 2 ^ k := Nat.pow_le_pow_right (by decide) (by omega)
    have hlower : 2 ^ 52 ≤ q := h.lower (by omega)
    apply iff_of_false <;> rw [Nat.not_lt]
    · calc 2 ^ (54 + g) = 2 ^ 52 * 2 ^ (g + 2) := by
            rw [← Nat.pow_add]
            congr 1
            omega
        _ ≤ halfEven (den * 2 ^ k) q r * 2 ^ k := Nat.mul_le_mul (by omega) hgap
    · calc (2 ^ 54 - 1) * (den * 2 ^ g) ≤ 2 ^ 52 * (den * 2 ^ (g + 2)) := by
            rw [Nat.pow_add, ← Nat.mul_assoc den]
            omega
        _ ≤ q * (den * 2 ^ k) := Nat.mul_le_mul hlower (Nat.mul_le_mul_left den hgap)
        _ ≤ num := by rw [h.split]; omega

/-! ## 4. Scaling -/

/-- Rounding does not depend on the unit of measure. -/
theorem halfEven_mul {c : Nat} (hc : 0 < c) (size q r : Nat) :
    halfEven (c * size) q (c * r) = halfEven size q r := by
  unfold halfEven
  simp only [Nat.mul_left_comm 2 c, Nat.mul_lt_mul_left hc, Nat.mul_right_inj (Nat.ne_of_gt hc)]

/-- Rounding depends on the quotient only. -/
theorem nearest_mul_mul (num : Nat) (hden : 0 < den) {c : Nat} (hc : 0 < c) :
    nearest (c * num) (c * den) = nearest num den := by
  obtain ⟨k, q, r, h⟩ := exists_bracket num hden
  have hscaled : Bracket (c * num) (c * den) k q (c * r) := by
    refine ⟨?_, ?_, h.lower, h.upper⟩
    · rw [h.split, Nat.mul_add, Nat.mul_assoc c, Nat.mul_left_comm]
    · rw [Nat.mul_assoc]
      exact Nat.mul_lt_mul_of_pos_left h.rest hc
  rw [h.nearest_eq, hscaled.nearest_eq, Nat.mul_assoc, halfEven_mul hc]

/-- Digits that are written behind a number lie below its grid, once the grid has all its 53 digits
in the number. -/
theorem Bracket.append {n t m : Nat} (h : Bracket n 1 k q r) (full : 2 ^ 52 ≤ q) (ht : t < 2 ^ m) :
    Bracket (n * 2 ^ m + t) 1 (k + m) q (r * 2 ^ m + t) := by
  have hrest := h.rest
  rw [Nat.one_mul] at hrest
  refine ⟨?_, ?_, fun _ => full, h.upper⟩
  · rw [h.split, Nat.one_mul, Nat.one_mul, Nat.pow_add, Nat.add_mul, Nat.mul_assoc, Nat.add_assoc]
  · calc r * 2 ^ m + t < (r + 1) * 2 ^ m := by rw [Nat.succ_mul]; omega
      _ ≤ 2 ^ k * 2 ^ m := Nat.mul_le_mul_right _ hrest
      _ = 1 * 2 ^ (k + m) := by rw [Nat.one_mul, Nat.pow_add]

/-- Multiples of a power of two by 53 binary digits lie on the grid. -/
theorem spacing_dvd_of_lt {n : Nat} (hn : n < 2 ^ 53) (m : Nat) :
    spacing (n * 2 ^ m) ∣ n * 2 ^ m := by
  by_cases hzero : n * 2 ^ m = 0
  · rw [hzero]
    exact Nat.dvd_zero _
  · have hlog : (n * 2 ^ m).log2 < 53 + m := by
      rw [Nat.log2_lt hzero, Nat.pow_add]
      exact Nat.mul_lt_mul_of_pos_right hn (Nat.two_pow_pos m)
    exact Nat.dvd_trans (Nat.pow_dvd_pow 2 (by omega)) (Nat.dvd_mul_left (2 ^ m) n)

/-- A number of units is rounded in the same place whatever power of two it is multiplied by. -/
theorem nearest_mul_pow (n m : Nat) : nearest (n * 2 ^ m) 1 = nearest n 1 * 2 ^ m := by
  by_cases hsmall : n < 2 ^ 53
  · have hn := spacing_dvd_of_lt hsmall 0
    rw [Nat.pow_zero, Nat.mul_one] at hn
    rw [nearest_of_spacing_dvd (spacing_dvd_of_lt hsmall m), nearest_of_spacing_dvd hn]
  · obtain ⟨k, q, r, h⟩ := exists_bracket n Nat.one_pos
    have hk : k ≠ 0 := by
      rintro rfl
      have hrest := h.rest
      have hsplit := h.split
      have hupper := h.upper
      omega
    have hscaled := h.append (h.lower hk) (Nat.two_pow_pos m)
    rw [Nat.add_zero, Nat.add_zero] at hscaled
    rw [hscaled.nearest_eq, h.nearest_eq, Nat.one_mul, Nat.one_mul, Nat.pow_add,
      Nat.mul_comm (2 ^ k), Nat.mul_comm r, halfEven_mul (Nat.two_pow_pos m), Nat.mul_assoc,
      Nat.mul_comm (2 ^ m)]

/-- Two quotients that are equal are rounded alike. -/
theorem nearest_congr {num' den' : Nat} (hden : 0 < den) (hden' : 0 < den')
    (h : num * den' = num' * den) : nearest num den = nearest num' den' := by
  rw [← nearest_mul_mul num hden hden', ← nearest_mul_mul num' hden' hden, Nat.mul_comm den', h,
    Nat.mul_comm num', Nat.mul_comm den den']

/-- What is no more than half a unit is rounded to nothing. -/
theorem nearest_eq_zero (h : 2 * num ≤ den) (hden : 0 < den) : nearest num den = 0 := by
  have hbracket : Bracket num den 0 0 num := by
    refine ⟨?_, ?_, fun hk => absurd rfl hk, by decide⟩
    · rw [Nat.zero_mul, Nat.zero_add]
    · rw [Nat.pow_zero, Nat.mul_one]
      omega
  rw [hbracket.nearest_eq, Nat.pow_zero, Nat.mul_one, Nat.mul_one]
  unfold halfEven
  rw [if_neg (by omega)]

end Conform.Magnitude

/-! ## 5. Numbers -/

namespace Conform.Number

open Magnitude

/-- The first natural number past the finite ones: half way from the greatest of these to
2 ^ 1024. -/
def overflow : Nat := Nat.pow 2 1024 - Nat.pow 2 970

theorem overflow_eq : overflow = (2 ^ 54 - 1) * 2 ^ 970 := by
  decide +kernel

theorem overflow_mul_one : overflow * one = (2 ^ 54 - 1) * 2 ^ 2044 := by
  decide +kernel

theorem limit_eq : limit = 2 ^ (54 + 2044) := by
  decide +kernel

variable {negative : Bool} {num den num' den' n : Nat}

/-- A number is finite where its magnitude is less than the first natural number that is not. -/
theorem ofUnits_isFinite_iff (hden : 0 < den) :
    (ofUnits negative (n * one) den).isFinite = true ↔ n < overflow * den := by
  have hlt : nearest (n * one) den < limit ↔ n < overflow * den := by
    rw [limit_eq, nearest_lt_pow_iff _ hden, Nat.mul_left_comm, ← overflow_mul_one,
      ← Nat.mul_assoc, Nat.mul_comm den, Nat.mul_lt_mul_right one_pos]
  unfold ofUnits
  split
  · rename_i h
    exact iff_of_true rfl (hlt.mp h)
  · rename_i h
    exact iff_of_false Bool.false_ne_true fun hn => h (hlt.mpr hn)

/-- Equal quotients round to the same number. -/
theorem ofUnits_congr (hden : 0 < den) (hden' : 0 < den') (h : num * den' = num' * den) :
    ofUnits negative num den = ofUnits negative num' den' := by
  unfold ofUnits
  simp only [nearest_congr hden hden' h]

/-- A natural number is finite below the middle behind the greatest finite one. -/
theorem ofNat_isFinite_iff : (ofNat n).isFinite = true ↔ n < overflow := by
  unfold ofNat
  rw [ofUnits_isFinite_iff Nat.one_pos, Nat.mul_one]

/-- Naturals are rounded as their units are. -/
theorem nearest_mul_one (n : Nat) : nearest (n * one) 1 = nearest n 1 * one := by
  unfold one
  generalize 1074 = k
  exact nearest_mul_pow n k

/-! ## 6. Decimals -/

theorem pow_two_le_pow_ten (k : Nat) : 2 ^ (3 * k) ≤ 10 ^ k := by
  rw [Nat.pow_mul]
  exact Nat.pow_le_pow_left (by decide) k

theorem ofUnits_of_not_isFinite (h : ¬(ofUnits negative num den).isFinite = true) :
    ofUnits negative num den = .infinite negative := by
  unfold ofUnits at h ⊢
  split
  · rename_i hlimit
    rw [dif_pos hlimit] at h
    exact absurd rfl h
  · rfl

theorem ofUnits_of_nearest_eq_zero (h : nearest num den = 0) :
    ofUnits negative num den = signedZero negative := by
  unfold ofUnits signedZero
  simp only [h]
  exact dif_pos limit_pos

/-- Powers of ten past the four hundredth are no finite numbers. -/
theorem overflow_le_pow {k : Nat} (h : 400 < k) : overflow ≤ 10 ^ k :=
  calc overflow ≤ 2 ^ 1203 := by decide +kernel
    _ ≤ 2 ^ (3 * k) := Nat.pow_le_pow_right (by decide) (by omega)
    _ ≤ 10 ^ k := pow_two_le_pow_ten k

/-- So many units are less than half of a power of ten that is four hundred digits longer. -/
theorem two_mul_units_le_pow {digits k : Nat} (h : 400 + digits.log2 < k) :
    2 * (digits * one) ≤ 10 ^ k :=
  calc 2 * (digits * one) ≤ 2 * (2 ^ (digits.log2 + 1) * one) :=
        Nat.mul_le_mul_left 2 (Nat.mul_le_mul_right one (Nat.le_of_lt Nat.lt_log2_self))
    _ = 2 ^ (digits.log2 + 1 + 1) * one := by
      rw [← Nat.mul_assoc, ← Nat.pow_succ']
    _ ≤ 2 ^ (digits.log2 + 1 + 1) * 2 ^ 1201 := Nat.mul_le_mul_left _ (by decide +kernel)
    _ ≤ 2 ^ (3 * (401 + digits.log2)) := by
      rw [← Nat.pow_add]
      exact Nat.pow_le_pow_right (by decide) (by omega)
    _ ≤ 10 ^ (401 + digits.log2) := pow_two_le_pow_ten _
    _ ≤ 10 ^ k := Nat.pow_le_pow_right (by decide) (by omega)

/-- A decimal is rounded where it stands, however great or small it is. -/
theorem ofDecimal_eq_ofUnits (negative : Bool) (digits : Nat) (exponent : Int) :
    ofDecimal negative digits exponent =
      ofUnits negative (digits * 10 ^ exponent.toNat * one) (10 ^ (-exponent).toNat) := by
  have hden (k : Nat) : 0 < 10 ^ k := Nat.pow_pos (by decide)
  by_cases hdigits : digits = 0
  · unfold ofDecimal
    rw [if_pos hdigits, hdigits, Nat.zero_mul, Nat.zero_mul]
    exact (ofUnits_of_nearest_eq_zero (nearest_eq_zero (Nat.zero_le _) (hden _))).symm
  · by_cases hgreat : 400 < exponent
    · have hden' : (-exponent).toNat = 0 := by omega
      have hpow : overflow ≤ digits * 10 ^ exponent.toNat :=
        Nat.le_trans (overflow_le_pow (by omega))
          (Nat.le_mul_of_pos_left _ (Nat.pos_of_ne_zero hdigits))
      unfold ofDecimal
      rw [if_neg hdigits, if_pos hgreat, hden', Nat.pow_zero]
      refine (ofUnits_of_not_isFinite fun hfinite => ?_).symm
      rw [ofUnits_isFinite_iff Nat.one_pos, Nat.mul_one] at hfinite
      exact Nat.not_lt.mpr hpow hfinite
    · by_cases hsmall : exponent + digits.log2 < -400
      · unfold ofDecimal
        rw [if_neg hdigits, if_neg hgreat, if_pos hsmall, show exponent.toNat = 0 by omega,
          Nat.pow_zero, Nat.mul_one]
        have hunits : 2 * (digits * one) ≤ 10 ^ (-exponent).toNat :=
          two_mul_units_le_pow (by omega)
        exact (ofUnits_of_nearest_eq_zero (nearest_eq_zero hunits (hden _))).symm
      · unfold ofDecimal
        rw [if_neg hdigits, if_neg hgreat, if_neg hsmall]
        rfl

def InRange (digits : Nat) (exponent : Int) : Prop :=
  digits * 10 ^ exponent.toNat < overflow * 10 ^ (-exponent).toNat

instance (digits : Nat) (exponent : Int) : Decidable (InRange digits exponent) :=
  inferInstanceAs (Decidable (_ < _))

/-- A decimal is finite below the same bound. -/
theorem ofDecimal_isFinite_iff {digits : Nat} {exponent : Int} :
    (ofDecimal negative digits exponent).isFinite = true ↔ InRange digits exponent := by
  rw [ofDecimal_eq_ofUnits, ofUnits_isFinite_iff (Nat.pow_pos (by decide))]
  rfl

end Conform.Number
