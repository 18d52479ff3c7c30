import Conform.Proofs.Digits
import Conform.Proofs.Rounding

/-!
# Radixes — integers that are read digit by digit

An integer behind a radix mark is rounded at every digit.  Up to 53 binary digits nothing is lost;
the digit that goes past them is rounded to the grid, and the digits behind it are less than half
of its gap and change nothing any more (`fold_digits`).  So the number is the nearest one unless
the leading digits lie in the middle between two neighbours, of which the lower one is even, and a
digit other than zero follows (`Slips`); then it is the lower neighbour of the nearest one
(`ofRadixDigits?_of_spells`).
-/

namespace Conform.Magnitude

/-! ## 1. Digits behind the grid -/

/-- In the middle between its neighbours on the grid, of which the lower one is even. -/
def TiesDown (h : Nat) : Prop :=
  2 * (h % spacing h) = spacing h ∧ h / spacing h % 2 = 0

instance (h : Nat) : Decidable (TiesDown h) := inferInstanceAs (Decidable (_ ∧ _))

variable {h t m : Nat}

/-- More places are not seen except in the middle, where they turn to the upper neighbour. -/
theorem halfEven_append {size p : Nat} (heven : size % 2 = 0) (ht : t < p) (q r : Nat) :
    halfEven (size * p) q (r * p + t) =
      if 2 * r = size ∧ q % 2 = 0 ∧ t ≠ 0 then q + 1 else halfEven size q r := by
  have hdouble : 2 * r * p = 2 * (r * p) := Nat.mul_assoc 2 r p
  rcases Nat.lt_trichotomy (2 * r) size with hr | hr | hr
  · have hle : (2 * r + 2) * p ≤ size * p := Nat.mul_le_mul_right p (by omega)
    rw [Nat.add_mul, hdouble] at hle
    unfold halfEven
    rw [if_neg (by omega), if_neg (by omega), if_neg (by omega)]
  · have hsize : size * p = 2 * (r * p) := by rw [← hr, hdouble]
    unfold halfEven
    split <;> split <;> try split
    all_goals omega
  · have hlt : size * p < 2 * (r * p) := by
      rw [← hdouble]
      exact Nat.mul_lt_mul_of_pos_right hr (by omega)
    unfold halfEven
    rw [if_pos (by omega), if_neg (by omega), if_pos (by omega)]

/-- What follows a number past the exact ones is not seen when it is rounded, except where the
number is in the middle between its neighbours. -/
theorem nearest_append (full : 2 ^ 53 ≤ h) (ht : t < 2 ^ m) :
    nearest (h * 2 ^ m + t) 1 =
      (if TiesDown h ∧ t ≠ 0 then nearest h 1 + spacing h else nearest h 1) * 2 ^ m := by
  obtain ⟨k, q, r, hbracket⟩ := exists_bracket h Nat.one_pos
  have hspacing := hbracket.spacing_eq
  have hdiv := hbracket.div_eq
  have hmod := hbracket.mod_eq
  have hsplit := hbracket.split
  have hrest := hbracket.rest
  have hupper := hbracket.upper
  rw [Nat.div_one] at hspacing
  rw [Nat.one_mul] at hdiv hmod hsplit hrest
  have hk : k ≠ 0 := by
    rintro rfl
    omega
  have heven : 2 ^ k % 2 = 0 := by
    rw [← Nat.succ_pred_eq_of_ne_zero hk, Nat.pow_succ]
    omega
  have hties : TiesDown h ∧ t ≠ 0 ↔ 2 * r = 2 ^ k ∧ q % 2 = 0 ∧ t ≠ 0 := by
    unfold TiesDown
    rw [hspacing, hdiv, hmod, and_assoc]
  rw [(hbracket.append (hbracket.lower hk) ht).nearest_eq, hbracket.nearest_eq, Nat.one_mul,
    Nat.one_mul, Nat.pow_add, halfEven_append heven ht, hspacing, if_congr hties rfl rfl]
  split
  · rename_i htie
    -- The lower neighbour was taken, so that the upper one is one gap away.
    have hlower : halfEven (2 ^ k) q r = q := by
      unfold halfEven
      rw [if_neg (by omega)]
    rw [hlower, ← Nat.succ_mul, Nat.mul_assoc]
  · rw [Nat.mul_assoc]

/-- Past the exact numbers rounding stays past them. -/
theorem le_nearest (full : 2 ^ 53 ≤ h) : 2 ^ 53 ≤ nearest h 1 := by
  obtain ⟨k, q, r, hbracket⟩ := exists_bracket h Nat.one_pos
  have hsplit := hbracket.split
  have hrest := hbracket.rest
  have hupper := hbracket.upper
  have hk : k ≠ 0 := by
    rintro rfl
    omega
  have hgap : 2 ^ 1 ≤ 2 ^ k := Nat.pow_le_pow_right (by decide) (Nat.pos_of_ne_zero hk)
  have hlower := hbracket.lower hk
  have hstep := halfEven_cases (1 * 2 ^ k) q r
  rw [hbracket.nearest_eq]
  calc 2 ^ 53 = 2 ^ 52 * 2 ^ 1 := rfl
    _ ≤ halfEven (1 * 2 ^ k) q r * 2 ^ k := Nat.mul_le_mul (by omega) hgap

end Conform.Magnitude

namespace Conform.Number

open Magnitude

/-! ## 2. Natural numbers -/

variable {a b n : Nat}

theorem ofNat_congr (h : nearest a 1 = nearest b 1) : ofNat a = ofNat b := by
  unfold ofNat ofUnits
  simp only [nearest_mul_one, h]

/-- Rounding twice on one grid is rounding once. -/
theorem nearest_nearest (n : Nat) : nearest (nearest n 1) 1 = nearest n 1 :=
  nearest_of_spacing_dvd (spacing_nearest_dvd n 1)

theorem ofNat_eq_finite (h : (ofNat n).isFinite = true) :
    ∃ m, ofNat n = .finite false m ∧ m.units = nearest n 1 * one := by
  unfold ofNat ofUnits at h ⊢
  split
  · exact ⟨_, rfl, nearest_mul_one n⟩
  · rename_i hlimit
    rw [dif_neg hlimit] at h
    cases h

/-- From the middle behind the greatest number on, naturals round to infinity. -/
theorem ofNat_of_overflow (h : overflow ≤ n) : ofNat n = .infinite false := by
  apply ofUnits_of_not_isFinite
  change ¬(ofNat n).isFinite = true
  rw [ofNat_isFinite_iff]
  exact Nat.not_lt.mpr h

/-- One digit of a radix that is a power of two is appended without loss, and the sum is rounded;
what is past the limit stays there. -/
theorem appendDigit_ofNat (k a digit : Nat) :
    appendDigit (2 ^ k) (ofNat a) digit = ofNat (nearest a 1 * 2 ^ k + digit) := by
  have hnearest : nearest (nearest a 1 * 2 ^ k) 1 = nearest a 1 * 2 ^ k := by
    rw [nearest_mul_pow, nearest_nearest]
  by_cases hfinite : (ofNat a).isFinite = true
  · obtain ⟨m, hm, hunits⟩ := ofNat_eq_finite hfinite
    have hproduct : ofUnits false (m.units * 2 ^ k) 1 = ofNat (nearest a 1 * 2 ^ k) := by
      unfold ofNat
      rw [hunits, Nat.mul_right_comm]
    rw [hm]
    unfold appendDigit
    dsimp only
    rw [hproduct]
    by_cases hfinite' : (ofNat (nearest a 1 * 2 ^ k)).isFinite = true
    · obtain ⟨m', hm', hunits'⟩ := ofNat_eq_finite hfinite'
      rw [hm']
      dsimp only
      rw [hunits', hnearest, ← Nat.add_mul]
      rfl
    · have hover := Nat.not_lt.mp fun h => hfinite' (ofNat_isFinite_iff.mpr h)
      rw [ofNat_of_overflow hover, ofNat_of_overflow (Nat.le_trans hover (Nat.le_add_right _ _))]
  · have hover : overflow ≤ nearest a 1 := by
      rw [ofNat_congr (nearest_nearest a).symm] at hfinite
      exact Nat.not_lt.mp fun h => hfinite (ofNat_isFinite_iff.mpr h)
    have hover' : overflow ≤ nearest a 1 * 2 ^ k + digit :=
      Nat.le_trans hover (Nat.le_trans (Nat.le_mul_of_pos_right _ (Nat.two_pow_pos k))
        (Nat.le_add_right _ _))
    rw [ofNat_congr (nearest_nearest a).symm, ofNat_of_overflow hover, ofNat_of_overflow hover']
    rfl

/-! ## 3. The leading digits -/

/-- The first digits of `n` in the radix `2 ^ k`, up to the one that goes past 53 binary digits, and
what the `r` digits behind them spell. -/
structure Leads (k n h r t : Nat) : Prop where
  split : n = h * 2 ^ (k * r) + t
  rest : t < 2 ^ (k * r)
  upper : h < 2 ^ (53 + k)
  full : r ≠ 0 → 2 ^ 53 ≤ h

variable {k h r t : Nat} {digits : List Char}

theorem shift_succ (k r : Nat) : 2 ^ (k * r) * 2 ^ k = 2 ^ (k * (r + 1)) := by
  rw [← Nat.pow_add, Nat.mul_succ]

/-- Where the leading digits are complete, one more digit is left behind them. -/
theorem Leads.push (leads : Leads k n h r t) (full : 2 ^ 53 ≤ h) {digit : Nat}
    (hdigit : digit < 2 ^ k) : Leads k (2 ^ k * n + digit) h (r + 1) (t * 2 ^ k + digit) := by
  refine ⟨?_, ?_, leads.upper, fun _ => full⟩
  · rw [leads.split, ← shift_succ, Nat.mul_comm (2 ^ k), Nat.add_mul, Nat.mul_assoc,
      Nat.add_assoc]
  · have hrest : (t + 1) * 2 ^ k ≤ 2 ^ (k * r) * 2 ^ k := Nat.mul_le_mul_right _ leads.rest
    rw [shift_succ, Nat.succ_mul] at hrest
    omega

/-- Where they are not, no digit is behind them, and one more digit is a leading one. -/
theorem Leads.grow (leads : Leads k n h r t) (hless : h < 2 ^ 53) {digit : Nat}
    (hdigit : digit < 2 ^ k) :
    r = 0 ∧ Leads k (2 ^ k * n + digit) (h * 2 ^ k + digit) 0 0 := by
  have hr : r = 0 := by
    by_contra hr
    exact Nat.not_le_of_lt hless (leads.full hr)
  have hsplit := leads.split
  have hrest := leads.rest
  rw [hr, Nat.mul_zero, Nat.pow_zero] at hsplit hrest
  have hn : n = h := by omega
  refine ⟨hr, ⟨?_, by simp, ?_, fun hr => absurd rfl hr⟩⟩
  · rw [Nat.mul_zero, Nat.pow_zero, Nat.mul_one, Nat.add_zero, hn, Nat.mul_comm]
  · have hle : (h + 1) * 2 ^ k ≤ 2 ^ 53 * 2 ^ k := Nat.mul_le_mul_right _ hless
    rw [Nat.succ_mul, ← Nat.pow_add] at hle
    omega

/-- Naturals of 53 binary digits are kept. -/
theorem nearest_of_lt (h : n < 2 ^ 53) : nearest n 1 = n := by
  apply nearest_of_spacing_dvd
  rw [spacing_eq_one h]
  exact Nat.one_dvd n

/-- A digit is not seen behind a number that was rounded. -/
theorem nearest_digit (full : 2 ^ 53 ≤ h) {digit m : Nat} (hdigit : digit < 2 ^ m) :
    nearest (nearest h 1 * 2 ^ m + digit) 1 = nearest h 1 * 2 ^ m := by
  have hgrid : nearest h 1 % spacing (nearest h 1) = 0 :=
    Nat.mod_eq_zero_of_dvd (spacing_nearest_dvd h 1)
  have hties : ¬(TiesDown (nearest h 1) ∧ digit ≠ 0) := by
    rintro ⟨⟨hmiddle, -⟩, -⟩
    have := spacing_pos (nearest h 1)
    omega
  rw [nearest_append (le_nearest full) hdigit, if_neg hties, nearest_nearest]

/-- The digits of a radix that is a power of two, rounded one by one, are rounded once: where the
leading digits end. -/
theorem fold_digits (hk : k ≤ 4) (hdigits : Spells (2 ^ k) digits n) :
    ∃ a h r t, Leads k n h r t ∧ nearest a 1 = nearest h 1 * 2 ^ (k * r) ∧
      digits.foldlM (fun x c => (digitValue? (2 ^ k) c).map (appendDigit (2 ^ k) x)) zero =
        some (ofNat a) := by
  have hradix : 2 ^ k ≤ 16 := Nat.pow_le_pow_right (by decide) hk
  induction hdigits with
  | nil =>
    refine ⟨0, 0, 0, 0, ⟨by simp, by simp, Nat.two_pow_pos _, fun hr => absurd rfl hr⟩, ?_, ?_⟩
    · rw [Nat.mul_zero, Nat.pow_zero, Nat.mul_one]
    · have hzero : nearest (0 * one) 1 = 0 := by
        rw [Nat.zero_mul]
        exact nearest_eq_zero (Nat.zero_le _) Nat.one_pos
      exact congrArg some (ofUnits_of_nearest_eq_zero hzero).symm
  | @snoc digits n c value _ last ih =>
    obtain ⟨a, h, r, t, leads, hnearest, hfold⟩ := ih
    have hdigit : value < 2 ^ k := last.1
    have hstep : (digits ++ [c]).foldlM
        (fun x c => (digitValue? (2 ^ k) c).map (appendDigit (2 ^ k) x)) zero =
          some (ofNat (nearest a 1 * 2 ^ k + value)) := by
      rw [foldlM_digits_snoc, hfold, Option.bind_some, (digitValue?_eq_some_iff hradix).mpr last,
        Option.map_some, appendDigit_ofNat]
    rw [hstep, hnearest]
    by_cases hfull : 2 ^ 53 ≤ h
    · refine ⟨_, h, r + 1, _, leads.push hfull hdigit, ?_, rfl⟩
      have hless : value < 2 ^ (k * (r + 1)) :=
        Nat.lt_of_lt_of_le hdigit (Nat.pow_le_pow_right (by decide) (by rw [Nat.mul_succ]; omega))
      rw [Nat.mul_assoc, shift_succ, nearest_digit hfull hless]
    · -- The number so far is exact.
      have hlt := Nat.lt_of_not_le hfull
      obtain ⟨rfl, hleads⟩ := leads.grow hlt hdigit
      refine ⟨_, _, 0, 0, hleads, ?_, rfl⟩
      rw [nearest_of_lt hlt, Nat.mul_zero, Nat.pow_zero, Nat.mul_one, Nat.mul_one]

/-- The digits of `n` in a radix are rounded down at the middle between two neighbours, although
there are digits behind it. -/
def Slips (radix n : Nat) : Prop :=
  ∃ r, 2 ^ 53 ≤ n / radix ^ r ∧ n / radix ^ r < 2 ^ 53 * radix ∧ TiesDown (n / radix ^ r) ∧
    n % radix ^ r ≠ 0

/-- No more digits than the leading ones cannot slip. -/
theorem not_slips_of_lt {radix : Nat} (h : n < 2 ^ 53 * radix) : ¬Slips radix n := by
  rintro ⟨r, hlower, -, -, hbehind⟩
  cases r with
  | zero => exact hbehind (Nat.mod_one n)
  | succ r =>
    have hradix : 0 < radix := Nat.pos_of_lt_mul_left h
    have hless : n / radix ^ (r + 1) < 2 ^ 53 :=
      calc n / radix ^ (r + 1) = n / radix / radix ^ r := by
            rw [Nat.pow_succ', Nat.div_div_eq_div_mul]
        _ ≤ n / radix := Nat.div_le_self _ _
        _ < 2 ^ 53 := (Nat.div_lt_iff_lt_mul hradix).mpr h
    exact Nat.not_lt.mpr hlower hless

/-- The digits slip when those that count lie in a middle that ties down, and one behind them is not
zero. -/
theorem Leads.slips_iff (leads : Leads k n h r t) :
    Slips (2 ^ k) n ↔ 2 ^ 53 ≤ h ∧ TiesDown h ∧ t ≠ 0 := by
  have hdiv : n / 2 ^ (k * r) = h := by
    rw [leads.split, Nat.mul_comm h, Nat.mul_add_div (Nat.two_pow_pos _),
      Nat.div_eq_of_lt leads.rest, Nat.add_zero]
  have hmod : n % 2 ^ (k * r) = t := by
    rw [leads.split, Nat.mul_comm h, Nat.mul_add_mod, Nat.mod_eq_of_lt leads.rest]
  have hupper := leads.upper
  rw [Nat.pow_add] at hupper
  -- A number has as many leading digits as go past the exact ones, and no more.
  have hless : ∀ r r', r < r' → n / 2 ^ (k * r) < 2 ^ 53 * 2 ^ k → n / 2 ^ (k * r') < 2 ^ 53 := by
    intro r r' hr hn
    rw [show k * r' = k * r + k + k * (r' - (r + 1)) by
        rw [← Nat.mul_succ, ← Nat.mul_add, Nat.add_sub_cancel' hr],
      Nat.pow_add, Nat.pow_add, ← Nat.div_div_eq_div_mul, ← Nat.div_div_eq_div_mul]
    exact Nat.lt_of_le_of_lt (Nat.div_le_self _ _)
      ((Nat.div_lt_iff_lt_mul (Nat.two_pow_pos k)).mpr hn)
  unfold Slips
  simp only [← Nat.pow_mul]
  constructor
  · rintro ⟨r', hlower', hupper', hties, hbehind⟩
    rcases Nat.lt_trichotomy r r' with hr | rfl | hr
    · exact absurd (hless r r' hr (hdiv ▸ hupper)) (Nat.not_lt.mpr hlower')
    · rw [hdiv] at hlower' hties
      rw [hmod] at hbehind
      exact ⟨hlower', hties, hbehind⟩
    · have := hless r' r hr hupper'
      have := leads.full (by omega)
      omega
  · rintro ⟨hlower, hties, hbehind⟩
    rw [← hdiv] at hlower hupper hties
    rw [← hmod] at hbehind
    exact ⟨r, hlower, hupper, hties, hbehind⟩

/-! ## 4. What is read -/

/-- The leading digits are finite, with zeros behind them, where all the digits are. -/
theorem Leads.lt_overflow_iff (leads : Leads k n h r t) :
    h * 2 ^ (k * r) < overflow ↔ n < overflow := by
  have hrest := leads.rest
  rw [leads.split]
  by_cases hr : k * r ≤ 970
  · have hover : overflow = (2 ^ 54 - 1) * 2 ^ (970 - k * r) * 2 ^ (k * r) := by
      rw [overflow_eq, Nat.mul_assoc, ← Nat.pow_add, Nat.sub_add_cancel hr]
    rw [hover]
    generalize (2 ^ 54 - 1) * 2 ^ (970 - k * r) = c
    constructor
    · intro hlt
      have hle : (h + 1) * 2 ^ (k * r) ≤ c * 2 ^ (k * r) :=
        Nat.mul_le_mul_right _ (Nat.lt_of_mul_lt_mul_right hlt)
      rw [Nat.succ_mul] at hle
      omega
    · exact Nat.lt_of_le_of_lt (Nat.le_add_right _ _)
  · have hfull : 2 ^ 53 ≤ h := leads.full (by rintro rfl; omega)
    have hover : overflow ≤ h * 2 ^ (k * r) :=
      calc overflow ≤ 2 ^ 53 * 2 ^ 971 := by decide +kernel
        _ ≤ h * 2 ^ (k * r) := Nat.mul_le_mul hfull (Nat.pow_le_pow_right (by decide) (by omega))
    exact iff_of_false (Nat.not_lt.mpr hover)
      (Nat.not_lt.mpr (Nat.le_trans hover (Nat.le_add_right _ _)))

theorem ofRadixDigits?_of_ne_nil {radix : Nat} (h : digits ≠ []) : ofRadixDigits? radix digits =
    digits.foldlM (fun x c => (digitValue? radix c).map (appendDigit radix x)) zero := by
  cases digits with
  | nil => exact absurd rfl h
  | cons c rest => rfl

/-- Digits of a radix are read as the number nearest to what they spell; where they slip, as the
number nearest to what they spell with zeros behind the leading digits, which is less. -/
theorem ofRadixDigits?_of_spells (hk : k ≤ 4) (nonempty : digits ≠ [])
    (spelled : Spells (2 ^ k) digits n) :
    ∃ b, ofRadixDigits? (2 ^ k) digits = some (ofNat b) ∧ (b < overflow ↔ n < overflow) ∧
      (¬Slips (2 ^ k) n → nearest b 1 = nearest n 1) ∧
      (Slips (2 ^ k) n → nearest b 1 < nearest n 1) := by
  obtain ⟨a, h, r, t, leads, hnearest, hfold⟩ := fold_digits hk spelled
  rw [← nearest_mul_pow] at hnearest
  rw [ofNat_congr hnearest] at hfold
  refine ⟨h * 2 ^ (k * r), ?_, leads.lt_overflow_iff, fun hslips => ?_, fun hslips => ?_⟩
  · rw [ofRadixDigits?_of_ne_nil nonempty, hfold]
  · rw [leads.slips_iff] at hslips
    by_cases hfull : 2 ^ 53 ≤ h
    · have hties : ¬(TiesDown h ∧ t ≠ 0) := fun hties => hslips ⟨hfull, hties⟩
      rw [nearest_mul_pow, leads.split, nearest_append hfull leads.rest, if_neg hties]
    · have hr : r = 0 := by
        by_contra hr
        exact hfull (leads.full hr)
      have hrest := leads.rest
      have ht : t = 0 := by
        rw [hr, Nat.mul_zero, Nat.pow_zero] at hrest
        omega
      rw [leads.split, ht, Nat.add_zero]
  · obtain ⟨hfull, hties⟩ := leads.slips_iff.mp hslips
    rw [nearest_mul_pow, leads.split, nearest_append hfull leads.rest, if_pos hties]
    exact Nat.mul_lt_mul_of_pos_right (Nat.lt_add_of_pos_right (spacing_pos h))
      (Nat.two_pow_pos _)

/-- A number that is rounded to less is less. -/
theorem ofNat_lt (hfinite : (ofNat n).isFinite = true) (h : nearest b 1 < nearest n 1) :
    (ofNat b).lt (ofNat n) = true := by
  obtain ⟨m, hm, hunits⟩ := ofNat_eq_finite hfinite
  have hless : nearest (b * one) 1 < m.units := by
    rw [nearest_mul_one, hunits]
    exact Nat.mul_lt_mul_of_pos_right h one_pos
  rw [hm]
  unfold ofNat ofUnits
  rw [dif_pos (Nat.lt_trans hless m.representable.2)]
  exact decide_eq_true (Int.ofNat_lt.mpr hless)

end Conform.Number
