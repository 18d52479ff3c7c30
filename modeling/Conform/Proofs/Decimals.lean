import Conform.Number.Text
import Conform.Proofs.Numerals

/-!
# Decimals — texts that numbers are read back from

The reals that round to a magnitude reach half way to its neighbours (`Magnitude.Reaches`), and a
decimal reads back if it is one of them (`nearest_of_reaches`).  On the grid of seventeen digits one
of the two decimals around a magnitude always does (`exists_onGrid?`), so that the shortest decimal
stands for the number that it was taken for (`ofDecimal_shortest`).  It is read from the text that
it is written in, whatever the notation (`ofDecimalText?_toExponentText`).
-/

namespace Conform.Magnitude

/-! ## 1. The reals that round to a magnitude -/

/-- How far below a magnitude the reals reach that round to it, in quarters of a unit: half way to
the neighbour, and at a power of two the neighbour is half a gap away. -/
def reachBelow (units : Nat) : Nat :=
  if units / spacing units = 2 ^ 52 ∧ spacing units ≠ 1 then spacing units else 2 * spacing units

/-- A quotient half way to the neighbours of a magnitude at most, and less than that if its
significand is odd. -/
structure Reaches (units num den : Nat) : Prop where
  lower : (4 * units - reachBelow units) * den ≤ 4 * num
  upper : 4 * num ≤ (4 * units + 2 * spacing units) * den
  ends : 4 * num = (4 * units - reachBelow units) * den ∨
    4 * num = (4 * units + 2 * spacing units) * den → units / spacing units % 2 = 0

variable {units num den : Nat}

/-- A magnitude on the grid is a significand of 53 digits at most, times its gap. -/
theorem exists_significand (grid : spacing units ∣ units) :
    ∃ s k, units = s * 2 ^ k ∧ spacing units = 2 ^ k ∧ units / spacing units = s ∧ s < 2 ^ 53 ∧
      (k ≠ 0 → 2 ^ 52 ≤ s) := by
  obtain ⟨k, q, r, h⟩ := exists_bracket units Nat.one_pos
  have hspacing := h.spacing_eq
  rw [Nat.div_one] at hspacing
  have hsplit := h.split
  have hmod := h.mod_eq
  rw [Nat.one_mul, ← hspacing, Nat.mod_eq_zero_of_dvd grid] at hmod
  rw [← hmod, Nat.add_zero, Nat.one_mul] at hsplit
  refine ⟨q, k, hsplit, hspacing, ?_, h.upper, h.lower⟩
  rw [hspacing, ← Nat.one_mul (2 ^ k)]
  exact h.div_eq

/-- From a significand on, half a gap at most is rounded off. -/
theorem nearest_add {s k r : Nat} (hden : 0 < den) (upper : s < 2 ^ 53)
    (lower : k ≠ 0 → 2 ^ 52 ≤ s) (hr : 2 * r ≤ den * 2 ^ k)
    (heven : 2 * r = den * 2 ^ k → s % 2 = 0) :
    nearest (s * (den * 2 ^ k) + r) den = s * 2 ^ k := by
  have hsize : 0 < den * 2 ^ k := Nat.mul_pos hden (Nat.two_pow_pos k)
  have hbracket : Bracket (s * (den * 2 ^ k) + r) den k s r := ⟨rfl, by omega, lower, upper⟩
  rw [hbracket.nearest_eq]
  unfold halfEven
  rw [if_neg (by omega)]

/-- Below a significand, half a gap at most is filled up. -/
theorem nearest_sub {s k r : Nat} (upper : s ≤ 2 ^ 53) (lower : k ≠ 0 → 2 ^ 52 < s)
    (hpos : 0 < r) (hle : r ≤ s * (den * 2 ^ k)) (hr : 2 * r ≤ den * 2 ^ k)
    (heven : 2 * r = den * 2 ^ k → s % 2 = 0) :
    nearest (s * (den * 2 ^ k) - r) den = s * 2 ^ k := by
  have hs : 0 < s := by
    refine Nat.pos_of_ne_zero ?_
    rintro rfl
    rw [Nat.zero_mul] at hle
    omega
  have hpred : (s - 1) * (den * 2 ^ k) + den * 2 ^ k = s * (den * 2 ^ k) := by
    rw [← Nat.succ_mul, Nat.succ_eq_add_one, Nat.sub_add_cancel hs]
  have hbracket : Bracket (s * (den * 2 ^ k) - r) den k (s - 1) (den * 2 ^ k - r) := by
    refine ⟨by omega, by omega, fun hk => ?_, by omega⟩
    have := lower hk
    omega
  rw [hbracket.nearest_eq]
  unfold halfEven
  rw [if_pos (by omega), Nat.sub_add_cancel hs]

/-- What is nearer to a magnitude than to its neighbours rounds to it. -/
theorem nearest_of_reaches (grid : spacing units ∣ units) (hden : 0 < den)
    (h : Reaches units num den) : nearest num den = units := by
  obtain ⟨s, k, hunits, hspacing, hs, hupper, hlower⟩ := exists_significand grid
  have hproduct : units * den = s * (den * 2 ^ k) := by
    rw [hunits, Nat.mul_assoc, Nat.mul_comm (2 ^ k)]
  have habove : (4 * units + 2 * spacing units) * den =
      4 * (s * (den * 2 ^ k)) + 2 * (den * 2 ^ k) := by
    rw [Nat.add_mul, Nat.mul_assoc, Nat.mul_assoc, hproduct, hspacing, Nat.mul_comm (2 ^ k)]
  have hbelow : (4 * units - reachBelow units) * den =
      4 * (s * (den * 2 ^ k)) - reachBelow units * den := by
    rw [Nat.sub_mul, Nat.mul_assoc, hproduct]
  have hle := h.lower
  have hge := h.upper
  have hends := h.ends
  rw [habove] at hge hends
  rw [hbelow] at hle hends
  rw [hs] at hends
  rw [hunits]
  -- The gap above a magnitude is its own; the gap below a power of two is half of that.
  by_cases hnum : s * (den * 2 ^ k) ≤ num
  · obtain ⟨r, rfl⟩ := Nat.exists_eq_add_of_le hnum
    exact nearest_add hden hupper hlower (by omega) (by omega)
  · obtain ⟨r, hr⟩ := Nat.exists_eq_add_of_le (Nat.le_of_not_le hnum)
    by_cases hpower : s = 2 ^ 52 ∧ k ≠ 0
    · -- In halves of its gap the power of two has twice the significand.
      obtain ⟨rfl, hk⟩ := hpower
      obtain ⟨j, rfl⟩ := Nat.exists_eq_succ_of_ne_zero hk
      have hhalf : den * 2 ^ (j + 1) = 2 * (den * 2 ^ j) := by
        rw [Nat.pow_succ, ← Nat.mul_assoc, Nat.mul_comm]
      have hreach : reachBelow units * den = 2 * (den * 2 ^ j) := by
        have hgap : spacing units ≠ 1 := by
          rw [hspacing, Nat.pow_succ]
          omega
        rw [reachBelow, if_pos ⟨hs, hgap⟩, hspacing, Nat.mul_comm, hhalf]
      rw [hreach] at hle hends
      rw [hhalf] at hle hnum hr hends
      have hnearest : nearest (2 ^ 53 * (den * 2 ^ j) - r) den = 2 ^ 53 * 2 ^ j :=
        nearest_sub (Nat.le_refl _) (fun _ => by decide) (by omega) (by omega) (by omega)
          (fun _ => by decide)
      rw [show num = 2 ^ 53 * (den * 2 ^ j) - r by omega, hnearest, Nat.pow_succ]
      omega
    · have hreach : reachBelow units * den = 2 * (den * 2 ^ k) := by
        have hgap : ¬(units / spacing units = 2 ^ 52 ∧ spacing units ≠ 1) := by
          rw [hs, hspacing]
          rintro ⟨heq, hne⟩
          refine hpower ⟨heq, ?_⟩
          rintro rfl
          exact hne rfl
        rw [reachBelow, if_neg hgap, hspacing, Nat.mul_assoc, Nat.mul_comm (2 ^ k)]
      rw [hreach] at hle hends
      rw [show num = s * (den * 2 ^ k) - r by omega]
      refine nearest_sub (Nat.le_of_lt hupper) (fun hk => ?_) (by omega) (by omega) (by omega)
        (by omega)
      exact Nat.lt_of_le_of_ne (hlower hk) fun heq => hpower ⟨heq.symm, hk⟩

theorem reachBelow_le (grid : spacing units ∣ units) (hpos : units ≠ 0) :
    reachBelow units ≤ 4 * units := by
  have hgap := Nat.le_of_dvd (Nat.pos_of_ne_zero hpos) grid
  unfold reachBelow
  split <;> omega

/-- A step of the grid of seventeen digits is shorter than the reals reach that round to a
magnitude. -/
theorem step_lt (grid : spacing units ∣ units) {step places : Nat} (hplaces : 0 < places)
    (h : 10 ^ 16 * step ≤ units * places) :
    4 * step < (reachBelow units + 2 * spacing units) * places := by
  obtain ⟨s, k, hunits, hspacing, hs, hupper, -⟩ := exists_significand grid
  have hgap : 0 < 2 ^ k * places := Nat.mul_pos (Nat.two_pow_pos k) hplaces
  rw [hunits, Nat.mul_assoc] at h
  unfold reachBelow
  rw [hs, hspacing, Nat.add_mul, Nat.mul_assoc]
  split
  · rename_i hpower
    rw [hpower.1] at h
    omega
  · have hle : s * (2 ^ k * places) ≤ (2 ^ 53 - 1) * (2 ^ k * places) :=
      Nat.mul_le_mul_right _ (by omega)
    rw [Nat.mul_assoc]
    omega

/-- Of two neighbours on a grid of seventeen digits one reaches the magnitude between them. -/
theorem reaches_neighbour (grid : spacing units ∣ units) (hpos : units ≠ 0) {step places : Nat}
    (hstep : 0 < step) (hplaces : 0 < places) (h : 10 ^ 16 * step ≤ units * places) :
    Reaches units (units * places / step * step) places ∨
      Reaches units ((units * places / step + 1) * step) places := by
  have hless := step_lt grid hplaces h
  have hfloor : units * places / step * step ≤ units * places := Nat.div_mul_le_self _ _
  have hceil : units * places < (units * places / step + 1) * step := by
    rw [Nat.mul_comm _ step]
    exact Nat.lt_mul_div_succ _ hstep
  have hgap : 0 < spacing units * places := Nat.mul_pos (spacing_pos units) hplaces
  have hbelow := Nat.mul_le_mul_right places (reachBelow_le grid hpos)
  rw [Nat.mul_assoc] at hbelow
  rw [Nat.add_mul, Nat.mul_assoc] at hless
  rw [Nat.succ_mul] at hceil ⊢
  -- Both lie strictly between the ends, or the step would be as long as what reaches.
  have hstrict {num : Nat} (hlow : 4 * (units * places) - reachBelow units * places < 4 * num)
      (hhigh : 4 * num < 4 * (units * places) + 2 * (spacing units * places)) :
      Reaches units num places := by
    rw [← Nat.mul_assoc, ← Nat.sub_mul] at hlow
    rw [← Nat.mul_assoc, ← Nat.mul_assoc, ← Nat.add_mul] at hhigh
    exact ⟨Nat.le_of_lt hlow, Nat.le_of_lt hhigh, fun h => by omega⟩
  by_cases hlow : 4 * (units * places) - reachBelow units * places <
      4 * (units * places / step * step)
  · exact .inl (hstrict hlow (by omega))
  · exact .inr (hstrict (by omega) (by omega))

end Conform.Magnitude

namespace Conform.Number

open Magnitude

/-! ## 2. Decimals that read back -/

variable {units : Nat} {d : Decimal} {tie : Tie} {negative : Bool}

/-- A decimal reads back when the quotient that it is reaches the magnitude. -/
theorem readsBack_iff : readsBack units d = true ↔
    Reaches units (d.digits * 10 ^ d.exponent.toNat * one) (10 ^ (-d.exponent).toNat) := by
  have hreaches {low scaled high s : Nat} :
      (if s % 2 = 0 then decide (low ≤ scaled) && decide (scaled ≤ high)
        else decide (low < scaled) && decide (scaled < high)) = true ↔
      low ≤ scaled ∧ scaled ≤ high ∧ (scaled = low ∨ scaled = high → s % 2 = 0) := by
    split <;> rw [Bool.and_eq_true, decide_eq_true_eq, decide_eq_true_eq] <;> omega
  exact hreaches.trans ⟨fun ⟨hlow, hhigh, hends⟩ => ⟨hlow, hhigh, hends⟩,
    fun ⟨hlow, hhigh, hends⟩ => ⟨hlow, hhigh, hends⟩⟩

/-- A decimal that reads back stands for its magnitude. -/
theorem ofDecimal_of_readsBack {m : Magnitude} (h : readsBack m.units d = true) :
    ofDecimal negative d.digits d.exponent = .finite negative m := by
  have hnearest := nearest_of_reaches m.representable.1 (Nat.pow_pos (by decide))
    (readsBack_iff.mp h)
  rw [ofDecimal_eq_ofUnits]
  unfold ofUnits
  simp only [hnearest]
  exact dif_pos m.representable.2

theorem readsBack_of_onGrid? {exponent : Int} (h : onGrid? tie units exponent = some d) :
    readsBack units d = true := by
  unfold onGrid? at h
  dsimp only at h
  split at h
  · rename_i hlower hupper
    obtain rfl := Option.some.inj h
    split
    · exact hupper
    · exact hlower
  · rename_i hlower hupper
    obtain rfl := Option.some.inj h
    exact hlower
  · rename_i hlower hupper
    obtain rfl := Option.some.inj h
    exact hupper
  · cases h

/-- The first digit of a number with `c` digits, `p` of which are behind the point, stands sixteen
places before the last place of a grid of seventeen digits. -/
theorem pow_le_of_leading {c p : Nat} (hc : 0 < c)
    (h : 10 ^ (c - 1) * one ≤ units * 10 ^ p) :
    10 ^ 16 * (one * 10 ^ ((c : Int) - p - 17).toNat) ≤
      units * 10 ^ (-((c : Int) - p - 17)).toNat := by
  generalize hup : ((c : Int) - p - 17).toNat = up
  generalize hdown : (-((c : Int) - p - 17)).toNat = down
  have hplaces : p + 16 + up = c - 1 + down := by omega
  generalize one = u at h ⊢
  refine Nat.le_of_mul_le_mul_left ?_ (Nat.pow_pos (by decide : 0 < 10) (n := p))
  calc 10 ^ p * (10 ^ 16 * (u * 10 ^ up)) = 10 ^ (p + 16 + up) * u := by
        rw [Nat.pow_add, Nat.pow_add]
        ac_rfl
    _ = 10 ^ (c - 1) * u * 10 ^ down := by
        rw [hplaces, Nat.pow_add]
        ac_rfl
    _ ≤ units * 10 ^ p * 10 ^ down := Nat.mul_le_mul_right _ h
    _ = 10 ^ p * (units * 10 ^ down) := by ac_rfl

theorem digitCount_pos (n : Nat) : 0 < digitCount n := Nat.length_toDigits_pos

theorem pow_digitCount_le {n : Nat} (hn : 0 < n) : 10 ^ (digitCount n - 1) ≤ n := by
  unfold digitCount
  generalize hlength : (Nat.toDigits 10 n).length = c
  by_cases hc : 0 < c - 1
  · refine Nat.le_of_not_lt fun hlt => ?_
    have hle := (Nat.length_toDigits_le_iff (by decide) hc).mpr hlt
    omega
  · rw [show c - 1 = 0 by omega, Nat.pow_zero]
    exact hn

theorem pow_pointPosition_le (hpos : units ≠ 0) :
    10 ^ 16 * (one * 10 ^ (pointPosition units - 17).toNat) ≤
      units * 10 ^ (-(pointPosition units - 17)).toNat := by
  -- The least magnitude has a digit within 330 places behind the point.
  have hone : one ≤ units * Nat.pow 10 330 :=
    Nat.le_trans (by decide +kernel : one ≤ Nat.pow 10 330)
      (Nat.le_mul_of_pos_left _ (Nat.pos_of_ne_zero hpos))
  unfold pointPosition
  rw [show (330 : Int) = (330 : Nat) from rfl]
  generalize 330 = p at hone ⊢
  have hleading := pow_digitCount_le (Nat.div_pos hone one_pos)
  rw [Nat.le_div_iff_mul_le one_pos] at hleading
  exact pow_le_of_leading (digitCount_pos _) hleading

/-- On the grid of seventeen digits one of the two decimals around a magnitude reads back. -/
theorem exists_onGrid? (tie : Tie) (grid : spacing units ∣ units) (hpos : units ≠ 0) :
    ∃ d, onGrid? tie units (pointPosition units - 17) = some d := by
  have hleading := pow_pointPosition_le hpos
  generalize pointPosition units - 17 = exponent at hleading ⊢
  have hstep : 0 < one * 10 ^ exponent.toNat := Nat.mul_pos one_pos (Nat.pow_pos (by decide))
  have hreads (digits : Nat)
      (h : Reaches units (digits * (one * 10 ^ exponent.toNat)) (10 ^ (-exponent).toNat)) :
      readsBack units ⟨digits, exponent⟩ = true := by
    rwa [Nat.mul_comm one, ← Nat.mul_assoc, ← readsBack_iff (d := ⟨digits, exponent⟩)] at h
  -- The grid is finer than what rounds to the magnitude is wide.
  have hone := reaches_neighbour grid hpos hstep (Nat.pow_pos (by decide)) hleading
  unfold onGrid?
  dsimp only
  split
  · exact ⟨_, rfl⟩
  · exact ⟨_, rfl⟩
  · exact ⟨_, rfl⟩
  · rename_i hlower hupper
    rcases hone with h | h
    · exact absurd (hreads _ h) (hlower ▸ Bool.false_ne_true)
    · exact absurd (hreads _ h) (hupper ▸ Bool.false_ne_true)

/-- The shortest decimal is one that reads back, but for the zeros behind its digits. -/
theorem exists_shortest (tie : Tie) (grid : spacing units ∣ units) (hpos : units ≠ 0) :
    ∃ d, readsBack units d = true ∧ shortest tie units = d.normalize 400 := by
  -- The search ends with seventeen digits, if not before.
  obtain ⟨last, hlast⟩ := exists_onGrid? tie grid hpos
  have hfound : ((List.range 17).findSome? fun (n : Nat) =>
      onGrid? tie units (pointPosition units - (n + 1))).isSome = true := by
    rw [List.findSome?_isSome_iff]
    exact ⟨16, List.mem_range.mpr (by decide), Option.isSome_of_eq_some hlast⟩
  obtain ⟨d, hd⟩ := Option.isSome_iff_exists.mp hfound
  obtain ⟨n, -, hn⟩ := List.exists_of_findSome?_eq_some hd
  refine ⟨d, readsBack_of_onGrid? hn, ?_⟩
  unfold shortest
  dsimp only
  rw [hd]
  rfl

/-- Zeros behind the digits are as good as places in the exponent. -/
theorem ofDecimal_mul_pow (negative : Bool) (digits k : Nat) (exponent : Int) :
    ofDecimal negative (digits * 10 ^ k) exponent = ofDecimal negative digits (exponent + k) := by
  have hden (k : Nat) : 0 < 10 ^ k := Nat.pow_pos (by decide)
  have hplaces : k + exponent.toNat + (-(exponent + k)).toNat =
      (exponent + k).toNat + (-exponent).toNat := by
    omega
  rw [ofDecimal_eq_ofUnits, ofDecimal_eq_ofUnits]
  refine ofUnits_congr (hden _) (hden _) ?_
  generalize one = u
  calc digits * 10 ^ k * 10 ^ exponent.toNat * u * 10 ^ (-(exponent + k)).toNat
      = digits * u * 10 ^ (k + exponent.toNat + (-(exponent + k)).toNat) := by
        rw [Nat.pow_add, Nat.pow_add]
        ac_rfl
    _ = digits * 10 ^ (exponent + k).toNat * u * 10 ^ (-exponent).toNat := by
        rw [hplaces, Nat.pow_add]
        ac_rfl

/-- Zeros that move into the exponent do not change the number. -/
theorem ofDecimal_normalize (fuel : Nat) (d : Decimal) :
    ofDecimal negative (d.normalize fuel).digits (d.normalize fuel).exponent =
      ofDecimal negative d.digits d.exponent := by
  induction fuel generalizing d with
  | zero => rfl
  | succ fuel ih =>
    unfold Decimal.normalize
    split
    · rename_i hzero
      have hdigits : d.digits / 10 * 10 ^ 1 = d.digits := by omega
      have hstep := ofDecimal_mul_pow negative (d.digits / 10) 1 d.exponent
      rw [hdigits] at hstep
      rw [ih, hstep]
      rfl
    · rfl

/-- The shortest decimal stands for the magnitude that it is taken for. -/
theorem ofDecimal_shortest (tie : Tie) (negative : Bool) {m : Magnitude} (hpos : m.units ≠ 0) :
    ofDecimal negative (shortest tie m.units).digits (shortest tie m.units).exponent =
      .finite negative m := by
  obtain ⟨d, hreads, hshortest⟩ := exists_shortest tie m.representable.1 hpos
  rw [hshortest, ofDecimal_normalize, ofDecimal_of_readsBack hreads]

/-! ## 3. Notations -/

section Notations

variable {sign digits : List Char} {n : Nat} {e : Int}

theorem isSign_signText (negative : Bool) : IsSign (signText negative).toList negative := by
  cases negative with
  | false => exact .none
  | true => exact .minus

/-- An integral number that ends in `.0`. -/
theorem isDecimal_positional_of_nonneg (signed : IsSign sign negative)
    (spelled : Spells 10 digits n) (he : 0 ≤ e) :
    IsDecimal (sign ++ (positional digits e ++ ['.', '0'])) negative (n * 10 ^ (e.toNat + 1))
      (-1) := by
  have hspells := spelled.append (spells_zeros (by decide) (e.toNat + 1))
  rw [List.replicate_succ', ← List.append_assoc, List.length_append, List.length_replicate,
    List.length_singleton, Nat.add_zero] at hspells
  have hdecimal := IsDecimal.intro signed (.pointed _ ['0'])
    (List.append_ne_nil_of_right_ne_nil _ (List.cons_ne_nil _ _)) hspells .none
  rw [List.append_nil] at hdecimal
  unfold positional
  rw [if_pos he]
  exact hdecimal

/-- A number with a fraction, whose digits stand around the point or behind it. -/
theorem isDecimal_positional_of_neg (signed : IsSign sign negative) (nonempty : digits ≠ [])
    (spelled : Spells 10 digits n) (he : e < 0) :
    IsDecimal (sign ++ positional digits e) negative n e := by
  unfold positional
  dsimp only
  rw [if_neg (by omega)]
  split
  · rename_i hpoint
    rw [← List.take_append_drop (digits.length + e).toNat digits] at spelled nonempty
    have hdecimal := IsDecimal.intro signed (.pointed _ _) nonempty spelled .none
    rw [List.append_nil, List.length_drop] at hdecimal
    have hexponent : 0 - ((digits.length - (digits.length + e).toNat : Nat) : Int) = e := by omega
    rwa [hexponent] at hdecimal
  · rename_i hpoint
    have hspells := spelled.zeros_append (by decide) ((-(digits.length + e)).toNat + 1)
    rw [List.replicate_succ, List.cons_append] at hspells
    have hdecimal := IsDecimal.intro signed
      (.pointed ['0'] (List.replicate (-(digits.length + e)).toNat '0' ++ digits))
      (List.cons_ne_nil _ _) hspells .none
    rw [List.append_nil, List.length_append, List.length_replicate] at hdecimal
    have hexponent : 0 - (((-(digits.length + e)).toNat + digits.length : Nat) : Int) = e := by
      omega
    rwa [hexponent] at hdecimal

theorem isPower_power (plus : Bool) (power : Int) :
    IsPower ('e' :: ((if power < 0 then ['-'] else if plus then ['+'] else []) ++
      Nat.toDigits 10 power.natAbs)) power := by
  have hpower {sign : List Char} {negative : Bool} (signed : IsSign sign negative)
      (hsign : (if negative then -(power.natAbs : Int) else power.natAbs) = power) :
      IsPower ('e' :: (sign ++ Nat.toDigits 10 power.natAbs)) power := by
    have h := IsPower.power (.inl rfl) signed Nat.toDigits_ne_nil
      (spells_toDigits (by decide) power.natAbs)
    rwa [hsign] at h
  split
  · refine hpower .minus ?_
    rw [if_pos rfl]
    omega
  · split
    · refine hpower .plus ?_
      rw [if_neg Bool.false_ne_true]
      omega
    · refine hpower .none ?_
      rw [if_neg Bool.false_ne_true]
      omega

/-- Scientific notation is a decimal of the same digits and exponent. -/
theorem isDecimal_scientific (plus : Bool) (signed : IsSign sign negative) (nonempty : digits ≠ [])
    (spelled : Spells 10 digits n) : IsDecimal (sign ++ scientific plus digits e) negative n e := by
  unfold scientific
  dsimp only
  have hpower := isPower_power plus (digits.length + e - 1)
  match digits, nonempty with
  | [d], _ =>
    have hdecimal := IsDecimal.intro signed (.whole [d]) (List.cons_ne_nil _ _) spelled hpower
    have hexponent : (([d].length : Nat) : Int) + e - 1 - (([] : List Char).length : Nat) = e := by
      simp
    rwa [hexponent] at hdecimal
  | d :: d' :: rest, _ =>
    have hdecimal := IsDecimal.intro signed (.pointed [d] (d' :: rest)) (List.cons_ne_nil _ _)
      spelled hpower
    have hexponent : (((d :: d' :: rest).length : Nat) : Int) + e - 1 -
        ((d' :: rest).length : Nat) = e := by
      rw [List.length_cons]
      omega
    rwa [hexponent] at hdecimal

end Notations

/-- A number is read from its text, whether or not it is written with an exponent. -/
theorem ofDecimalText?_toExponentText (style : ExponentStyle) (negative : Bool) (m : Magnitude) :
    ofDecimalText? ((Number.finite negative m).toExponentText style).toList =
      some (.finite negative m) := by
  have signed := isSign_signText negative
  by_cases hzero : m.units = 0
  · have hdigit : Spells 10 ['0'] 0 := spells_zeros (by decide) 1
    have hdecimal := isDecimal_positional_of_nonneg signed hdigit (Int.le_refl 0)
    have hm : m = ⟨0, representable_zero⟩ := by
      cases m
      cases hzero
      rfl
    unfold toExponentText
    dsimp only
    rw [if_pos hzero, String.toList_append]
    exact (ofDecimalText?_of_isDecimal hdecimal).trans (by rw [Nat.zero_mul, hm]; rfl)
  · have hspells : Spells 10 (Nat.toDigits 10 (shortest .toEven m.units).digits)
        (shortest .toEven m.units).digits := spells_toDigits (by decide) _
    have hshortest := ofDecimal_shortest .toEven negative hzero
    unfold toExponentText
    dsimp only
    rw [if_neg hzero, String.toList_append, String.toList_ofList]
    generalize shortest .toEven m.units = d at hspells hshortest
    split
    · split
      · rename_i he
        have hexponent : -1 + ((d.exponent.toNat + 1 : Nat) : Int) = d.exponent := by omega
        rw [ofDecimalText?_of_isDecimal (isDecimal_positional_of_nonneg signed hspells he),
          ofDecimal_mul_pow, hexponent, hshortest]
      · rename_i he
        rw [List.append_nil, ofDecimalText?_of_isDecimal
          (isDecimal_positional_of_neg signed Nat.toDigits_ne_nil hspells (by omega)), hshortest]
    · rw [ofDecimalText?_of_isDecimal
        (isDecimal_scientific style.plusInExponent signed Nat.toDigits_ne_nil hspells), hshortest]

end Conform.Number
