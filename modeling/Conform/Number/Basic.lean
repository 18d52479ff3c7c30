/-! Numbers of documents: binary64 values as exact multiples of the least positive one. -/

namespace Conform

namespace Magnitude

/-- The gap between neighbouring magnitudes at `units`: 53 significant bits are kept. -/
def spacing (units : Nat) : Nat := Nat.pow 2 (units.log2 - 52)

def limit : Nat := Nat.pow 2 2098

/-- A count of units is a finite binary64 magnitude when it lies on the grid below the limit. -/
def Representable (units : Nat) : Prop := spacing units ∣ units ∧ units < limit

instance (units : Nat) : Decidable (Representable units) :=
  inferInstanceAs (Decidable (_ ∧ _))

/-- The grid point nearest to `num / den` units; a tie goes to the even multiple of the gap. -/
def nearest (num den : Nat) : Nat :=
  let gap := spacing (num / den)
  let quotient := num / (den * gap)
  let rest := num % (den * gap)
  let roundUp := den * gap < 2 * rest ∨ (den * gap = 2 * rest ∧ quotient % 2 = 1)
  (if roundUp then quotient + 1 else quotient) * gap

theorem limit_pos : 0 < limit := by
  unfold limit
  exact Nat.two_pow_pos 2098

theorem representable_zero : Representable 0 := ⟨Nat.dvd_zero _, limit_pos⟩

theorem spacing_pos (units : Nat) : 0 < spacing units := Nat.two_pow_pos _

/-- Below 2 ^ 53 units every count is on the grid. -/
theorem spacing_eq_one {units : Nat} (h : units < Nat.pow 2 53) : spacing units = 1 := by
  have : units.log2 ≤ 52 := by
    by_cases h0 : units = 0
    · subst h0; decide
    · have := (Nat.log2_lt h0).2 h; omega
  simp [spacing, Nat.sub_eq_zero_of_le this]

/-- A significand of 53 bits at its gap is on the grid. -/
theorem spacing_dvd_mul {k g : Nat} (hk : k ≤ Nat.pow 2 53) (hg : g ≠ 0 → Nat.pow 2 52 ≤ k) :
    spacing (k * Nat.pow 2 g) ∣ k * Nat.pow 2 g := by
  change k ≤ 2 ^ 53 at hk
  change g ≠ 0 → 2 ^ 52 ≤ k at hg
  change 2 ^ ((k * 2 ^ g).log2 - 52) ∣ k * 2 ^ g
  by_cases h0 : k = 0
  · subst h0; simp
  have hne : k * 2 ^ g ≠ 0 := Nat.mul_ne_zero h0 (Nat.ne_of_gt (Nat.two_pow_pos g))
  by_cases hk' : k = 2 ^ 53
  · subst hk'
    have : 2 ^ ((2 ^ 53 * 2 ^ g).log2 - 52) = 2 ^ (g + 1) := by
      rw [← Nat.pow_add, Nat.log2_two_pow]; congr 1; omega
    rw [this, ← Nat.pow_add]
    exact Nat.pow_dvd_pow 2 (by omega)
  · have hlt : k < 2 ^ 53 := Nat.lt_of_le_of_ne hk hk'
    have hbound : (k * 2 ^ g).log2 < 53 + g := by
      rw [Nat.log2_lt hne, Nat.pow_add]
      exact Nat.mul_lt_mul_of_pos_right hlt (Nat.two_pow_pos g)
    exact Nat.dvd_trans (Nat.pow_dvd_pow 2 (by omega)) (Nat.dvd_mul_left (2 ^ g) k)

/-- Rounding lands on the grid. -/
theorem spacing_nearest_dvd (num den : Nat) : spacing (nearest num den) ∣ nearest num den := by
  by_cases hden : den = 0
  · subst hden
    simp only [nearest, Nat.div_zero, Nat.zero_mul, Nat.mod_zero]
    split <;> simp [spacing, Nat.log2_def]
  let quotient := num / (den * spacing (num / den))
  have hupper : quotient < Nat.pow 2 53 := by
    rw [show quotient = num / den / spacing (num / den) from (Nat.div_div_eq_div_mul ..).symm]
    rw [Nat.div_lt_iff_lt_mul (spacing_pos _)]
    change num / den < 2 ^ 53 * 2 ^ ((num / den).log2 - 52)
    rw [← Nat.pow_add]
    exact Nat.lt_of_lt_of_le Nat.lt_log2_self (Nat.pow_le_pow_right (by decide) (by omega))
  have hlower : (num / den).log2 - 52 ≠ 0 → Nat.pow 2 52 ≤ quotient := by
    intro hg
    rw [show quotient = num / den / spacing (num / den) from (Nat.div_div_eq_div_mul ..).symm]
    rw [Nat.le_div_iff_mul_le (spacing_pos _)]
    change 2 ^ 52 * 2 ^ ((num / den).log2 - 52) ≤ num / den
    rw [← Nat.pow_add]
    have hpos : num / den ≠ 0 := by
      intro h; rw [h] at hg; exact hg (by decide)
    exact Nat.le_trans (Nat.pow_le_pow_right (by decide) (by omega)) (Nat.log2_self_le hpos)
  simp only [nearest]
  split
  · exact spacing_dvd_mul (by omega) (fun h => Nat.le_succ_of_le (hlower h))
  · exact spacing_dvd_mul (Nat.le_of_lt hupper) hlower

end Magnitude

/-- A finite binary64 magnitude, counted in units of 2 ^ -1074. -/
structure Magnitude where
  units : Nat
  representable : Magnitude.Representable units
  deriving DecidableEq

/-- A binary64 number. Zero has both signs; all NaNs are one. -/
inductive Number where
  | nan
  | infinite (negative : Bool)
  | finite (negative : Bool) (magnitude : Magnitude)
  deriving DecidableEq

namespace Number

def one : Nat := Nat.pow 2 1074

def signedZero (negative : Bool) : Number := .finite negative ⟨0, Magnitude.representable_zero⟩

def zero : Number := signedZero false

instance : Inhabited Number := ⟨zero⟩

def ofUnits (negative : Bool) (num den : Nat) : Number :=
  -- What lies past the greatest magnitude is an infinity.
  if h : Magnitude.nearest num den < Magnitude.limit then
    .finite negative ⟨Magnitude.nearest num den, Magnitude.spacing_nearest_dvd num den, h⟩
  else
    .infinite negative

def ofNat (n : Nat) : Number := ofUnits false (n * one) 1

def ofInt (i : Int) : Number := ofUnits (decide (i < 0)) (i.natAbs * one) 1

def ofDecimal (negative : Bool) (digits : Nat) (exponent : Int) : Number :=
  if digits = 0 then signedZero negative
  else if 400 < exponent then .infinite negative
  else if exponent + digits.log2 < -400 then signedZero negative
  else ofUnits negative (digits * Nat.pow 10 exponent.toNat * one)
    (Nat.pow 10 (-exponent).toNat)

def mul : Number → Number → Number
  | .finite s m, .finite t n => ofUnits (s != t) (m.units * n.units) one
  | .infinite s, .finite t n | .finite t n, .infinite s =>
    if n.units = 0 then .nan else .infinite (s != t)
  | .infinite s, .infinite t => .infinite (s != t)
  | _, _ => .nan

def div : Number → Number → Number
  | .finite s m, .finite t n =>
    if n.units = 0 then (if m.units = 0 then .nan else .infinite (s != t))
    else ofUnits (s != t) (m.units * one) n.units
  | .infinite s, .finite t _ => .infinite (s != t)
  | .finite s _, .infinite t => signedZero (s != t)
  | _, _ => .nan

def neg : Number → Number
  | .nan => .nan
  | .infinite s => .infinite !s
  | .finite s m => .finite (!s) m

def isFinite : Number → Bool
  | .finite .. => true
  | _ => false

def isIntegral : Number → Bool
  -- NaN and the infinities have no fractional part to be zero.
  | .finite _ m => m.units % one == 0
  | _ => false

def signedUnits (negative : Bool) (m : Magnitude) : Int :=
  if negative then -(m.units : Int) else m.units

/-- Numeric equality: the zeros are equal, NaN equals nothing. -/
def eqv : Number → Number → Bool
  | .infinite s, .infinite t => s == t
  | .finite s m, .finite t n => signedUnits s m == signedUnits t n
  | _, _ => false

def lt : Number → Number → Bool
  -- NaN is below and above nothing.
  | .nan, _ | _, .nan => false
  | .infinite s, .infinite t => s && !t
  | .infinite s, .finite .. => s
  | .finite .., .infinite t => !t
  | .finite s m, .finite t n => decide (signedUnits s m < signedUnits t n)

/-- Integral and below 2 ^ 53 in magnitude, where neighbours are at most one apart. -/
def isExactInteger : Number → Bool
  | .finite _ m => m.units % one == 0 && decide (m.units < Nat.pow 2 53 * one)
  | _ => false

def truncate : Number → Int
  | .finite s m => if s then -(m.units / one : Nat) else (m.units / one : Nat)
  | _ => 0

def maxLength : Nat := Nat.pow 2 64 - 1

/-- The integer part as a length: negative numbers give zero, great ones the greatest length. -/
def toLength : Number → Nat
  | .nan | .infinite true | .finite true _ => 0
  | .infinite false => maxLength
  | .finite false m => min (m.units / one) maxLength

/-- One digit of positional notation: the product is rounded, then the sum. -/
def appendDigit (radix : Nat) (n : Number) (digit : Nat) : Number :=
  match n with
  | .finite s m =>
    match ofUnits s (m.units * radix) 1 with
    | .finite s m => ofUnits s (m.units + digit * one) 1
    | other => other
  | other => other

end Number

end Conform
