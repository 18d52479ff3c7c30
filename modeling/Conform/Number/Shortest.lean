import Conform.Number.Basic

/-! The shortest decimal that reads back: fewest digits first, then nearest to the value. -/

namespace Conform.Number

inductive Tie where
  | toEven
  | up
  deriving DecidableEq

/-- A positive decimal `digits * 10 ^ exponent`. -/
structure Decimal where
  digits : Nat
  exponent : Int
  deriving DecidableEq

namespace Decimal

def normalize : Nat → Decimal → Decimal
  | 0, d => d
  | fuel + 1, d =>
    if d.digits ≠ 0 ∧ d.digits % 10 = 0 then normalize fuel ⟨d.digits / 10, d.exponent + 1⟩ else d

end Decimal

/-- Whether a decimal lies among the reals that round to `units`: the interval reaches half way to
both neighbours, and holds its ends when the significand is even. -/
def readsBack (units : Nat) (d : Decimal) : Bool :=
  let gap := Magnitude.spacing units
  let significand := units / gap
  let below := if significand = Nat.pow 2 52 ∧ gap ≠ 1 then gap else 2 * gap
  let scaled := 4 * (d.digits * Nat.pow 10 d.exponent.toNat * one)
  let low := (4 * units - below) * Nat.pow 10 (-d.exponent).toNat
  let high := (4 * units + 2 * gap) * Nat.pow 10 (-d.exponent).toNat
  if significand % 2 = 0 then decide (low ≤ scaled) && decide (scaled ≤ high)
  else decide (low < scaled) && decide (scaled < high)

def digitCount (n : Nat) : Nat := (Nat.toDigits 10 n).length

def pointPosition (units : Nat) : Int :=
  (digitCount (units * Nat.pow 10 330 / one) : Int) - 330

def onGrid? (tie : Tie) (units : Nat) (exponent : Int) : Option Decimal :=
  let num := units * Nat.pow 10 (-exponent).toNat
  let den := one * Nat.pow 10 exponent.toNat
  let floor := num / den
  let lower : Decimal := ⟨floor, exponent⟩
  let upper : Decimal := ⟨floor + 1, exponent⟩
  match readsBack units lower, readsBack units upper with
  | true, true =>
    let twice := 2 * (num % den)
    let goUp := den < twice ∨ (den = twice ∧ (tie = .up ∨ floor % 2 = 1))
    some (if goUp then upper else lower)
  | true, false => some lower
  | false, true => some upper
  | false, false => none

/-- Tries grids of 1 to 17 digits; seventeen digits always suffice. -/
def shortest (tie : Tie) (units : Nat) : Decimal :=
  let point := pointPosition units
  let found := (List.range 17).findSome? fun (n : Nat) => onGrid? tie units (point - (n + 1))
  (found.getD ⟨units, 0⟩).normalize 400

end Conform.Number
