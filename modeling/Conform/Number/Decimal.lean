import Conform.Number.Basic

/-! Numbers written in digits: decimal notation, and integers of another radix. -/

namespace Conform.Number

def digitValue? (radix : Nat) (c : Char) : Option Nat :=
  let value :=
    if '0' ≤ c ∧ c ≤ '9' then some (c.toNat - '0'.toNat)
    else if 'a' ≤ c ∧ c ≤ 'f' then some (c.toNat - 'a'.toNat + 10)
    else if 'A' ≤ c ∧ c ≤ 'F' then some (c.toNat - 'A'.toNat + 10)
    else none
  value.filter (· < radix)

def isDecimalDigit (c : Char) : Bool := decide ('0' ≤ c) && decide (c ≤ '9')

def digitsToNat (digits : List Char) : Nat :=
  digits.foldl (fun n c => 10 * n + (c.toNat - '0'.toNat)) 0

def radixNat? (radix : Nat) : List Char → Option Nat
  | [] => none
  | digits => digits.foldlM (fun n c => (digitValue? radix c).map (radix * n + ·)) 0

def splitSign : List Char → Bool × List Char
  | '-' :: rest => (true, rest)
  | '+' :: rest => (false, rest)
  | cs => (false, cs)

def exponent? : List Char → Option Int
  | [] => some 0
  | e :: rest =>
    if e = 'e' ∨ e = 'E' then
      let (negative, digits) := splitSign rest
      if digits ≠ [] ∧ digits.all isDecimalDigit then
        let n : Int := digitsToNat digits
        some (if negative then -n else n)
      else none
    else none

/-- Reads an optional sign, a mantissa with at least one digit around an optional point, and an
optional exponent, as the nearest number. -/
def ofDecimalText? (text : List Char) : Option Number :=
  let (negative, unsigned) := splitSign text
  let whole := unsigned.takeWhile isDecimalDigit
  let afterWhole := unsigned.dropWhile isDecimalDigit
  let (fraction, tail) :=
    match afterWhole with
    | '.' :: rest => (rest.takeWhile isDecimalDigit, rest.dropWhile isDecimalDigit)
    | rest => ([], rest)
  if whole ++ fraction = [] then none
  else
    (exponent? tail).map fun e =>
      ofDecimal negative (digitsToNat (whole ++ fraction)) (e - fraction.length)

/-- Reads a decimal, or one of the words `nan`, `inf` and `infinity` in any letter case. -/
def ofText? (text : List Char) : Option Number :=
  let (negative, unsigned) := splitSign text
  match String.ofList (unsigned.map Char.toLower) with
  | "nan" => some .nan
  | "inf" | "infinity" => some (.infinite negative)
  | _ => ofDecimalText? text

/-- Reads digits of a radix from the left, rounding at every digit. -/
def ofRadixDigits? (radix : Nat) : List Char → Option Number
  | [] => none
  | digits => digits.foldlM (fun n c => (digitValue? radix c).map (appendDigit radix n ·)) zero

def intOfText? (text : List Char) : Option Int :=
  let (negative, digits) := splitSign text
  (radixNat? 10 digits).map fun n => if negative then -(n : Int) else n

end Conform.Number
