import Conform.Number.Decimal
import Conform.Number.Shortest

/-! Texts of numbers: positional notation, and notation with an exponent for great and small. -/

namespace Conform.Number

structure ExponentStyle where
  plusInExponent : Bool
  nan : String
  infinity : String
  negativeInfinity : String

def positional (digits : List Char) (exponent : Int) : List Char :=
  let point : Int := digits.length + exponent
  if 0 ≤ exponent then digits ++ List.replicate exponent.toNat '0'
  else if 0 < point then digits.take point.toNat ++ '.' :: digits.drop point.toNat
  else '0' :: '.' :: (List.replicate (-point).toNat '0' ++ digits)

def scientific (plus : Bool) (digits : List Char) (exponent : Int) : List Char :=
  let power : Int := digits.length + exponent - 1
  let mantissa :=
    match digits with
    | [d] => [d]
    | d :: rest => d :: '.' :: rest
    | [] => []
  let sign := if power < 0 then ['-'] else if plus then ['+'] else []
  mantissa ++ 'e' :: (sign ++ Nat.toDigits 10 power.natAbs)

def signText (negative : Bool) : String := if negative then "-" else ""

/-- Positional notation in the fewest digits that read back; ties go up, zero keeps its sign, and
an integral number has no point. Below 2 ^ 53 an integral number reads back from all its digits
only. -/
def toText : Number → String
  | .nan => "NaN"
  | .infinite s => signText s ++ "inf"
  | .finite s m =>
    if (Number.finite s m).isExactInteger then signText s ++ toString (m.units / one)
    else
      let d := shortest .up m.units
      signText s ++ String.ofList (positional (Nat.toDigits 10 d.digits) d.exponent)

/-- The text of a number in a document: positional, and both zeros are `0`. -/
def format (n : Number) : String := if n.eqv zero then "0" else n.toText

/-- Notation with an exponent from 10 ^ 16 on and below 10 ^ -5; other integral numbers end in
`.0`. Ties go to even. -/
def toExponentText (style : ExponentStyle) : Number → String
  | .nan => style.nan
  | .infinite s => if s then style.negativeInfinity else style.infinity
  | .finite s m =>
    if m.units = 0 then signText s ++ "0.0"
    else
      let d := shortest .toEven m.units
      let digits := Nat.toDigits 10 d.digits
      let point : Int := digits.length + d.exponent
      let body :=
        if -5 < point ∧ point ≤ 16 then
          positional digits d.exponent ++ (if 0 ≤ d.exponent then ['.', '0'] else [])
        else scientific style.plusInExponent digits d.exponent
      signText s ++ String.ofList body

end Conform.Number
