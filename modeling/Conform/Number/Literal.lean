import Conform.Number.Decimal
import Conform.Text.Blank

/-! Numbers written as strings in documents. -/

namespace Conform.Number

def radixOf? : List Char → Option (Nat × List Char)
  | '0' :: 'x' :: digits | '0' :: 'X' :: digits => some (16, digits)
  | '0' :: 'o' :: digits | '0' :: 'O' :: digits => some (8, digits)
  | '0' :: 'b' :: digits | '0' :: 'B' :: digits => some (2, digits)
  | _ => none

/-- Reads a literal between white space: an integer behind a radix mark, without a sign, or a
decimal. What is too great for a finite number is no literal. -/
def ofLiteral? (text : String) : Option Number :=
  let chars := Text.trim text.toList
  let n :=
    match radixOf? chars with
    | some (radix, digits) => ofRadixDigits? radix digits
    | none => ofDecimalText? chars
  n.filter isFinite

end Conform.Number
