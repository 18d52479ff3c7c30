import Conform.Number.Text

/-! What plain scalars mean, and how numbers are written as plain scalars. -/

namespace Conform.Yaml.Plain

def numberStyle : Number.ExponentStyle :=
  { plusInExponent := false, nan := ".nan", infinity := ".inf", negativeInfinity := "-.inf" }

def isNull (text : String) : Bool :=
  text == "null" || text == "Null" || text == "NULL" || text == "~"

def bool? (text : String) : Option Bool :=
  if text == "true" || text == "True" || text == "TRUE" then some true
  else if text == "false" || text == "False" || text == "FALSE" then some false
  else none

def isZeroPadded (text : List Char) : Bool :=
  -- Digits behind a superfluous zero are no number.
  match (Number.splitSign text).2 with
  | '0' :: digits => !digits.isEmpty && digits.all Number.isDecimalDigit
  | _ => false

def digits? : List Char → Option Nat
  | '0' :: 'x' :: digits => Number.radixNat? 16 digits
  | '0' :: 'o' :: digits => Number.radixNat? 8 digits
  | '0' :: 'b' :: digits => Number.radixNat? 2 digits
  | digits => if isZeroPadded digits then none else Number.radixNat? 10 digits

def int? : List Char → Option Int
  | '-' :: rest => (digits? rest).map fun n => -(n : Int)
  | '+' :: rest => (digits? rest).map fun n => n
  | rest => (digits? rest).map fun n => n

def fitsWord (i : Int) : Bool := decide (-Nat.pow 2 63 ≤ i) && decide (i < Nat.pow 2 64)

def fitsDoubleWord (i : Int) : Bool := decide (-Nat.pow 2 127 ≤ i) && decide (i < Nat.pow 2 128)

def unsigned (text : List Char) : List Char :=
  -- A plus sign before another sign is not taken off.
  match text with
  | '+' :: rest => rest
  | rest => rest

def float? (text : List Char) : Option Number :=
  let body := unsigned text
  if text.head? == some '+' && (body.head? == some '+' || body.head? == some '-') then none
  else if [".inf", ".Inf", ".INF"].contains (String.ofList body) then some (.infinite false)
  else if ["-.inf", "-.Inf", "-.INF"].contains (String.ofList text) then some (.infinite true)
  else if [".nan", ".NaN", ".NAN"].contains (String.ofList text) then some .nan
  else (Number.ofDecimalText? body).filter Number.isFinite

inductive Meaning where
  | null
  | bool (b : Bool)
  | integer (i : Int)
  /-- An integer of more than 64 bits. -/
  | greatInteger (i : Int)
  | float (n : Number)
  | string

/-- Nothing, a truth value, a number, and otherwise text. Integers past 128 bits are floats. -/
def meaning (text : String) : Meaning :=
  let chars := text.toList
  if chars.isEmpty || isNull text then .null
  else
    match bool? text with
    | some b => .bool b
    | none =>
      match (int? chars).filter fitsDoubleWord with
      | some i => if fitsWord i then .integer i else .greatInteger i
      | none =>
        if isZeroPadded chars then .string
        else
          match float? chars with
          | some n => .float n
          | none => .string

def isText (text : String) : Bool :=
  match meaning text with
  | .string => true
  | _ => false

end Conform.Yaml.Plain
