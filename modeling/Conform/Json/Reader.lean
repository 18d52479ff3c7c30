import Conform.Document.Basic

/-! Reading JSON text. -/

namespace Conform.Json

inductive Fault where
  | endOfText
  | unexpectedCharacter
  | malformedNumber
  | numberOutOfRange
  | malformedString
  | nestedTooDeep
  | trailingCharacters
  deriving DecidableEq

def maxNesting : Nat := 127

def isBlank (c : Char) : Bool := c == ' ' || c == '\n' || c == '\t' || c == '\r'

def skipBlanks (text : List Char) : List Char := text.dropWhile isBlank

def hexUnit? (a b c d : Char) : Option Nat := Number.radixNat? 16 [a, b, c, d]

def unescape? : Char → Option Char
  | '"' => some '"'
  | '\\' => some '\\'
  | '/' => some '/'
  | 'b' => some '\x08'
  | 'f' => some '\x0C'
  | 'n' => some '\n'
  | 'r' => some '\r'
  | 't' => some '\t'
  | _ => none

def consRead (c : Char) :
    Except Fault (List Char × List Char) → Except Fault (List Char × List Char)
  | .ok (cs, rest) => .ok (c :: cs, rest)
  | .error e => .error e

/-- Reads a string behind its opening quote. Controls need escapes, and code points beyond the
first plane are two escapes, neither of which may stand alone: `high` is the first of them. -/
def readStringFrom (high : Option Nat) : List Char → Except Fault (List Char × List Char)
  | [] => .error .endOfText
  | '\\' :: 'u' :: a :: b :: c :: d :: rest =>
    match hexUnit? a b c d, high with
    | none, _ => .error .malformedString
    | some unit, none =>
      if 0xD800 ≤ unit ∧ unit < 0xDC00 then readStringFrom (some unit) rest
      else if 0xDC00 ≤ unit ∧ unit < 0xE000 then .error .malformedString
      else consRead (Char.ofNat unit) (readStringFrom none rest)
    | some unit, some high =>
      if 0xDC00 ≤ unit ∧ unit < 0xE000 then
        consRead (Char.ofNat (0x10000 + (high - 0xD800) * 0x400 + (unit - 0xDC00)))
          (readStringFrom none rest)
      else .error .malformedString
  | c :: rest =>
    if high.isSome then .error .malformedString
    else if c = '"' then .ok ([], rest)
    else if c = '\\' then
      match rest with
      | d :: rest =>
        match unescape? d with
        | some e => consRead e (readStringFrom none rest)
        | none => .error .malformedString
      | [] => .error .endOfText
    else if c.toNat < 0x20 then .error .malformedString
    else consRead c (readStringFrom none rest)
  termination_by structural text => text

def readString (text : List Char) : Except Fault (List Char × List Char) := readStringFrom none text

/-- Appends digits as long as the number stays below 2 ^ 64, and counts the others. -/
def takeSignificand : Nat → List Char → Nat × Nat
  | significand, [] => (significand, 0)
  | significand, c :: rest =>
    let next := 10 * significand + (c.toNat - '0'.toNat)
    if next < Nat.pow 2 64 then takeSignificand next rest else (significand, rest.length + 1)

/-- Scales by a power of ten: the significand is rounded, then each product or quotient. Powers
past 10 ^ 308 are taken in steps. -/
def scale : Nat → Number → Int → Except Fault Number
  | 0, n, _ => .ok n
  | fuel + 1, n, exponent =>
    if exponent.natAbs ≤ 308 then
      let power := Number.ofDecimal false 1 exponent.natAbs
      if 0 ≤ exponent then
        let product := n.mul power
        if product.isFinite then .ok product else .error .numberOutOfRange
      else .ok (n.div power)
    else if n.eqv .zero then .ok n
    else if 0 ≤ exponent then .error .numberOutOfRange
    else scale fuel (n.div (.ofDecimal false 1 308)) (exponent + 308)

def floatOf (negative : Bool) (whole fraction : List Char) (exponent : Int) :
    Except Fault Number := do
  -- Digits past 2 ^ 64 are dropped.
  let (significand, dropped) := takeSignificand 0 whole
  let (significand, kept) :=
    if dropped = 0 then
      let (significand, lost) := takeSignificand significand fraction
      (significand, fraction.length - lost)
    else (significand, 0)
  let power : Int := exponent + dropped - kept
  if Nat.pow 2 31 ≤ exponent.natAbs then
    if significand ≠ 0 ∧ 0 < exponent then .error .numberOutOfRange
    else .ok (Number.signedZero negative)
  else
    let n ← scale 2000 (Number.ofNat significand) power
    .ok (if negative then n.neg else n)

def readExponent (text : List Char) : Except Fault (Option Int × List Char) :=
  match text with
  | e :: rest =>
    if e = 'e' ∨ e = 'E' then
      let (negative, rest) := Number.splitSign rest
      let digits := rest.takeWhile Number.isDecimalDigit
      if digits.isEmpty then .error .malformedNumber
      else
        let n : Int := Number.digitsToNat digits
        .ok (some (if negative then -n else n), rest.dropWhile Number.isDecimalDigit)
    else .ok (none, e :: rest)
  | [] => .ok (none, [])

def readFraction (text : List Char) : Except Fault (Option (List Char) × List Char) :=
  match text with
  | '.' :: rest =>
    let digits := rest.takeWhile Number.isDecimalDigit
    if digits.isEmpty then .error .malformedNumber
    else .ok (some digits, rest.dropWhile Number.isDecimalDigit)
  | rest => .ok (none, rest)

/-- Integers that fit 64 bits are kept; greater ones, and minus zero, are rounded. -/
def integerOf (negative : Bool) (digits : List Char) : Except Fault Document :=
  let n := Number.digitsToNat digits
  if negative then
    if n = 0 then .ok (.real (.signedZero true))
    else if n ≤ Nat.pow 2 63 then .ok (.integer (-(n : Int)))
    else if n < Nat.pow 2 64 then .ok (.real (Number.ofNat n).neg)
    else (floatOf true digits [] 0).map .real
  else if n < Nat.pow 2 64 then .ok (.integer n)
  else (floatOf false digits [] 0).map .real

def readNumber (text : List Char) : Except Fault (Document × List Char) := do
  -- No digit may follow a leading zero.
  let (negative, text) :=
    match text with
    | '-' :: rest => (true, rest)
    | rest => (false, rest)
  let digits := text.takeWhile Number.isDecimalDigit
  let rest := text.dropWhile Number.isDecimalDigit
  match digits with
  | [] => .error .malformedNumber
  | '0' :: _ :: _ => .error .malformedNumber
  | digits =>
    let (fraction, rest) ← readFraction rest
    let (exponent, rest) ← readExponent rest
    match fraction, exponent with
    | none, none => .ok (← integerOf negative digits, rest)
    | fraction, exponent =>
      .ok (.real (← floatOf negative digits (fraction.getD []) (exponent.getD 0)), rest)

def readWord (word : String) (meaning : Document) (text : List Char) :
    Except Fault (Document × List Char) :=
  if word.toList.isPrefixOf text then .ok (meaning, text.drop word.length)
  else .error .unexpectedCharacter

mutual

def readValue : Nat → Nat → List Char → Except Fault (Document × List Char)
  -- The depth counts the containers that may still be opened.
  | 0, _, _ => .error .endOfText
  | fuel + 1, depth, text =>
    match skipBlanks text with
    | [] => .error .endOfText
    | '"' :: rest => (readString rest).map fun (cs, rest) => (.string (String.ofList cs), rest)
    | '[' :: rest =>
      match depth with
      | 0 => .error .nestedTooDeep
      | depth + 1 =>
        match skipBlanks rest with
        | ']' :: rest => .ok (.list [], rest)
        | rest => (readItems fuel depth rest).map fun (items, rest) => (.list items, rest)
    | '{' :: rest =>
      match depth with
      | 0 => .error .nestedTooDeep
      | depth + 1 =>
        match skipBlanks rest with
        | '}' :: rest => .ok (.map [], rest)
        | rest => (readPairs fuel depth rest).map fun (pairs, rest) => (.map pairs, rest)
    | 'n' :: rest => readWord "null" .null ('n' :: rest)
    | 't' :: rest => readWord "true" (.bool true) ('t' :: rest)
    | 'f' :: rest => readWord "false" (.bool false) ('f' :: rest)
    | rest => readNumber rest

def readItems : Nat → Nat → List Char → Except Fault (List Document × List Char)
  | 0, _, _ => .error .endOfText
  | fuel + 1, depth, text =>
    match readValue fuel depth text with
    | .error e => .error e
    | .ok (item, rest) =>
      match skipBlanks rest with
      | ',' :: rest => (readItems fuel depth rest).map fun (items, rest) => (item :: items, rest)
      | ']' :: rest => .ok ([item], rest)
      | [] => .error .endOfText
      | _ => .error .unexpectedCharacter

def readPairs : Nat → Nat → List Char → Except Fault (List (String × Document) × List Char)
  | 0, _, _ => .error .endOfText
  | fuel + 1, depth, text =>
    match skipBlanks text with
    | '"' :: rest =>
      match readString rest with
      | .error e => .error e
      | .ok (key, rest) =>
        match skipBlanks rest with
        | ':' :: rest =>
          match readValue fuel depth rest with
          | .error e => .error e
          | .ok (value, rest) =>
            match skipBlanks rest with
            | ',' :: rest =>
              (readPairs fuel depth rest).map fun (pairs, rest) =>
                ((String.ofList key, value) :: pairs, rest)
            | '}' :: rest => .ok ([(String.ofList key, value)], rest)
            | [] => .error .endOfText
            | _ => .error .unexpectedCharacter
        | _ => .error .unexpectedCharacter
    | _ => .error .unexpectedCharacter

end

def read (text : String) : Except Fault Document := do
  let chars := text.toList
  let (d, rest) ← readValue (2 * chars.length + 2) maxNesting chars
  if (skipBlanks rest).isEmpty then .ok d else .error .trailingCharacters

end Conform.Json
