import Conform.Yaml.Scalar
import Conform.Yaml.Token

/-! Reading tags and directives. -/

namespace Conform.Yaml.Tag

def isTagChar (verbatim : Bool) (c : Char) : Bool :=
  -- Between angle brackets, and in directives, flow indicators count.
  isWord c || ";/?:@&=+$.%!~*'()".toList.contains c || (verbatim && ",[]".toList.contains c)

def octet? : List Char → Option (Nat × List Char)
  | '%' :: a :: b :: rest => (Number.radixNat? 16 [a, b]).map (·, rest)
  | _ => none

def readOctets : Nat → List Char → Option (List UInt8 × List Char)
  | 0, text => some ([], text)
  | n + 1, text => do
    let (octet, rest) ← octet? text
    let (octets, rest) ← readOctets n rest
    return (octet.toUInt8 :: octets, rest)

def octetCount (first : Nat) : Nat :=
  if first < 0x80 then 1 else if first < 0xE0 then 2 else if first < 0xF0 then 3 else 4

def readEscaped? (text : List Char) : Option (List Char × List Char) := do
  let (first, _) ← octet? text
  let (octets, rest) ← readOctets (octetCount first) text
  let decoded ← String.fromUTF8? ⟨octets.toArray⟩
  return (decoded.toList, rest)

def readChars (verbatim : Bool) : Nat → List Char → Except Fault (List Char × List Char)
  | 0, text => .ok ([], text)
  | _, [] => .ok ([], [])
  | fuel + 1, c :: rest =>
    if c = '%' then
      match readEscaped? (c :: rest) with
      | some (decoded, rest) => Scalar.prepend decoded (readChars verbatim fuel rest)
      | none => .error .malformedTag
    else if isTagChar verbatim c then Scalar.prepend [c] (readChars verbatim fuel rest)
    else .ok ([], c :: rest)

def readName (verbatim : Bool) (text : List Char) : Except Fault (List Char × List Char) :=
  match readChars verbatim text.length text with
  | .ok ([], _) => .error .malformedTag
  | r => r

def readHandle : List Char → Except Fault (List Char × List Char)
  | '!' :: rest =>
    let word := '!' :: rest.takeWhile isWord
    match rest.dropWhile isWord with
    | '!' :: rest => .ok (word ++ ['!'], rest)
    | rest => .ok (word, rest)
  | _ => .error .malformedTag

def isClosed (handle : List Char) : Bool :=
  decide (2 ≤ handle.length) && handle.getLast? == some '!'

/-- Reads a tag: in full between angle brackets, by a handle, or local, where the handle is one
mark. A mark that stands alone is a tag in full. -/
def readTag (text : List Char) : Except Fault (Token × List Char) :=
  match text with
  | '!' :: '<' :: rest => do
    match ← readName true rest with
    | (name, '>' :: rest) => .ok (.tag "" (String.ofList name), rest)
    | _ => .error .malformedTag
  | text => do
    let (handle, rest) ← readHandle text
    if isClosed handle then
      let (name, rest) ← readName false rest
      .ok (.tag (String.ofList handle) (String.ofList name), rest)
    else
      let (name, rest) ← readChars false rest.length rest
      let name := handle.tail ++ name
      if name.isEmpty then .ok (.tag "" "!", rest)
      else .ok (.tag "!" (String.ofList name), rest)

def read (inFlow : Bool) (text : List Char) : Except Fault (Token × List Char) := do
  -- A tag ends a word; within brackets a comma may follow.
  let (tag, rest) ← readTag text
  if endsWord rest || (inFlow && rest.head? == some ',') then .ok (tag, rest)
  else .error .malformedTag

def readVersionPart (text : List Char) : Except Fault (Nat × List Char) :=
  let digits := text.takeWhile Number.isDecimalDigit
  if digits.isEmpty || decide (9 < digits.length) then .error .malformedDirective
  else .ok (Number.digitsToNat digits, text.dropWhile Number.isDecimalDigit)

def readVersion (text : List Char) : Except Fault (Token × List Char) := do
  match ← readVersionPart text with
  | (major, '.' :: rest) =>
    let (minor, rest) ← readVersionPart rest
    .ok (.version major minor, rest)
  | _ => .error .malformedDirective

def readDeclaration (text : List Char) : Except Fault (Token × List Char) := do
  let (handle, rest) ← readHandle text
  if (isClosed handle || handle == ['!']) && (rest.head?.map isBlank).getD false then
    let (expansion, rest) ← readName true (rest.dropWhile isBlank)
    if endsWord rest then .ok (.handle (String.ofList handle) (String.ofList expansion), rest)
    else .error .malformedDirective
  else .error .malformedDirective

def readDirective (text : List Char) : Except Fault (Token × List Char) := do
  let name := String.ofList (text.takeWhile isWord)
  let rest := text.dropWhile isWord
  if !endsWord rest then .error .malformedDirective
  else
    let rest := rest.dropWhile isBlank
    let (directive, rest) ←
      if name = "YAML" then readVersion rest
      else if name = "TAG" then readDeclaration rest
      else .error .malformedDirective
    .ok (directive, ← Scalar.readLineEnd rest)

end Conform.Yaml.Tag
