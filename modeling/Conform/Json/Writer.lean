import Conform.Document.Basic

/-! JSON text of documents, compact and indented. -/

namespace Conform.Json

/-- Floats have a plus sign in positive exponents; what is not finite is null. -/
def numberStyle : Number.ExponentStyle :=
  { plusInExponent := true, nan := "null", infinity := "null", negativeInfinity := "null" }

def hexPair (n : Nat) : List Char := [Nat.digitChar (n / 16), Nat.digitChar (n % 16)]

def escape (c : Char) : List Char :=
  match c with
  | '"' => ['\\', '"']
  | '\\' => ['\\', '\\']
  | '\n' => ['\\', 'n']
  | '\r' => ['\\', 'r']
  | '\t' => ['\\', 't']
  | '\x08' => ['\\', 'b']
  | '\x0C' => ['\\', 'f']
  | c => if c.toNat < 0x20 then ['\\', 'u', '0', '0'] ++ hexPair c.toNat else [c]

def writeString (s : String) : List Char := '"' :: (s.toList.flatMap escape ++ ['"'])

def join (separator : List Char) : List (List Char) → List Char
  | [] => []
  | [text] => text
  | text :: rest => text ++ separator ++ join separator rest

def writeScalar : Document → List Char
  | .null => "null".toList
  | .bool b => (if b then "true" else "false").toList
  | .integer i => (toString i).toList
  | .real n => (n.toExponentText numberStyle).toList
  | .string s => writeString s
  | .list _ | .map _ => []

mutual

def writeChars : Document → List Char
  | .list items => '[' :: (join [','] (writeItems items) ++ [']'])
  | .map pairs => '{' :: (join [','] (writePairs pairs) ++ ['}'])
  | .null => writeScalar .null
  | .bool b => writeScalar (.bool b)
  | .integer i => writeScalar (.integer i)
  | .real n => writeScalar (.real n)
  | .string s => writeString s

def writeItems : List Document → List (List Char)
  | [] => []
  | item :: rest => writeChars item :: writeItems rest

def writePairs : List (String × Document) → List (List Char)
  | [] => []
  | (key, value) :: rest => (writeString key ++ ':' :: writeChars value) :: writePairs rest

end

def write (d : Document) : String := String.ofList (writeChars d)

def lineBreak (level : Nat) : List Char := '\n' :: List.replicate (2 * level) ' '

/-- Brackets around items, each on a line of its own; none stand in brackets that touch. -/
def indented (opening closing : Char) (level : Nat) (items : List (List Char)) : List Char :=
  if items.isEmpty then [opening, closing]
  else
    opening :: (lineBreak (level + 1) ++ join (',' :: lineBreak (level + 1)) items ++
      lineBreak level ++ [closing])

mutual

def prettyChars (level : Nat) : Document → List Char
  | .list items => indented '[' ']' level (prettyItems (level + 1) items)
  | .map pairs => indented '{' '}' level (prettyPairs (level + 1) pairs)
  | .null => writeScalar .null
  | .bool b => writeScalar (.bool b)
  | .integer i => writeScalar (.integer i)
  | .real n => writeScalar (.real n)
  | .string s => writeString s

def prettyItems (level : Nat) : List Document → List (List Char)
  | [] => []
  | item :: rest => prettyChars level item :: prettyItems level rest

def prettyPairs (level : Nat) : List (String × Document) → List (List Char)
  | [] => []
  | (key, value) :: rest =>
    (writeString key ++ ':' :: ' ' :: prettyChars level value) :: prettyPairs level rest

end

def pretty (d : Document) : String := String.ofList (prettyChars 0 d)

end Conform.Json
