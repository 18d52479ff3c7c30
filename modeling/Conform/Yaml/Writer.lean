import Conform.Document.Basic
import Conform.Yaml.Cursor
import Conform.Yaml.Plain
import Conform.Yaml.Token

/-! YAML text of documents, in blocks. -/

namespace Conform.Yaml

namespace Style

/-! ## What the characters of a text allow -/

def isLineEnd (c : Char) : Bool := isBreak c || c == '\r' || c == '\u0085'

def isPrintable (c : Char) : Bool :=
  c != byteOrderMark &&
    (c == '\n' || (0x20 ≤ c.toNat && c.toNat ≤ 0x7E) || (0xA0 ≤ c.toNat && c.toNat ≤ 0xFFFD) ||
      0x10000 ≤ c.toNat)

def hasNeighbours (test : Char → Char → Bool) : List Char → Bool
  | a :: b :: rest => test a b || hasNeighbours test (b :: rest)
  | _ => false

def needsEscapes (text : List Char) : Bool :=
  -- A blank before the end of a line can only be escaped, as well as what does not print.
  text.any (!isPrintable ·) || hasNeighbours (fun a b => a == ' ' && isLineEnd b) text

def hasIndentedLine (text : List Char) : Bool :=
  -- A blank at the beginning of a line would be folded.
  hasNeighbours (fun a b => isLineEnd a && b == ' ') text

def hasIndicator : List Char → Bool
  | [] => false
  | c :: rest =>
    (c == ':' && (endsWord rest || (rest.head?.map isLineEnd).getD false)) ||
      ((isBlank c || isLineEnd c) && rest.head? == some '#') || hasIndicator rest

def beginsOtherwise (text : List Char) : Bool :=
  match text with
  | [] => true
  | c :: rest =>
    "#,[]\x7b\x7d&*!|>'\"%@`".toList.contains c ||
      ((c == '?' || c == '-') && (endsWord rest || (rest.head?.map isLineEnd).getD false)) ||
      "---".toList.isPrefixOf text || "...".toList.isPrefixOf text

def isTight (text : List Char) : Bool :=
  -- Blanks and ends of lines at either end need quotes.
  let outer (c : Option Char) : Bool := (c.map fun c => c == ' ' || isLineEnd c).getD false
  !outer text.head? && !outer text.getLast?

def allowsPlain (text : List Char) : Bool :=
  isTight text && !text.any isLineEnd && !needsEscapes text && !beginsOtherwise text &&
    !hasIndicator text

def allowsSingleQuoted (text : List Char) : Bool := !needsEscapes text && !hasIndentedLine text

def allowsLiteral (text : List Char) : Bool := !needsEscapes text && text.getLast? != some ' '

/-- The style of a text: literal where it has lines, plain where it reads back as text, and quoted
otherwise. -/
def ofText (text : String) : Style :=
  let chars := text.toList
  if chars.contains '\n' then if allowsLiteral chars then .literal else .doubleQuoted
  else if Plain.isText text && !Plain.isZeroPadded chars && allowsPlain chars then .plain
  else if allowsSingleQuoted chars then .singleQuoted
  else .doubleQuoted

end Style

namespace Writer

/-! ## Scalars -/

def blanks (n : Nat) : List Char := List.replicate n ' '

def indentLines (indent : Nat) (write : Char → List Char) (fresh : Bool) : List Char → List Char
  | [] => []
  | c :: rest =>
    if isBreak c then c :: indentLines indent write true rest
    else (if fresh then blanks indent else []) ++ write c ++ indentLines indent write false rest

def singleQuoted (indent : Nat) (text : List Char) : List Char :=
  -- A quote is written twice.
  let body := indentLines indent (fun c => if c = '\'' then ['\'', '\''] else [c]) false text
  let closing := if (text.getLast?.map isBreak).getD false then blanks indent else []
  '\'' :: (body ++ closing ++ ['\''])

def hexDigits : Nat → Nat → List Char
  | 0, _ => []
  | width + 1, n => hexDigits width (n / 16) ++ [(Nat.digitChar (n % 16)).toUpper]

def escape (c : Char) : List Char :=
  match c with
  | '\x00' => ['\\', '0']
  | '\x07' => ['\\', 'a']
  | '\x08' => ['\\', 'b']
  | '\t' => ['\\', 't']
  | '\n' => ['\\', 'n']
  | '\x0B' => ['\\', 'v']
  | '\x0C' => ['\\', 'f']
  | '\r' => ['\\', 'r']
  | '\x1B' => ['\\', 'e']
  | '"' => ['\\', '"']
  | '\\' => ['\\', '\\']
  | '\u0085' => ['\\', 'N']
  | '\u2028' => ['\\', 'L']
  | '\u2029' => ['\\', 'P']
  | c =>
    if Style.isPrintable c then [c]
    else if c.toNat ≤ 0xFF then '\\' :: 'x' :: hexDigits 2 c.toNat
    else if c.toNat ≤ 0xFFFF then '\\' :: 'u' :: hexDigits 4 c.toNat
    else '\\' :: 'U' :: hexDigits 8 c.toNat

def doubleQuoted (text : List Char) : List Char := '"' :: (text.flatMap escape ++ ['"'])

/-- What stands behind the indicator of a literal scalar: the indentation, if the text begins with a
blank or an empty line, and how it ends. -/
def literalHints (text : List Char) : List Char :=
  let indentation :=
    if (text.head?.map fun c => c == ' ' || isBreak c).getD false then ['2'] else []
  let chomping :=
    match text.reverse with
    | last :: before =>
      if !isBreak last then ['-']
      else if (before.head?.map isBreak).getD true then ['+']
      else []
    | [] => ['-']
  indentation ++ chomping

def literal (indent : Nat) (text : List Char) : List Char :=
  '|' :: (literalHints text ++ '\n' :: indentLines indent (fun c => [c]) true text)

def string (indent : Nat) (text : String) : List Char :=
  match Style.ofText text with
  | .plain | .folded => text.toList
  | .singleQuoted => singleQuoted indent text.toList
  | .doubleQuoted => doubleQuoted text.toList
  | .literal => literal indent text.toList

def endLine (text : List Char) : List Char :=
  -- A literal scalar has ended its line.
  if (text.getLast?.map isBreak).getD false then text else text ++ ['\n']

def inline (indent : Nat) : Document → List Char
  | .null => "null".toList
  | .bool b => (if b then "true" else "false").toList
  | .integer i => (toString i).toList
  | .real n => (n.toExponentText Plain.numberStyle).toList
  | .string s => string indent s
  | .list _ => ['[', ']']
  | .map _ => ['\x7b', '\x7d']

/-! ## Collections -/

/-- Whether a key fits in front of its colon: at most 128 bytes on one line. -/
def isSimpleKey (key : String) : Bool :=
  decide (key.utf8ByteSize ≤ 128) && !key.toList.any Style.isLineEnd

mutual

def behindMark (n : Nat) : Document → List Char
  -- A collection begins on the line of the mark.
  | .list (item :: rest) => (items (n + 2) (item :: rest)).drop (n + 1)
  | .map (pair :: rest) => (pairs (n + 2) (pair :: rest)).drop (n + 1)
  | d => ' ' :: endLine (inline (n + 2) d)

/-- A node behind a key at column `n`. Lists are not indented further, mappings are. -/
def behindKey (n : Nat) : Document → List Char
  | .list (item :: rest) => '\n' :: items n (item :: rest)
  | .map (pair :: rest) => '\n' :: pairs (n + 2) (pair :: rest)
  | d => ' ' :: endLine (inline (n + 2) d)

def items (n : Nat) : List Document → List Char
  | [] => []
  | item :: rest => blanks n ++ '-' :: (behindMark n item ++ items n rest)

def pairs (n : Nat) : List (String × Document) → List Char
  -- A key that does not fit stands behind a mark of its own, and so does its value.
  | [] => []
  | (key, value) :: rest =>
    (if isSimpleKey key then blanks n ++ string (n + 2) key ++ ':' :: behindKey n value
      else
        blanks n ++ '?' :: ' ' :: endLine (string (n + 2) key) ++
          (blanks n ++ ':' :: behindMark n value)) ++ pairs n rest

end

def document : Document → List Char
  | .list (item :: rest) => items 0 (item :: rest)
  | .map (pair :: rest) => pairs 0 (pair :: rest)
  | d => endLine (inline 2 d)

end Writer

def write (d : Document) : String := String.ofList (Writer.document d)

end Conform.Yaml
