import Conform.Regex.Basic
import Conform.Regex.PropertyName
import Conform.Number.Decimal

/-! The smallest parts of a written pattern: flags, blanks, counts, escapes and names. -/

namespace Conform.Regex

inductive Fault where
  | unclosedGroup
  | unopenedGroup
  | unclosedClass
  | unfinishedEscape
  | unknownEscape
  | invalidCodePoint
  | backreference
  | lookAround
  | repetitionWithoutOperand
  | malformedCount
  | malformedFlags
  | malformedGroupName
  | repeatedGroupName
  | invalidRange
  | notInClass
  | unknownProperty
  | outsideUnicode
  | nestedTooDeep
  | tooLarge
  deriving DecidableEq

structure Flags where
  ignoreCase : Bool := false
  multiLine : Bool := false
  dotMatchesNewline : Bool := false
  lazyFirst : Bool := false
  ascii : Bool := false
  crlf : Bool := false
  extended : Bool := false
  deriving DecidableEq

def isHexDigit (c : Char) : Bool := (Number.digitValue? 16 c).isSome

mutual

def dropBlanks : List Char → List Char
  | [] => []
  | c :: rest =>
    if Unicode.isWhiteSpace c then dropBlanks rest
    else if c = '#' then dropComment rest
    else c :: rest

def dropComment : List Char → List Char
  | [] => []
  | c :: rest => if c = '\n' then dropBlanks rest else dropComment rest

end

/-- Blanks and comments are dropped in extended mode only. -/
def Flags.skip (flags : Flags) (text : List Char) : List Char :=
  if flags.extended then dropBlanks text else text

def dropWhite (text : List Char) : List Char := text.dropWhile Unicode.isWhiteSpace

def takeDigits (flags : Flags) : Nat → List Char → List Char × List Char
  -- In extended mode blanks may stand between digits.
  | 0, text => ([], text)
  | fuel + 1, text =>
    match text with
    | c :: rest =>
      if Number.isDecimalDigit c then
        let (digits, after) := takeDigits flags fuel (flags.skip rest)
        (c :: digits, after)
      else ([], text)
    | [] => ([], [])

/-- A count below 2 ^ 32, or `none` where no digit stands, and the text behind it. -/
def readCount (flags : Flags) (text : List Char) : Except Fault (Option Nat × List Char) :=
  let (digits, rest) := takeDigits flags text.length (dropWhite text)
  let rest := flags.skip (dropWhite rest)
  if digits = [] then .ok (none, rest)
  else
    let n := Number.digitsToNat digits
    if n < Nat.pow 2 32 then .ok (some n, rest) else .error .malformedCount

def readBounds (flags : Flags) (text : List Char) :
    Except Fault ((Nat × Option Nat) × List Char) := do
  let (least, rest) ← readCount flags text
  match rest, least with
  | '}' :: rest, some n => .ok ((n, some n), rest)
  | ',' :: rest, some n =>
    match flags.skip rest with
    | '}' :: rest => .ok ((n, none), rest)
    | rest =>
      let (most, rest) ← readCount flags rest
      match rest, most with
      | '}' :: rest, some m =>
        if n ≤ m then .ok ((n, some m), rest) else .error .malformedCount
      | _, _ => .error .malformedCount
  | _, _ => .error .malformedCount

def charOfHex? (digits : List Char) : Except Fault Char :=
  match Number.radixNat? 16 digits with
  | some n => if n.isValidChar then .ok (Char.ofNat n) else .error .invalidCodePoint
  | none => .error .invalidCodePoint

def takeHex (flags : Flags) : Nat → List Char → Except Fault (List Char × List Char)
  | 0, text => .ok ([], text)
  | count + 1, text =>
    match text with
    | [] => .error .unfinishedEscape
    | c :: rest =>
      if isHexDigit c then do
        let (digits, rest) ← takeHex flags count (flags.skip rest)
        .ok (c :: digits, rest)
      else .error .invalidCodePoint

def takeBraced (flags : Flags) : Nat → List Char → Option (List Char × List Char)
  -- In extended mode blanks inside the braces are dropped.
  | 0, _ => none
  | fuel + 1, text =>
    match text with
    | [] => none
    | '}' :: rest => some ([], rest)
    | c :: rest =>
      (takeBraced flags fuel (flags.skip rest)).map fun (inside, after) => (c :: inside, after)

def readHex (flags : Flags) (digits : Nat) (text : List Char) :
    Except Fault (Char × List Char) := do
  match flags.skip text with
  | '{' :: rest =>
    match takeBraced flags (rest.length + 1) (flags.skip rest) with
    | none => .error .unfinishedEscape
    | some (inside, rest) =>
      if inside.all isHexDigit then .ok (← charOfHex? inside, flags.skip rest)
      else .error .invalidCodePoint
  | rest =>
    let (inside, rest) ← takeHex flags digits rest
    .ok (← charOfHex? inside, rest)

def splitFirst? (separator : List Char) : List Char → Option (List Char × List Char)
  | [] => none
  | c :: rest =>
    if separator.isPrefixOf (c :: rest) then some ([], (c :: rest).drop separator.length)
    else (splitFirst? separator rest).map fun (before, after) => (c :: before, after)

def readPropertyName (name : List Char) : Except Fault (Bool × CharProperty) :=
  let found :=
    match splitFirst? ['!', '='] name with
    | some (name, value) => (CharProperty.ofNameAndValue? name value).map ((true, ·))
    | none =>
      match splitFirst? [':'] name with
      | some (name, value) => (CharProperty.ofNameAndValue? name value).map ((false, ·))
      | none =>
        match splitFirst? ['='] name with
        | some (name, value) => (CharProperty.ofNameAndValue? name value).map ((false, ·))
        | none => (CharProperty.ofName? name).map ((false, ·))
  match found with
  | some answer => .ok answer
  | none => .error .unknownProperty

def Flags.fold (flags : Flags) (s : CharSet) : CharSet :=
  if flags.ignoreCase then .ignoreCase flags.ascii s else s

/-- A complement leaves the characters of ASCII mode, and would match parts of characters. -/
def Flags.negate (flags : Flags) (negated : Bool) (s : CharSet) : Except Fault CharSet :=
  if negated then if flags.ascii then .error .outsideUnicode else .ok (.compl s) else .ok s

def readProperty (flags : Flags) (negated : Bool) (text : List Char) :
    Except Fault (CharSet × List Char) := do
  let (name, rest) ←
    match flags.skip text with
    | [] => .error .unfinishedEscape
    | '{' :: rest =>
      match takeBraced flags (rest.length + 1) (flags.skip rest) with
      | none => .error .unfinishedEscape
      | some (inside, rest) => .ok (inside, rest)
    | '\\' :: _ => .error .unknownProperty
    | c :: rest => .ok ([c], flags.skip rest)
  if flags.ascii then .error .outsideUnicode
  else
    let (inverted, property) ← readPropertyName name
    let s ← flags.negate (negated != inverted) (flags.fold (.property property))
    .ok (s, rest)

inductive Lexeme where
  /-- A character; `byte` tells a two-digit hexadecimal escape. -/
  | literal (c : Char) (byte : Bool)
  | charSet (s : CharSet)
  | assertion (a : Assertion)
  | dot
  deriving DecidableEq

def isMeta (c : Char) : Bool := "\\.+*?()|[]\x7b\x7d^$#&-~".toList.contains c

/-- Every ASCII character but letters, digits and angle brackets may be escaped to itself. -/
def isEscapable (c : Char) : Bool :=
  isMeta c || (decide (c.toNat < 0x80) && !c.isAlphanum && c != '<' && c != '>')

def takeBoundaryName (flags : Flags) : Nat → List Char → List Char × List Char
  -- In extended mode blanks may stand between the letters of a name.
  | 0, text => ([], text)
  | fuel + 1, text =>
    match text with
    | c :: rest =>
      if c.isAlpha || c == '-' then
        let (name, after) := takeBoundaryName flags fuel (flags.skip rest)
        (c :: name, after)
      else ([], text)
    | [] => ([], [])

/-- A word boundary, behind its letter: a name in braces may follow, but a count may too. -/
def readBoundary (flags : Flags) (text : List Char) : Except Fault (Lexeme × List Char) :=
  let plain : Lexeme × List Char := (.assertion (.wordBoundary flags.ascii), text)
  match text with
  | '{' :: rest =>
    match flags.skip rest with
    | [] => .error .unfinishedEscape
    | c :: rest =>
      if c.isAlpha || c == '-' then
        match takeBoundaryName flags (rest.length + 1) (c :: rest) with
        | (name, '}' :: after) =>
          match String.ofList name with
          | "start" => .ok (.assertion (.wordStart flags.ascii), after)
          | "end" => .ok (.assertion (.wordEnd flags.ascii), after)
          | "start-half" => .ok (.assertion (.wordStartHalf flags.ascii), after)
          | "end-half" => .ok (.assertion (.wordEndHalf flags.ascii), after)
          | _ => .error .unknownEscape
        | _ => .error .unfinishedEscape
      else .ok plain
  | _ => .ok plain

def readEscape (flags : Flags) : List Char → Except Fault (Lexeme × List Char)
  | [] => .error .unfinishedEscape
  | c :: rest =>
    let literal (d : Char) : Except Fault (Lexeme × List Char) := .ok (.literal d false, rest)
    let classOf (s : CharSet) (negated : Bool) : Except Fault (Lexeme × List Char) := do
      .ok (.charSet (← flags.negate negated s), rest)
    let hex (digits : Nat) : Except Fault (Lexeme × List Char) := do
      let byte := digits == 2 && (flags.skip rest).head? != some '{'
      let (d, rest) ← readHex flags digits rest
      .ok (.literal d byte, rest)
    if c.isDigit then .error .backreference
    else if isEscapable c then literal c
    else
      match c with
      | 'x' => hex 2
      | 'u' => hex 4
      | 'U' => hex 8
      | 'p' => (readProperty flags false rest).map fun (s, rest) => (.charSet s, rest)
      | 'P' => (readProperty flags true rest).map fun (s, rest) => (.charSet s, rest)
      | 'd' => classOf (.digit flags.ascii) false
      | 'D' => classOf (.digit flags.ascii) true
      | 's' => classOf (.space flags.ascii) false
      | 'S' => classOf (.space flags.ascii) true
      | 'w' => classOf (.word flags.ascii) false
      | 'W' => classOf (.word flags.ascii) true
      | 'a' => literal '\x07'
      | 'f' => literal '\x0C'
      | 't' => literal '\t'
      | 'n' => literal '\n'
      | 'r' => literal '\r'
      | 'v' => literal '\x0B'
      | 'A' => .ok (.assertion .textStart, rest)
      | 'z' => .ok (.assertion .textEnd, rest)
      | 'b' => readBoundary flags rest
      | 'B' => .ok (.assertion (.notWordBoundary flags.ascii), rest)
      | '<' => .ok (.assertion (.wordStart flags.ascii), rest)
      | '>' => .ok (.assertion (.wordEnd flags.ascii), rest)
      | _ => .error .unknownEscape

end Conform.Regex
