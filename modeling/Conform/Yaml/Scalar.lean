import Conform.Number.Decimal
import Conform.Yaml.Cursor

/-! Reading the text of scalars: quoted, plain and block. -/

namespace Conform.Yaml.Scalar

inductive Gap where
  /-- Blanks within a line, last first. -/
  | within (blanks : List Char)
  /-- The end of a line, none where it is escaped, and more ends of lines, last first. -/
  | across (first : Option Char) (more : List Char)

namespace Gap

def none : Gap := .within []

def isNone : Gap → Bool
  | .within [] => true
  | _ => false

def crossesLines : Gap → Bool
  | .within _ => false
  | .across .. => true

def addBlank (c : Char) : Gap → Gap
  -- Blanks count only as long as no line has ended.
  | .within blanks => .within (c :: blanks)
  | gap => gap

def addBreak (c : Char) : Gap → Gap
  | .within _ => .across (some c) []
  | .across first more => .across first (c :: more)

/-- What a gap stands for: one end of a line is a blank, and of several the first is dropped;
separators are kept. -/
def text : Gap → List Char
  | .within blanks => blanks.reverse
  | .across (some '\n') [] => [' ']
  | .across (some '\n') more => more.reverse
  | .across first more => first.toList ++ more.reverse

end Gap

def prepend {α : Type} (front : List Char) :
    Except Fault (List Char × α) → Except Fault (List Char × α)
  | .ok (text, rest) => .ok (front ++ text, rest)
  | .error e => .error e

def unescape? : Char → Option Char
  | '0' => some '\x00'
  | 'a' => some '\x07'
  | 'b' => some '\x08'
  | 't' | '\t' => some '\t'
  | 'n' => some '\n'
  | 'v' => some '\x0B'
  | 'f' => some '\x0C'
  | 'r' => some '\r'
  | 'e' => some '\x1B'
  | ' ' => some ' '
  | '"' => some '"'
  | '/' => some '/'
  | '\\' => some '\\'
  | 'N' => some '\u0085'
  | '_' => some '\u00A0'
  | 'L' => some '\u2028'
  | 'P' => some '\u2029'
  | _ => none

def escapeDigits? : Char → Option Nat
  | 'x' => some 2
  | 'u' => some 4
  | 'U' => some 8
  | _ => none

def readEscape : List Char → Except Fault (Char × List Char)
  -- Surrogates are no characters.
  | [] => .error .unknownEscape
  | c :: rest =>
    match unescape? c, escapeDigits? c with
    | some e, _ => .ok (e, rest)
    | none, some n =>
      let digits := rest.take n
      match Number.radixNat? 16 digits with
      | some point =>
        if digits.length = n ∧ point.isValidChar then .ok (Char.ofNat point, rest.drop n)
        else .error .unknownEscape
      | none => .error .unknownEscape
    | none, none => .error .unknownEscape

def atDocumentMark (text : List Char) : Bool := isDocumentMark '-' text || isDocumentMark '.' text

def readQuoted (single : Bool) : Nat → Gap → Bool → List Char →
    Except Fault (List Char × List Char)
  | 0, _, _, _ | _, _, _, [] => .error .unclosedScalar
  | fuel + 1, gap, fresh, c :: rest =>
    if isBlank c then readQuoted single fuel (gap.addBlank c) false rest
    else if isBreak c then readQuoted single fuel (gap.addBreak c) true rest
    else if fresh && atDocumentMark (c :: rest) then .error .unexpectedCharacter
    else prepend gap.text <|
      if single then
        match c, rest with
        | '\'', '\'' :: rest => prepend ['\''] (readQuoted single fuel .none false rest)
        | '\'', rest => .ok ([], rest)
        | c, rest => prepend [c] (readQuoted single fuel .none false rest)
      else if c = '"' then .ok ([], rest)
      else if c = '\\' then
        match rest with
        | b :: rest =>
          if isBreak b then readQuoted single fuel (.across Option.none []) true rest
          else
            match readEscape (b :: rest) with
            | .ok (e, rest) => prepend [e] (readQuoted single fuel .none false rest)
            | .error e => .error e
        | [] => .error .unknownEscape
      else prepend [c] (readQuoted single fuel .none false rest)

def isFlowIndicator (c : Char) : Bool := c == ',' || c == '[' || c == ']' || c == '{' || c == '}'

/-- Whether a plain scalar ends before this character: at a colon that ends a word, and within
brackets at an indicator of theirs. -/
def endsPlain (inFlow : Bool) (c : Char) (rest : List Char) : Bool :=
  (c == ':' && endsWord rest) || (inFlow && isFlowIndicator c)

def isTouchingColon (inFlow : Bool) (c : Char) (rest : List Char) : Bool :=
  match rest with
  | d :: _ => inFlow && c == ':' && (isFlowIndicator d || d == '?')
  | [] => false

def readPlain (inFlow : Bool) (indent : Nat) (gap : Gap) (column : Nat) :
    List Char → Except Fault (List Char × Bool × List Char)
  -- The result also tells whether lines ended after the last word.
  | [] => .ok ([], gap.crossesLines, [])
  | c :: rest =>
    if isBlank c then
      if gap.crossesLines && decide (column < indent) && c == '\t' then .error .tabInIndentation
      else readPlain inFlow indent (gap.addBlank c) (column + 1) rest
    else if isBreak c then readPlain inFlow indent (gap.addBreak c) 0 rest
    else if !gap.isNone &&
        ((!inFlow && decide (column < indent)) || c == '#' ||
          (column == 0 && atDocumentMark (c :: rest))) then
      .ok ([], gap.crossesLines, c :: rest)
    else if isTouchingColon inFlow c rest then .error .unexpectedCharacter
    else if endsPlain inFlow c rest then .ok ([], gap.crossesLines, c :: rest)
    else prepend (gap.text ++ [c]) (readPlain inFlow indent .none (column + 1) rest)

inductive Chomping where
  | strip
  | clip
  | keep

def chomping? : Char → Option Chomping
  | '-' => some .strip
  | '+' => some .keep
  | _ => none

def readIncrement : List Char → Except Fault (Nat × List Char)
  | c :: rest =>
    if c = '0' then .error .malformedHeader
    else if Number.isDecimalDigit c then .ok (c.toNat - '0'.toNat, rest)
    else .ok (0, c :: rest)
  | [] => .ok (0, [])

def readHeader (text : List Char) : Except Fault (Chomping × Nat × List Char) :=
  match text.head?.bind chomping? with
  | some chomping => (readIncrement text.tail).map fun (n, rest) => (chomping, n, rest)
  | none =>
    match readIncrement text with
    | .error e => .error e
    | .ok (0, rest) => .ok (.clip, 0, rest)
    | .ok (n, rest) =>
      match rest.head?.bind chomping? with
      | some chomping => .ok (chomping, n, rest.tail)
      | none => .ok (.clip, n, rest)

def readLineEnd (text : List Char) : Except Fault (List Char) :=
  let text := text.dropWhile isBlank
  let text :=
    match text with
    | '#' :: rest => rest.dropWhile (!isBreak ·)
    | rest => rest
  match text with
  | [] => .ok []
  | c :: rest => if isBreak c then .ok rest else .error .malformedHeader

structure Lead where
  breaks : List Char
  column : Nat
  /-- The greatest column that the indentation reaches. -/
  deepest : Nat
  rest : List Char

def readLead (indent column deepest : Nat) : List Char → Except Fault Lead
  | [] => .ok { breaks := [], column, deepest := max deepest column, rest := [] }
  | c :: rest =>
    let within := indent == 0 || decide (column < indent)
    if within && c == ' ' then readLead indent (column + 1) deepest rest
    else if within && c == '\t' then .error .tabInIndentation
    else if isBreak c then
      match readLead indent 0 (max deepest column) rest with
      | .ok lead => .ok { lead with breaks := c :: lead.breaks }
      | .error e => .error e
    else .ok { breaks := [], column, deepest := max deepest column, rest := c :: rest }

def Chomping.tail (ended : Option Char) (breaks : List Char) : Chomping → List Char
  | .strip => []
  | .clip => ended.toList
  | .keep => ended.toList ++ breaks

/-- Joins the lines of a block scalar: `ended` is the end of the line before, and `wasBlank` tells
whether that line began with a blank. A folded line end is a blank, or nothing before empty lines;
lines that begin with a blank are not folded. -/
def readLines (literal : Bool) (chomping : Chomping) (indent : Nat) :
    Nat → Option Char → Bool → Lead → Except Fault (List Char × List Char)
  | 0, _, _, lead => .ok ([], lead.rest)
  | fuel + 1, ended, wasBlank, lead =>
    match lead.rest with
    | [] => .ok (chomping.tail ended lead.breaks, [])
    | c :: _ =>
      if lead.column = indent then
        let folded := !literal && ended == some '\n' && !wasBlank && !isBlank c
        let joint := if !folded then ended.toList else if lead.breaks.isEmpty then [' '] else []
        let line := lead.rest.takeWhile (!isBreak ·)
        let rest := lead.rest.dropWhile (!isBreak ·)
        match readLead indent 0 0 rest.tail with
        | .ok next =>
          prepend (joint ++ lead.breaks ++ line)
            (readLines literal chomping indent fuel rest.head? (isBlank c) next)
        | .error e => .error e
      else .ok (chomping.tail ended lead.breaks, lead.rest)

/-- Reads a block scalar behind its indicator. Without a given indentation its lines begin where
its first line that is not empty does, at column `margin` or behind. -/
def readBlock (literal : Bool) (margin : Nat) (text : List Char) :
    Except Fault (List Char × List Char) := do
  let (chomping, increment, rest) ← readHeader text
  let rest ← readLineEnd rest
  let given := if increment = 0 then 0 else margin - 1 + increment
  let lead ← readLead given 0 0 rest
  let indent := if given = 0 then max lead.deepest (max margin 1) else given
  readLines literal chomping indent (rest.length + 1) none false lead

end Conform.Yaml.Scalar
