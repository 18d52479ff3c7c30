import Conform.Regex.Bracket
import Conform.Regex.Size

/-! Reading a written pattern as a regular expression. -/

namespace Conform.Regex

def maxNesting : Nat := 250

/-- An element of a sequence: switches take a place but cannot be repeated. -/
inductive Item where
  | switches
  | part (r : Regex) (height : Nat)

def Item.height : Item → Nat
  | .switches => 0
  | .part _ height => height

def Item.regex : Item → Regex
  | .switches => .empty
  | .part r _ => r

/-- What waits outside an open group: the sequence and the alternatives before it, and the flags
that hold again behind it. -/
structure Frame where
  captures : Bool
  items : List Item
  branches : List (Regex × Nat)
  flags : Flags

structure Progress where
  text : List Char
  flags : Flags
  items : List Item := []
  branches : List (Regex × Nat) := []
  frames : List Frame := []
  groupNames : List (List Char) := []

def sequenceOf (items : List Item) : Regex × Nat :=
  match items with
  | [] => (.empty, 0)
  | [item] => (item.regex, item.height)
  | items =>
    (concat ((items.reverse.map Item.regex).filter (· ≠ .empty)),
      1 + (items.map Item.height).foldl max 0)

def Progress.alternation (p : Progress) : Regex × Nat :=
  -- The open sequence is the last alternative.
  let last := sequenceOf p.items
  match p.branches with
  | [] => last
  | branches =>
    let all := (last :: branches).reverse
    (alternatives (all.map Prod.fst), 1 + (all.map Prod.snd).foldl max 0)

def Progress.push (p : Progress) (r : Regex) (height : Nat) (rest : List Char) : Progress :=
  { p with text := rest, items := .part r height :: p.items }

def Progress.repeatLast (p : Progress) (least : Nat) (most : Option Nat) (rest : List Char) :
    Except Fault Progress :=
  match p.items with
  | .part r height :: items =>
    .ok { p with text := rest, items := .part (.repetition r least most) (height + 1) :: items }
  | _ => .error .repetitionWithoutOperand

/-- A question mark behind a repetition changes the preference only, never what matches. -/
def dropLazyMark : List Char → List Char
  | '?' :: rest => rest
  | rest => rest

def Flags.set? (flags : Flags) (on : Bool) : Char → Option Flags
  | 'i' => some { flags with ignoreCase := on }
  | 'm' => some { flags with multiLine := on }
  | 's' => some { flags with dotMatchesNewline := on }
  | 'U' => some { flags with lazyFirst := on }
  | 'u' => some { flags with ascii := !on }
  | 'R' => some { flags with crlf := on }
  | 'x' => some { flags with extended := on }
  | _ => none

/-- Reads switches up to a colon or a closing parenthesis, which stays in the text. `seen` holds
the letters and the hyphen read so far. -/
def readSwitches : Flags → Bool → List Char → List Char → Except Fault (Flags × List Char)
  | _, _, _, [] => .error .malformedFlags
  | flags, on, seen, c :: rest =>
    if c = ':' ∨ c = ')' then
      if seen.head? = some '-' then .error .malformedFlags else .ok (flags, c :: rest)
    else if seen.contains c then .error .malformedFlags
    else if c = '-' then readSwitches flags false (c :: seen) rest
    else
      match flags.set? on c with
      | some flags => readSwitches flags on (c :: seen) rest
      | none => .error .malformedFlags

def Progress.openGroup (p : Progress) (captures : Bool) (inner : Flags) (rest : List Char) :
    Progress :=
  { p with
    text := rest
    flags := inner
    items := []
    branches := []
    frames := ⟨captures, p.items, p.branches, p.flags⟩ :: p.frames }

def isGroupName : List Char → Bool
  | [] => false
  | c :: rest =>
    (c == '_' || Unicode.isAlphabetic c) &&
      rest.all fun d =>
        d == '_' || d == '.' || d == '[' || d == ']' || Unicode.isAlphanumeric d

def Progress.openNamed (p : Progress) (rest : List Char) : Except Fault Progress :=
  let name := rest.takeWhile (· != '>')
  match rest.dropWhile (· != '>') with
  | [] => .error .malformedGroupName
  | _ :: rest =>
    if !isGroupName name then .error .malformedGroupName
    else if p.groupNames.contains name then .error .repeatedGroupName
    else .ok { p.openGroup true p.flags rest with groupNames := name :: p.groupNames }

def Progress.parenthesis (p : Progress) (text : List Char) : Except Fault Progress :=
  match p.flags.skip text with
  | '?' :: '=' :: _ | '?' :: '!' :: _ => .error .lookAround
  | '?' :: '<' :: '=' :: _ | '?' :: '<' :: '!' :: _ => .error .lookAround
  | '?' :: 'P' :: '<' :: rest | '?' :: '<' :: rest => p.openNamed rest
  | '?' :: rest => do
    let (flags, after) ← readSwitches p.flags true [] rest
    match after with
    | ')' :: after =>
      if rest.head? = some ')' then .error .repetitionWithoutOperand
      else .ok { p with text := after, flags := flags, items := .switches :: p.items }
    | after => .ok (p.openGroup false flags after.tail)
  | rest => .ok (p.openGroup true p.flags rest)

def Progress.close (p : Progress) (rest : List Char) : Except Fault Progress :=
  match p.frames with
  | [] => .error .unopenedGroup
  | frame :: frames =>
    let (r, height) := p.alternation
    .ok
      { p with
        text := rest
        flags := frame.flags
        items := .part (if frame.captures then .group r else r) (height + 1) :: frame.items
        branches := frame.branches
        frames := frames }

def Lexeme.toRegex (flags : Flags) : Lexeme → Except Fault Regex
  | .literal c byte =>
    if flags.ascii ∧ byte ∧ 0x80 ≤ c.toNat then .error .outsideUnicode
    else .ok (.set (flags.fold (.singleton c)))
  | .charSet s => .ok (.set s)
  | .assertion a => .ok (.assertion a)
  | .dot =>
    if flags.ascii then .error .outsideUnicode
    else if flags.dotMatchesNewline then .ok (.set (.compl .empty))
    else if flags.crlf then .ok (.set (.compl (.union (.singleton '\n') (.singleton '\r'))))
    else .ok (.set (.compl (.singleton '\n')))

def readLexeme (flags : Flags) : List Char → Except Fault (Lexeme × List Char)
  | [] => .error .unfinishedEscape
  | '\\' :: rest => readEscape flags rest
  | '.' :: rest => .ok (.dot, rest)
  | '^' :: rest =>
    .ok (.assertion (if flags.multiLine then .lineStart flags.crlf else .textStart), rest)
  | '$' :: rest =>
    .ok (.assertion (if flags.multiLine then .lineEnd flags.crlf else .textEnd), rest)
  | c :: rest => .ok (.literal c false, rest)

def Progress.step? (p : Progress) : Except Fault (Option Progress) :=
  match p.flags.skip p.text with
  | [] => .ok none
  | '(' :: rest => (p.parenthesis rest).map some
  | ')' :: rest => (p.close rest).map some
  | '|' :: rest =>
    .ok (some { p with text := rest, items := [], branches := sequenceOf p.items :: p.branches })
  | '[' :: rest => do
    let (term, rest) ← readClass p.flags rest
    .ok (some (p.push (.set term.set) term.height rest))
  | '?' :: rest => (p.repeatLast 0 (some 1) (dropLazyMark rest)).map some
  | '*' :: rest => (p.repeatLast 0 none (dropLazyMark rest)).map some
  | '+' :: rest => (p.repeatLast 1 none (dropLazyMark rest)).map some
  | '{' :: rest => do
    let ((least, most), rest) ← readBounds p.flags (p.flags.skip rest)
    (p.repeatLast least most (dropLazyMark (p.flags.skip rest))).map some
  | text => do
    let (lexeme, rest) ← readLexeme p.flags text
    .ok (some (p.push (← lexeme.toRegex p.flags) 0 rest))

def readFrom : Nat → Progress → Except Fault Regex
  -- Each element takes a character at least, so the fuel lasts.
  | 0, _ => .error .nestedTooDeep
  | fuel + 1, p => do
    match ← p.step? with
    | some next => readFrom fuel next
    | none =>
      if p.frames.isEmpty then
        let (r, height) := p.alternation
        if height ≤ maxNesting then .ok r else .error .nestedTooDeep
      else .error .unclosedGroup

/-- The regular expression that a text spells under switches given from outside, unless it is too
large once compiled. -/
def read (flags : Flags) (text : String) : Except Fault Regex := do
  let chars := text.toList
  let r ← readFrom (chars.length + 1) { text := chars, flags := flags }
  if r.fits then .ok r else .error .tooLarge

end Conform.Regex
