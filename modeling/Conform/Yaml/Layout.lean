import Conform.Yaml.Tag

/-! The tokens of YAML text. Indentation opens and closes block collections, and a colon shows only
afterwards that the node before it is a key. -/

namespace Conform.Yaml

/-- A node that may turn out to be a key. -/
structure KeyCandidate where
  /-- How many tokens come before it. -/
  position : Nat
  index : Nat
  line : Nat
  column : Nat
  /-- The line can go on only if it is a key. -/
  required : Bool

/-- What is known between two tokens. -/
structure Layout where
  cursor : Cursor
  /-- The tokens so far, last first. -/
  tokens : List Token := []
  /-- One more than the column of the innermost block collection, zero outside of any. -/
  margin : Nat := 0
  /-- The margins of the block collections around it. -/
  outerMargins : List Nat := []
  /-- The last node that may be a key. -/
  candidate : Option KeyCandidate := none
  /-- The candidates outside of each open bracket, innermost first. -/
  outerCandidates : List (Option KeyCandidate) := []
  /-- Whether a key may begin here. -/
  keyAllowed : Bool := true

namespace Layout

def inFlow (s : Layout) : Bool := !s.outerCandidates.isEmpty

def push (s : Layout) (token : Token) : Layout := { s with tokens := token :: s.tokens }

def insertAt (s : Layout) (position : Nat) (tokens : List Token) : Layout :=
  let later := s.tokens.length - position
  { s with tokens := s.tokens.take later ++ tokens.reverse ++ s.tokens.drop later }

def dropCandidate (s : Layout) : Except Fault Layout :=
  match s.candidate with
  | some candidate =>
    if candidate.required then .error .missingColon else .ok { s with candidate := none }
  | none => .ok s

def saveCandidate (s : Layout) : Except Fault Layout := do
  if s.keyAllowed then
    let s ← s.dropCandidate
    let candidate :=
      { position := s.tokens.length, index := s.cursor.index, line := s.cursor.line,
        column := s.cursor.column,
        required := !s.inFlow && s.margin == s.cursor.column + 1 }
    .ok { s with candidate := some candidate }
  else .ok s

def isExpired (cursor : Cursor) (candidate : KeyCandidate) : Bool :=
  -- A key ends on its line, within 1024 characters.
  decide (candidate.line < cursor.line) || decide (candidate.index + 1024 < cursor.index)

def expire (cursor : Cursor) (candidate : Option KeyCandidate) :
    Except Fault (Option KeyCandidate) :=
  match candidate with
  | some candidate =>
    if isExpired cursor candidate then
      if candidate.required then .error .missingColon else .ok none
    else .ok (some candidate)
  | none => .ok none

def expireCandidates (s : Layout) : Except Fault Layout := do
  let candidate ← expire s.cursor s.candidate
  let outerCandidates ← s.outerCandidates.mapM (expire s.cursor)
  .ok { s with candidate, outerCandidates }

def opensAt (s : Layout) (column : Nat) : Bool := !s.inFlow && decide (s.margin ≤ column)

def enter (s : Layout) (column : Nat) : Layout :=
  { s with margin := column + 1, outerMargins := s.margin :: s.outerMargins }

def openBlock (s : Layout) (token : Token) : Layout :=
  if s.opensAt s.cursor.column then (s.enter s.cursor.column).push token else s

def closeTo (margin : Nat) : Nat → List Nat → List Token → Nat × List Nat × List Token
  | current, [], tokens => (current, [], tokens)
  | current, outer :: rest, tokens =>
    if margin < current then closeTo margin outer rest (.blockEnd :: tokens)
    else (current, outer :: rest, tokens)

def closeBlocks (s : Layout) (margin : Nat) : Layout :=
  -- Within brackets indentation does not count.
  if s.inFlow then s
  else
    let (margin, outerMargins, tokens) := closeTo margin s.margin s.outerMargins s.tokens
    { s with margin, outerMargins, tokens }

def take (s : Layout) (length : Nat) (token : Token) : Layout :=
  { s with cursor := s.cursor.skip length, tokens := token :: s.tokens }

/-- Passes blanks, comments and empty lines. Tabs separate tokens, but do not indent. -/
def skipSpace : Nat → Layout → Layout
  | 0, s => s
  | fuel + 1, s =>
    let start := s.cursor
    let start :=
      if start.column = 0 ∧ start.rest.head? = some byteOrderMark then start.advance else start
    let start := start.skipWhile fun c => c == ' ' || ((s.inFlow || !s.keyAllowed) && c == '\t')
    let start :=
      if start.rest.head? = some '#' then start.skipWhile (!isBreak ·) else start
    if (start.rest.head?.map isBreak).getD false then
      skipSpace fuel { s with cursor := start.advance, keyAllowed := s.keyAllowed || !s.inFlow }
    else { s with cursor := start }

def closeAll (s : Layout) : Except Fault Layout := do
  let s ← (s.closeBlocks 0).dropCandidate
  .ok { s with keyAllowed := false }

def fetchMark (s : Layout) (token : Token) : Except Fault Layout := do
  .ok ((← s.closeAll).take 3 token)

def fetchDirective (s : Layout) : Except Fault Layout := do
  let s ← s.closeAll
  let (token, rest) ← Tag.readDirective s.cursor.rest.tail
  .ok { s.push token with cursor := s.cursor.seek rest }

def fetchOpening (s : Layout) (token : Token) : Except Fault Layout := do
  let s ← s.saveCandidate
  let s := s.take 1 token
  .ok { s with
    candidate := none, outerCandidates := s.candidate :: s.outerCandidates, keyAllowed := true }

def fetchClosing (s : Layout) (token : Token) : Except Fault Layout := do
  let s ← s.dropCandidate
  let s := { s.take 1 token with keyAllowed := false }
  match s.outerCandidates with
  | candidate :: outerCandidates => .ok { s with candidate, outerCandidates }
  | [] => .ok s

def fetchFlowEntry (s : Layout) : Except Fault Layout := do
  let s ← s.dropCandidate
  .ok { s.take 1 .flowEntry with keyAllowed := true }

def fetchBlockEntry (s : Layout) : Except Fault Layout := do
  if !s.inFlow && !s.keyAllowed then .error .misplacedIndicator
  else
    let s ← (s.openBlock .blockSequenceStart).dropCandidate
    .ok { s.take 1 .blockEntry with keyAllowed := true }

def fetchKey (s : Layout) : Except Fault Layout := do
  if !s.inFlow && !s.keyAllowed then .error .misplacedIndicator
  else
    let s ← (s.openBlock .blockMappingStart).dropCandidate
    .ok { s.take 1 .key with keyAllowed := !s.inFlow }

/-- The colon of a value. The candidate before it becomes a key, which may begin a mapping. -/
def fetchValue (s : Layout) : Except Fault Layout :=
  match s.candidate with
  | some candidate =>
    let s :=
      if s.opensAt candidate.column then
        (s.enter candidate.column).insertAt candidate.position [.blockMappingStart, .key]
      else s.insertAt candidate.position [.key]
    .ok { s.take 1 .value with candidate := none, keyAllowed := false }
  | none =>
    if !s.inFlow && !s.keyAllowed then .error .misplacedIndicator
    else
      let s := s.openBlock .blockMappingStart
      .ok { s.take 1 .value with keyAllowed := !s.inFlow }

def readName (text : List Char) : Except Fault (String × List Char) :=
  let name := text.takeWhile isWord
  let rest := text.dropWhile isWord
  let ended := endsWord rest || (rest.head?.map "?:,]\x7d%@`".toList.contains).getD false
  if name.isEmpty || !ended then .error .malformedAnchor else .ok (String.ofList name, rest)

def fetchName (s : Layout) (token : String → Token) : Except Fault Layout := do
  let s ← s.saveCandidate
  let (name, rest) ← readName s.cursor.rest.tail
  .ok { s.push (token name) with cursor := s.cursor.seek rest, keyAllowed := false }

def fetchTag (s : Layout) : Except Fault Layout := do
  let s ← s.saveCandidate
  let (token, rest) ← Tag.read s.inFlow s.cursor.rest
  .ok { s.push token with cursor := s.cursor.seek rest, keyAllowed := false }

def fetchBlockScalar (s : Layout) (literal : Bool) : Except Fault Layout := do
  let s ← s.dropCandidate
  let (text, rest) ← Scalar.readBlock literal s.margin s.cursor.rest.tail
  let style := if literal then .literal else .folded
  .ok { s.push (.scalar style (String.ofList text)) with
    cursor := s.cursor.seek rest, keyAllowed := true }

def fetchQuoted (s : Layout) (single : Bool) : Except Fault Layout := do
  let s ← s.saveCandidate
  let (text, rest) ←
    Scalar.readQuoted single s.cursor.rest.length .none false s.cursor.rest.tail
  let style := if single then .singleQuoted else .doubleQuoted
  .ok { s.push (.scalar style (String.ofList text)) with
    cursor := s.cursor.seek rest, keyAllowed := false }

def fetchPlain (s : Layout) : Except Fault Layout := do
  let s ← s.saveCandidate
  let (text, fresh, rest) ←
    Scalar.readPlain s.inFlow s.margin .none s.cursor.column s.cursor.rest
  .ok { s.push (.scalar .plain (String.ofList text)) with
    cursor := s.cursor.seek rest, keyAllowed := fresh }

def beginsPlain (inFlow : Bool) (c : Char) (rest : List Char) : Bool :=
  if c == '-' then !(rest.head?.map isBlank).getD false
  else if c == '?' || c == ':' then !inFlow && !endsWord rest
  else !("\t,[]\x7b\x7d#&*!|>'\"%@`".toList.contains c)

def fetch (s : Layout) (c : Char) (rest : List Char) : Except Fault Layout :=
  let first := s.cursor.column == 0
  if first && c == '%' then s.fetchDirective
  else if first && isDocumentMark '-' (c :: rest) then s.fetchMark .documentStart
  else if first && isDocumentMark '.' (c :: rest) then s.fetchMark .documentEnd
  else if c == '[' then s.fetchOpening .flowSequenceStart
  else if c == '\x7b' then s.fetchOpening .flowMappingStart
  else if c == ']' then s.fetchClosing .flowSequenceEnd
  else if c == '\x7d' then s.fetchClosing .flowMappingEnd
  else if c == ',' then s.fetchFlowEntry
  else if c == '-' && endsWord rest then s.fetchBlockEntry
  else if c == '?' && (s.inFlow || endsWord rest) then s.fetchKey
  else if c == ':' && (s.inFlow || endsWord rest) then s.fetchValue
  else if c == '*' then s.fetchName .reference
  else if c == '&' then s.fetchName .anchor
  else if c == '!' then s.fetchTag
  else if c == '|' && !s.inFlow then s.fetchBlockScalar true
  else if c == '>' && !s.inFlow then s.fetchBlockScalar false
  else if c == '\'' then s.fetchQuoted true
  else if c == '"' then s.fetchQuoted false
  else if beginsPlain s.inFlow c rest then s.fetchPlain
  else .error .unexpectedCharacter

def readAll : Nat → Layout → Except Fault (List Token)
  | 0, s => .ok s.tokens.reverse
  | fuel + 1, s => do
    let s ← (s.skipSpace (s.cursor.rest.length + 1)).expireCandidates
    let s := s.closeBlocks (s.cursor.column + 1)
    match s.cursor.rest with
    | [] => .ok (← s.closeAll).tokens.reverse
    | c :: rest => readAll fuel (← s.fetch c rest)

end Layout

def Token.ofText (text : String) : Except Fault (List Token) := do
  let chars ← characters text
  Layout.readAll (chars.length + 1) { cursor := { rest := chars } }

end Conform.Yaml
