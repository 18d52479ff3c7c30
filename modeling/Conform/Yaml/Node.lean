import Conform.Entries
import Conform.Yaml.Layout

/-! Nodes of YAML text, with their anchors and the references to them. -/

namespace Conform.Yaml

/-- A node as it is written. Anchors are numbered, and a reference names the number that its anchor
had where the reference stands. -/
inductive Node where
  | reference (label : Nat)
  | scalar (label : Option Nat) (tag : Option String) (style : Style) (text : String)
  | sequence (label : Option Nat) (tag : Option String) (items : List Node)
  | mapping (label : Option Nat) (tag : Option String) (pairs : List (Node × Node))

namespace Node

instance : Inhabited Node := ⟨.reference 0⟩

/-- What is left to read, with the handles of tags and the numbers of anchors. -/
structure Reading where
  tokens : List Token
  handles : Entries String := []
  labels : Entries Nat := []

abbrev Read := StateT Reading (Except Fault)

def peek : Read (Option Token) := return (← get).tokens.head?

def skip : Read Unit := modify fun s => { s with tokens := s.tokens.tail }

def accept (token : Token) : Read Bool := do
  if (← peek) == some token then skip; return true else return false

def expect (token : Token) : Read Unit := do
  unless ← accept token do throw .unexpectedToken

/-- Numbers an anchor. The number is the count of names so far, so that a name used again takes a
number that the next new name takes too. -/
def mark (anchor : Option String) : Read (Option Nat) :=
  match anchor with
  | none => return none
  | some name => do
    let s ← get
    let label := s.labels.length
    set { s with labels := s.labels.insert name label }
    return some label

def anchor? : Read (Option String) := do
  match ← peek with
  | some (.anchor name) => skip; return some name
  | _ => return none

def tag? : Read (Option String) := do
  -- A handle gives way to what it stands for.
  match ← peek with
  | some (.tag "" rest) => skip; return some rest
  | some (.tag handle rest) =>
    skip
    match (← get).handles.get? handle with
    | some expansion => return some (expansion ++ rest)
    | none => throw .unknownHandle
  | _ => return none

def properties : Read (Option String × Option String) := do
  match ← anchor? with
  | some anchor => return (some anchor, ← tag?)
  | none =>
    let tag ← tag?
    return (← anchor?, tag)

def empty : Node := .scalar none none .plain ""

mutual

/-- A node. Block collections stand in blocks only, and a block sequence may follow a key without
indentation. -/
def read (block indentless : Bool) : Nat → Read Node
  | 0 => throw .unexpectedToken
  | fuel + 1 => do
    match ← peek with
    | some (.reference name) =>
      skip
      match (← get).labels.get? name with
      | some label => return .reference label
      | none => throw .unknownAnchor
    | _ =>
      let (anchor, tag) ← properties
      match ← peek with
      | some (.scalar style text) =>
        skip
        return .scalar (← mark anchor) (tag.filter (· != "!")) style text
      | some .flowSequenceStart =>
        skip
        let label ← mark anchor
        return .sequence label tag (← readFlowItems true fuel)
      | some .flowMappingStart =>
        skip
        let label ← mark anchor
        return .mapping label tag (← readFlowPairs true fuel)
      | token =>
        if token == some .blockEntry && indentless then
          let label ← mark anchor
          return .sequence label tag (← readIndentlessItems fuel)
        else if token == some .blockSequenceStart && block then
          skip
          let label ← mark anchor
          return .sequence label tag (← readItems fuel)
        else if token == some .blockMappingStart && block then
          skip
          let label ← mark anchor
          return .mapping label tag (← readPairs fuel)
        else if anchor.isSome || tag.isSome then
          return .scalar (← mark anchor) tag .plain ""
        else throw .unexpectedToken

def readUnless (stops : List Token) (block indentless : Bool) : Nat → Read Node
  | 0 => throw .unexpectedToken
  | fuel + 1 => do
    match ← peek with
    | some token =>
      if stops.contains token then return .empty else read block indentless fuel
    | none => read block indentless fuel

def readItems : Nat → Read (List Node)
  | 0 => throw .unexpectedToken
  | fuel + 1 => do
    if ← accept .blockEntry then
      let item ← readUnless [.blockEntry, .blockEnd] true false fuel
      return item :: (← readItems fuel)
    else
      expect .blockEnd
      return []

def readIndentlessItems : Nat → Read (List Node)
  | 0 => throw .unexpectedToken
  | fuel + 1 => do
    if ← accept .blockEntry then
      let item ← readUnless [.blockEntry, .key, .value, .blockEnd] true false fuel
      return item :: (← readIndentlessItems fuel)
    else return []

def readPairs : Nat → Read (List (Node × Node))
  | 0 => throw .unexpectedToken
  | fuel + 1 => do
    if ← accept .key then
      let key ← readUnless [.key, .value, .blockEnd] true true fuel
      let value ←
        if ← accept .value then readUnless [.key, .value, .blockEnd] true true fuel
        else pure .empty
      return (key, value) :: (← readPairs fuel)
    else
      expect .blockEnd
      return []

def readFlowItems (first : Bool) : Nat → Read (List Node)
  -- A pair among the items is a mapping of its own; one without a key loses the token that
  -- follows.
  | 0 => throw .unexpectedToken
  | fuel + 1 => do
    if ← accept .flowSequenceEnd then return []
    else
      unless first do expect .flowEntry
      if ← accept .key then
        let key ←
          if [some .value, some .flowEntry, some .flowSequenceEnd].contains (← peek) then
            skip
            pure .empty
          else read false false fuel
        let value ←
          if ← accept .value then readUnless [.flowEntry, .flowSequenceEnd] false false fuel
          else pure .empty
        return .mapping none none [(key, value)] :: (← readFlowItems false fuel)
      else if ← accept .flowSequenceEnd then return []
      else
        let item ← read false false fuel
        return item :: (← readFlowItems false fuel)

def readFlowPairs (first : Bool) : Nat → Read (List (Node × Node))
  | 0 => throw .unexpectedToken
  | fuel + 1 => do
    if ← accept .flowMappingEnd then return []
    else
      unless first do expect .flowEntry
      if ← accept .key then
        let key ← readUnless [.value, .flowEntry, .flowMappingEnd] false false fuel
        let value ←
          if ← accept .value then readUnless [.flowEntry, .flowMappingEnd] false false fuel
          else pure .empty
        return (key, value) :: (← readFlowPairs false fuel)
      else if ← accept .flowMappingEnd then return []
      else
        let key ← read false false fuel
        return (key, .empty) :: (← readFlowPairs false fuel)

end

def standardHandles : Entries String := [("!", "!"), ("!!", "tag:yaml.org,2002:")]

def isDirective : Token → Bool
  | .version .. | .handle .. => true
  | _ => false

def declare (versioned : Bool) (handles : Entries String) :
    List Token → Except Fault (Entries String)
  -- The versions 1.1 and 1.2 are understood, one of them at most once.
  | .version major minor :: rest =>
    if versioned || major != 1 || !(minor == 1 || minor == 2) then .error .malformedDirective
    else declare true handles rest
  | .handle name expansion :: rest =>
    if handles.contains name then .error .malformedDirective
    else declare versioned (handles ++ [(name, expansion)]) rest
  | _ => .ok handles

def readDocument : Read Node := do
  let tokens := (← get).tokens
  let fuel := 4 * tokens.length + 4
  if tokens.head?.any fun t => isDirective t || t == .documentStart then
    let declared ← declare false [] (tokens.takeWhile isDirective)
    set { tokens := tokens.dropWhile isDirective, handles := declared ++ standardHandles : Reading }
    expect .documentStart
    match ← peek with
    | none | some .documentStart | some .documentEnd => return .empty
    | some token => if isDirective token then return .empty else read true false fuel
  else
    modify fun s => { s with handles := standardHandles }
    read true false fuel

def ofTokens (tokens : List Token) : Except Fault (Option Node) :=
  if tokens.isEmpty then .ok none
  else
    match readDocument.run { tokens } with
    | .ok (node, rest) =>
      if rest.tokens.all (· == .documentEnd) then .ok (some node) else .error .severalDocuments
    | .error e => .error e

end Node

end Conform.Yaml
