import Conform.Regex.Basic
import Conform.Unicode.Utf8

/-!
# Size — the bytes of a compiled expression

An expression is compiled to two programs of states that read bytes: one searches forward, the
other one backward.  Each has a bound, so that a well-formed expression can be too large.
-/

namespace Conform

/-! ## 1. Sets as ranges -/

namespace CharSet

open Unicode

/-- Places between which all characters are in a set or none is. -/
def cuts : CharSet → List Nat
  | .empty | .property .any => []
  | .range first last => [first.toNat, last.toNat + 1]
  | .property (.knownIn _) => ageRuns.toList.map Prod.fst
  | .property .stableIdentifierStart | .property .stableIdentifierPart
  | .property .changesWhenLowercased | .property .changesWhenUppercased
  | .property .changesWhenTitlecased | .property .changesWhenCasefolded
  | .property .changesWhenCasemapped | .property .caseIgnorable
  | .property (.graphemeBreak _) | .property (.wordBreak _) | .property (.sentenceBreak _) =>
    -- Beyond the first two planes these follow the tables.
    List.range 0x20000 ++ tableCuts
  | .word _ | .digit _ | .space _ | .property _ => 0x80 :: tableCuts
  | .union a b | .inter a b | .diff a b | .symmDiff a b => cuts a ++ cuts b
  | .compl a => cuts a
  | .ignoreCase _ a => cuts a ++ caseClasses.flatten.flatMap fun code => [code, code + 1]

def joinRanges (ranges : List (Nat × Nat)) : List (Nat × Nat) :=
  (ranges.mergeSort (·.1 ≤ ·.1)).foldl
    (fun joined range =>
      match joined with
      | last :: rest =>
        if range.1 ≤ last.2 + 1 then (last.1, max last.2 range.2) :: rest else range :: joined
      | [] => [range])
    [] |>.reverse

def ranges (s : CharSet) : List (Nat × Nat) :=
  let places := ([0, 0xD800, 0xE000, 0x110000] ++ s.cuts).mergeSort.eraseReps
  joinRanges <| (places.zip places.tail).filterMap fun (first, next) =>
    if first.isValidChar ∧ s.mem (Char.ofNat first) then some (first, next - 1) else none

/-- More bytes than a set takes, whatever its context: the tables have a few thousand ranges. -/
def allowance : CharSet → Nat
  | .empty | .range _ _ => 0x800
  | .word _ | .digit _ | .space _ | .property _ => 0x40000
  | .union a b | .inter a b | .diff a b | .symmDiff a b => a.allowance + b.allowance
  | .compl a => a.allowance
  | .ignoreCase _ a => a.allowance + 0x40000

end CharSet

namespace Regex

/-! ## 2. States that read one character -/

/-- The bytes of the program that searches forward, and of the one that searches backward. -/
structure Size where
  forward : Nat
  backward : Nat
  deriving DecidableEq

namespace Size

def both (bytes : Nat) : Size := ⟨bytes, bytes⟩

instance : Add Size := ⟨fun a b => ⟨a.forward + b.forward, a.backward + b.backward⟩⟩

def times (count : Nat) (size : Size) : Size := ⟨count * size.forward, count * size.backward⟩

/-- The empty expression takes no state in a sequence, but one where it stands alone. -/
def alone (size : Size) : Size := ⟨max 32 size.forward, max 32 size.backward⟩

end Size

section Paths

variable {α : Type} [DecidableEq α]

/-- How paths go on behind each of their first steps; paths with the same first step are
neighbours. -/
def continuations (paths : List (List α)) : List (List (List α)) :=
  ((paths.filter (· ≠ [])).splitBy (·.head? == ·.head?)).map (·.map List.tail)

def stepCount : Nat → List (List α) → Nat
  | 0, _ => 0
  | length + 1, paths => ((continuations paths).map (1 + stepCount length ·)).sum

/-- What is still to be read, at every place that is not the end of all paths. -/
def openPaths : Nat → List (List α) → List (List (List α))
  | 0, _ => []
  | length + 1, paths =>
    match continuations paths with
    | [] => []
    | next => paths :: next.flatMap (openPaths length)

end Paths

def character? : List (Nat × Nat) → Option (List Nat)
  | [(first, last)] => if first = last then some (Unicode.utf8Bytes first) else none
  | _ => none

/-- A character takes a state for each byte, ASCII ranges share one state. Other sets share states
forward where the same is still to be read, and backward where the bytes before are the same. -/
def Size.ofRanges (ranges : List (Nat × Nat)) : Size :=
  match character? ranges with
  | some bytes => both (32 * bytes.length)
  | none =>
    if ranges.all fun range => range.2 < 0x80 then both (64 + 8 * ranges.length)
    else
      let paths := ranges.flatMap Unicode.bytePaths
      let branches := (openPaths 5 paths).eraseDups.map fun rest => (continuations rest).length
      { forward := branches.foldl (fun bytes count => bytes + 32 + 8 * count) 32
        backward := 64 + 4 * paths.length + 32 * stepCount 4 paths }

/-! ## 3. Expressions -/

def trieSize : Nat → List (List Nat) → Nat
  | 0, _ => 0
  | length + 1, words =>
    match continuations words with
    | [] => 0
    | next =>
      let choice := if words.contains [] then 40 else 36
      let reading := if next.length = 1 then 32 else 32 + 8 * next.length
      choice + reading + (next.map (trieSize length)).sum

def Size.ofWords (words : List (List Nat)) : Size :=
  ⟨trie words, trie (words.map List.reverse)⟩
where
  trie (words : List (List Nat)) : Nat :=
    let words := (words.mergeSort fun v w => !w.lex v Nat.blt).eraseReps
    32 + trieSize ((words.map List.length).foldl max 0 + 1) words

/-- The alternatives of an expression, with their sizes together. Alternatives that are sets make
one set, and alternatives that are words share their beginnings. -/
structure Choice where
  count : Nat
  size : Size
  ranges? : Option (List (Nat × Nat))
  words? : Option (List (List Nat))

namespace Choice

def single (size : Size) (word? : Option (List Nat)) : Choice :=
  ⟨1, size, none, word?.map fun word => [word]⟩

def ofSet (s : CharSet) : Choice :=
  let ranges := s.ranges
  { single (.ofRanges ranges) (character? ranges) with ranges? := some ranges }

def total (c : Choice) : Size :=
  if c.count = 1 then c.size
  else
    match c.ranges?, c.words? with
    | some ranges, _ => .ofRanges (CharSet.joinRanges ranges)
    | none, some words => .ofWords words
    | none, none => c.size + .both (64 + 4 * c.count)

def word? (c : Choice) : Option (List Nat) :=
  match c.words? with
  | some [word] => some word
  | _ => none

def append (a b : Choice) : Choice where
  count := a.count + b.count
  size := a.size.alone + b.size.alone
  ranges? := return (← a.ranges?) ++ (← b.ranges?)
  words? := return (← a.words?) ++ (← b.words?)

end Choice

def consumes : Regex → Bool
  | .empty | .assertion _ => false
  | .set _ => true
  | .group a => consumes a
  | .seq a b => consumes a || consumes b
  | .alt a b => consumes a && consumes b
  | .repetition a least _ => decide (0 < least) && consumes a

def takesNothing : Regex → Bool
  | .empty | .assertion _ => true
  | .set _ => false
  | .group a => takesNothing a
  | .seq a b | .alt a b => takesNothing a && takesNothing b
  | .repetition a _ most => decide (most = some 0) || takesNothing a

def Size.repeated (size : Size) (consumes : Bool) : Nat → Option Nat → Size
  | 0, some 1 => size + both 72
  | 0, none => size + both (if consumes then 40 else 112)
  | least, none => size.times least + both 40
  | least, some most =>
    if most = least then size.times least
    else (size.times least).alone + both 32 + (size + both 40).times (most - least)

/-- Groups are marked in the program that searches forward only. What matches nothing but the empty
text is repeated once at most. -/
def choice : Regex → Choice
  | .empty => .single (.both 0) none
  | .set s => .ofSet s
  | .assertion _ => .single (.both 32) none
  | .group a => .single ((choice a).total.alone + ⟨64, 0⟩) none
  | .seq a b =>
    let a := choice a
    let b := choice b
    .single (a.total + b.total) (return (← a.word?) ++ (← b.word?))
  | .alt a b => (choice a).append (choice b)
  | .repetition a least most =>
    let size := (choice a).total.alone
    if takesNothing a then
      .single (size.repeated false (min least 1) (some (min (most.getD 1) 1))) none
    else .single (size.repeated (consumes a) least most) none

def size (r : Regex) : Size := (choice r).total.alone + ⟨208, 144⟩

def maxSize : Nat := 10 * 0x100000

/-- More bytes than an expression takes. -/
def allowance : Regex → Nat
  | .empty | .assertion _ => 0x80
  | .set s => s.allowance
  | .group a => a.allowance + 0x80
  | .seq a b | .alt a b => a.allowance + b.allowance + 0x80
  | .repetition a least most => (a.allowance + 0x80) * max (max 1 least) (most.getD 0) + 0x80

/-- Whether an expression is small enough. Few come near the bound, and only those are measured. -/
def fits (r : Regex) : Bool :=
  decide (r.allowance ≤ maxSize) ||
    decide (r.size.forward ≤ maxSize) && decide (r.size.backward ≤ maxSize)

end Regex

end Conform
