/-! Sets of code points as ascending ranges, written in hexadecimal. -/

namespace Conform.Unicode

def hexToNat (digits : List Char) : Nat :=
  digits.foldl
    (fun n c => 16 * n + (if c.isDigit then c.toNat - '0'.toNat else c.toNat - 'A'.toNat + 10)) 0

def splitAtChar (separator : Char) (cs : List Char) : List (List Char) :=
  cs.foldr
    (fun c parts =>
      if c = separator then [] :: parts
      else
        match parts with
        | [] => [[c]]
        | part :: rest => (c :: part) :: rest)
    [[]]

def words (cs : List Char) : List (List Char) :=
  (splitAtChar ' ' (cs.map fun c => if c = '\n' then ' ' else c)).filter (· ≠ [])

def readRows (text : String) : List (List Nat) :=
  (words text.toList).map fun row => (splitAtChar ':' row).map hexToNat

/-- First and last code points of ascending ranges. -/
abbrev Ranges := Array (Nat × Nat)

def Ranges.ofWords (words : List (List Char)) : Ranges :=
  words.toArray.map fun word =>
    match splitAtChar '-' word with
    | [first, last] => (hexToNat first, hexToNat last)
    | _ => (hexToNat word, hexToNat word)

def Ranges.ofText (text : String) : Ranges := .ofWords (words text.toList)

/-- Named ranges: rows end in a semicolon, a row starts with names between slashes. -/
def readNamedRanges (text : String) : List (List String × Ranges) :=
  (splitAtChar ';' text.toList).map fun row =>
    match words row with
    | [] => ([], #[])
    | names :: ranges => ((splitAtChar '/' names).map String.ofList, .ofWords ranges)

def closeRun {α : Type} (decode : Char → α) (start : Nat) (code : Char) (length : Nat)
    (runs : Array (Nat × α)) : Nat × Array (Nat × α) :=
  (start + max length 1, runs.push (start, decode code))

def readRuns {α : Type} (decode : Char → α) :
    List Char → Nat → Char → Nat → Array (Nat × α) → Array (Nat × α)
  | [], start, code, length, runs => (closeRun decode start code length runs).2
  | c :: rest, start, code, length, runs =>
    if c.isDigit then
      readRuns decode rest start code (10 * length + (c.toNat - '0'.toNat)) runs
    else
      let (next, runs) := closeRun decode start code length runs
      readRuns decode rest next c 0 runs

/-- Runs that cover all code points in order: a letter, then the length of the run when it is more
than one. -/
def runsOfText {α : Type} (decode : Char → α) (text : String) : Array (Nat × α) :=
  match text.toList.filter Char.isAlphanum with
  | [] => #[]
  | c :: rest => readRuns decode rest 0 c 0 #[]

def searchAtMost {α : Type} (table : Array (Nat × α)) (key : Nat) :
    Nat → Nat → Nat → Option (Nat × α)
  | 0, low, _ => table[low]?
  | fuel + 1, low, high =>
    if low + 1 < high then
      let middle := (low + high) / 2
      match table[middle]? with
      | some entry =>
        if entry.1 ≤ key then searchAtMost table key fuel middle high
        else searchAtMost table key fuel low middle
      | none => none
    else table[low]?

def lastAtMost? {α : Type} (table : Array (Nat × α)) (key : Nat) : Option (Nat × α) :=
  (searchAtMost table key 32 0 table.size).filter fun entry => entry.1 ≤ key

def Ranges.contains (ranges : Ranges) (code : Nat) : Bool :=
  match lastAtMost? ranges code with
  | some (_, last) => decide (code ≤ last)
  | none => false

end Conform.Unicode
