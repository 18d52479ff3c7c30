import Conform.Unicode.Property
import Conform.Unicode.Script

/-! Ranges of code points as the ranges of bytes that UTF-8 writes them with. -/

namespace Conform.Unicode

def Ranges.cuts (ranges : Ranges) : List Nat :=
  ranges.toList.flatMap fun (first, last) => [first, last + 1]

def tableCuts : List Nat :=
  (categoryRuns.toList.map Prod.fst ++
    (properties ++ otherProperties ++ scripts ++ sharedCharacters).flatMap (·.2.cuts)).mergeSort
    |>.eraseReps

def cutBefore (code : Nat) (range : Nat × Nat) : List (Nat × Nat) :=
  if range.1 < code ∧ code ≤ range.2 then [(range.1, code - 1), (code, range.2)] else [range]

/-- Cuts a range into the whole blocks of a size and what lies before and behind them. A range
inside one block stays as it is. -/
def cutBlocks (size : Nat) (range : Nat × Nat) : List (Nat × Nat) :=
  if range.1 / size = range.2 / size then [range]
  else
    (cutBefore ((range.1 + size - 1) / size * size) range).flatMap
      (cutBefore ((range.2 + 1) / size * size))

def utf8Bytes (code : Nat) : List Nat := (String.utf8EncodeChar (Char.ofNat code)).map UInt8.toNat

/-- The ranges of each byte, for the code points of a range without surrogates. The pieces end
where the number of bytes changes, and are such that every choice of bytes is a character. -/
def bytePaths (range : Nat × Nat) : List (List (Nat × Nat)) :=
  let lengths := ((cutBefore 0x80 range).flatMap (cutBefore 0x800)).flatMap (cutBefore 0x10000)
  let pieces :=
    ((lengths.flatMap (cutBlocks 0x40)).flatMap (cutBlocks 0x1000)).flatMap (cutBlocks 0x40000)
  pieces.map fun (first, last) => (utf8Bytes first).zip (utf8Bytes last)

end Conform.Unicode
