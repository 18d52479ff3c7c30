import Conform.Unicode.Age
import Conform.Unicode.Break
import Conform.Unicode.CaseMapping
import Conform.Unicode.Fold

/-! Sets of characters, as patterns describe them. -/

namespace Conform

inductive CharProperty where
  | any
  | ascii
  | assigned
  | category (categories : List Unicode.Category)
  | script (name : String)
  | listed (name : String)
  | alphabetic
  | lowercase
  | uppercase
  | cased
  | math
  | graphemeExtend
  | graphemeBase
  | identifierStart
  | identifierPart
  | stableIdentifierStart
  | stableIdentifierPart
  | changesWhenLowercased
  | changesWhenUppercased
  | changesWhenTitlecased
  | changesWhenCasefolded
  | changesWhenCasemapped
  | caseIgnorable
  /-- Used in a script, alone or among others. -/
  | usedIn (script : String)
  /-- Known in the version at this place among the versions. -/
  | knownIn (version : Nat)
  | graphemeBreak (value : Unicode.GraphemeBreak)
  | wordBreak (value : Unicode.WordBreak)
  | sentenceBreak (value : Unicode.SentenceBreak)
  deriving DecidableEq

namespace CharProperty

open Unicode

def holds (c : Char) : CharProperty → Bool
  | .any => true
  | .ascii => decide (c.toNat < 0x80)
  | .assigned => Unicode.category c != .unassigned
  | .category categories => categories.contains (Unicode.category c)
  | .script name => hasScript name c
  | .listed name => isListed name c
  | .alphabetic => isAlphabetic c
  | .lowercase => isLowercase c
  | .uppercase => isUppercase c
  | .cased => isCased c
  | .math => isMath c
  | .graphemeExtend => isGraphemeExtend c
  | .graphemeBase => isGraphemeBase c
  | .identifierStart => isIdentifierStart c
  | .identifierPart => isIdentifierPart c
  | .stableIdentifierStart => isStableIdentifierStart c
  | .stableIdentifierPart => isStableIdentifierPart c
  | .changesWhenLowercased => Unicode.changesWhenLowercased c
  | .changesWhenUppercased => Unicode.changesWhenUppercased c
  | .changesWhenTitlecased => Unicode.changesWhenTitlecased c
  | .changesWhenCasefolded => Unicode.changesWhenCasefolded c
  | .changesWhenCasemapped => Unicode.changesWhenCasemapped c
  | .caseIgnorable => isCaseIgnorable c
  | .usedIn name => isUsedIn name c
  | .knownIn version => (age? c).any (· ≤ version)
  | .graphemeBreak value => graphemeBreak? c == some value
  | .wordBreak value => wordBreak? c == some value
  | .sentenceBreak value => sentenceBreak? c == some value

end CharProperty

/-- A set of characters. The ASCII forms take only characters below U+0080 into account. -/
inductive CharSet where
  | empty
  | range (first last : Char)
  | word (ascii : Bool)
  | digit (ascii : Bool)
  | space (ascii : Bool)
  | property (p : CharProperty)
  | union (a b : CharSet)
  | inter (a b : CharSet)
  | diff (a b : CharSet)
  | symmDiff (a b : CharSet)
  | compl (a : CharSet)
  | ignoreCase (ascii : Bool) (a : CharSet)
  deriving DecidableEq

namespace CharSet

open Unicode

def singleton (c : Char) : CharSet := .range c c

def isAsciiWord (c : Char) : Bool := c.isAlphanum || c == '_'

def isAsciiSpace (c : Char) : Bool := c == ' ' || (decide (9 ≤ c.toNat) && decide (c.toNat ≤ 13))

def isWordChar (ascii : Bool) (c : Char) : Bool := if ascii then isAsciiWord c else isWord c

/-- Membership. A set that ignores case holds every case variant of its members. -/
def mem (c : Char) : CharSet → Bool
  | .empty => false
  | .range first last => decide (first ≤ c) && decide (c ≤ last)
  | .word ascii => isWordChar ascii c
  | .digit ascii => if ascii then c.isDigit else Unicode.isDigit c
  | .space ascii => if ascii then isAsciiSpace c else isWhiteSpace c
  | .property p => p.holds c
  | .union a b => mem c a || mem c b
  | .inter a b => mem c a && mem c b
  | .diff a b => mem c a && !mem c b
  | .symmDiff a b => mem c a != mem c b
  | .compl a => !mem c a
  | .ignoreCase ascii a =>
    mem c a ||
      if ascii then mem c.toLower a || mem c.toUpper a else (caseVariants c).any fun d => mem d a

def unions : List CharSet → CharSet
  | [] => .empty
  | [a] => a
  | a :: rest => .union a (unions rest)

end CharSet

end Conform
