import Conform.Unicode.Property
import Conform.Unicode.Script

/-! How characters take part in the division of a text into visible characters, words and
sentences. -/

namespace Conform.Unicode

def hasScript (name : String) (c : Char) : Bool :=
  ((script? name).getD #[]).contains c.toNat

def isListed (name : String) (c : Char) : Bool :=
  ((listedProperty? name).getD #[]).contains c.toNat

def isEmojiModifier (c : Char) : Bool := isListed "emojimodifier" c

def isPlainFormat (c : Char) : Bool :=
  category c == .format && c.toNat != 0x200C && c.toNat != 0x200D && !isGraphemeExtend c

/-! ### Visible characters -/

inductive GraphemeBreak where
  | carriageReturn
  | lineFeed
  | control
  | extend
  | joiner
  | regionalIndicator
  | prepend
  | spacingMark
  | leading
  | vowel
  | trailing
  | openSyllable
  | closedSyllable
  deriving DecidableEq

def standingMarkRanges : Ranges := .ofText
  "102B-102C 1038 1062-1064 1067-106D 1083 1087-108C 108F 109A-109C 1A61 1A63-1A64 AA7B AA7D
   11720-11721"

def isSpacingMark (c : Char) : Bool :=
  (category c == .spacingMark && !standingMarkRanges.contains c.toNat) ||
    c.toNat == 0xE33 || c.toNat == 0xEB3

def isPrepended (c : Char) : Bool :=
  isListed "prependedconcatenationmark" c ||
    (Ranges.ofText "D4E 111C2-111C3 113D1 1193F 11941 11A3A 11A84-11A89 11D46 11F02").contains
      c.toNat

def isControl (c : Char) : Bool :=
  match category c with
  | .control | .lineSeparator | .paragraphSeparator => true
  | .format => isPlainFormat c
  | .unassigned => isListed "defaultignorablecodepoint" c
  | _ => false

/-- The part of a Korean syllable, or the whole syllable with or without a consonant at its end. -/
def syllablePart? (code : Nat) : Option GraphemeBreak :=
  if (Ranges.ofText "1100-115F A960-A97C").contains code then some .leading
  else if (Ranges.ofText "1160-11A7 D7B0-D7C6 16D63 16D67-16D6A").contains code then some .vowel
  else if (Ranges.ofText "11A8-11FF D7CB-D7FB").contains code then some .trailing
  else if (Ranges.ofText "AC00-D7A3").contains code then
    if (code - 0xAC00) % 28 = 0 then some .openSyllable else some .closedSyllable
  else none

def graphemeBreak? (c : Char) : Option GraphemeBreak :=
  if c = '\r' then some .carriageReturn
  else if c = '\n' then some .lineFeed
  else if c.toNat = 0x200D then some .joiner
  else if isGraphemeExtend c || isEmojiModifier c then some .extend
  else if isListed "regionalindicator" c then some .regionalIndicator
  else if isPrepended c then some .prepend
  else if isControl c then some .control
  else if isSpacingMark c then some .spacingMark
  else syllablePart? c.toNat

def GraphemeBreak.ofName? : String → Option GraphemeBreak
  | "cr" => some .carriageReturn
  | "lf" => some .lineFeed
  | "control" | "cn" => some .control
  | "extend" | "ex" => some .extend
  | "zwj" => some .joiner
  | "regionalindicator" | "ri" => some .regionalIndicator
  | "prepend" | "pp" => some .prepend
  | "spacingmark" | "sm" => some .spacingMark
  | "l" => some .leading
  | "v" => some .vowel
  | "t" => some .trailing
  | "lv" => some .openSyllable
  | "lvt" => some .closedSyllable
  | _ => none

/-! ### Words -/

inductive WordBreak where
  | carriageReturn
  | lineFeed
  | newline
  | extend
  | joiner
  | regionalIndicator
  | format
  | katakana
  | hebrewLetter
  | letter
  | singleQuote
  | doubleQuote
  | middleOfAny
  | middleOfLetters
  | middleOfNumbers
  | numeric
  | connector
  | space
  deriving DecidableEq

def isKatakana (c : Char) : Bool :=
  hasScript "katakana" c || (Ranges.ofText "3031-3035 309B-309C 30A0 30FC FF70").contains c.toNat

def unspacedRanges : Ranges := .ofText
  "E01-E3A E40-E4E E81-E82 E84 E86-E8A E8C-EA3 EA5 EA7-EBD EC0-EC4 EC6 EC8-ECE EDC-EDF 1000-103F
   1050-108F 109A-109F 1780-17D3 17D7 17DC-17DD 1950-196D 1970-1974 1980-19AB 19B0-19C9 19DA
   19DE-19DF 1A20-1A5E 1A60-1A7C 1AA0-1AAD A9E0-A9EF A9FA-A9FE AA60-AAC2 AADB-AADF 11700-1171A
   1171D-1172B 1173A-1173B 1173F-11746"

def otherWordRanges : Ranges := .ofText
  "2C2-2C5 2D2-2D7 2DE-2DF 2E5-2EB 2ED 2EF-2FF 55A-55C 55E 58A 5F3 A708-A716 A720-A721 A789-A78A
   AB5B"

def isWordLetter (c : Char) : Bool :=
  (isAlphabetic c || otherWordRanges.contains c.toNat) && !isListed "ideographic" c &&
    !hasScript "hiragana" c && !unspacedRanges.contains c.toNat

def wordSign? (code : Nat) : Option WordBreak :=
  if code = 0x27 then some .singleQuote
  else if code = 0x22 then some .doubleQuote
  else if (Ranges.ofText "2E 2018-2019 2024 FE52 FF07 FF0E").contains code then some .middleOfAny
  else if (Ranges.ofText "3A B7 387 55F 5F4 2027 FE13 FE55 FF1A").contains code then
    some .middleOfLetters
  else if (Ranges.ofText
      "2C 3B 37E 589 60C-60D 66C 7F8 2044 FE10 FE14 FE50 FE54 FF0C FF1B").contains code then
    some .middleOfNumbers
  else if (Ranges.ofText "20 1680 2000-2006 2008-200A 205F 3000").contains code then some .space
  else none

def wordBreak? (c : Char) : Option WordBreak :=
  if c = '\r' then some .carriageReturn
  else if c = '\n' then some .lineFeed
  else if (Ranges.ofText "B-C 85 2028-2029").contains c.toNat then some .newline
  else if c.toNat = 0x200D then some .joiner
  else if isGraphemeExtend c || category c == .spacingMark || isEmojiModifier c then some .extend
  else if isListed "regionalindicator" c then some .regionalIndicator
  else if isPlainFormat c && c.toNat != 0x200B then some .format
  else if isKatakana c then some .katakana
  else if hasScript "hebrew" c && category c == .otherLetter then some .hebrewLetter
  else if isWordLetter c then some .letter
  else if category c == .decimalNumber || c.toNat == 0x66B then some .numeric
  else if category c == .connectorPunctuation || c.toNat == 0x202F then some .connector
  else wordSign? c.toNat

def WordBreak.ofName? : String → Option WordBreak
  | "cr" => some .carriageReturn
  | "lf" => some .lineFeed
  | "newline" | "nl" => some .newline
  | "extend" => some .extend
  | "zwj" => some .joiner
  | "regionalindicator" | "ri" => some .regionalIndicator
  | "format" | "fo" => some .format
  | "katakana" | "ka" => some .katakana
  | "hebrewletter" | "hl" => some .hebrewLetter
  | "aletter" | "le" => some .letter
  | "singlequote" | "sq" => some .singleQuote
  | "doublequote" | "dq" => some .doubleQuote
  | "midnumlet" | "mb" => some .middleOfAny
  | "midletter" | "ml" => some .middleOfLetters
  | "midnum" | "mn" => some .middleOfNumbers
  | "numeric" | "nu" => some .numeric
  | "extendnumlet" | "ex" => some .connector
  | "wsegspace" => some .space
  | _ => none

/-! ### Sentences -/

inductive SentenceBreak where
  | carriageReturn
  | lineFeed
  | separator
  | extend
  | format
  | space
  | lower
  | upper
  | letter
  | numeric
  | fullStop
  | terminal
  | continues
  | close
  deriving DecidableEq

def isClosing (c : Char) : Bool :=
  [.openPunctuation, .closePunctuation, .initialPunctuation, .finalPunctuation].contains
      (category c) ||
    (Ranges.ofText "22 27 275B-2760 2E00-2E01 2E06-2E08 2E0B 1F676-1F678").contains c.toNat

def continuesRanges : Ranges := .ofText
  "2C-2D 3A 55D 60C-60D 7F8 1802 1808 2013-2014 3001 FE10-FE11 FE13 FE31-FE32 FE50-FE51 FE55 FE58
   FE63 FF0C-FF0D FF1A FF64"

def isUncasedGeorgian (c : Char) : Bool :=
  (Ranges.ofText "10D0-10FA 10FD-10FF 1C90-1CBA 1CBD-1CBF").contains c.toNat

def sentenceBreak? (c : Char) : Option SentenceBreak :=
  if c = '\r' then some .carriageReturn
  else if c = '\n' then some .lineFeed
  else if (Ranges.ofText "85 2028-2029").contains c.toNat then some .separator
  else if isGraphemeExtend c || category c == .spacingMark || c.toNat == 0x200D then some .extend
  else if isPlainFormat c then some .format
  else if isWhiteSpace c then some .space
  else if isLowercase c && !isUncasedGeorgian c then some .lower
  else if (isUppercase c || category c == .titlecaseLetter) && !isUncasedGeorgian c then some .upper
  else if isAlphabetic c || c.toNat == 0x5F3 then some .letter
  else if category c == .decimalNumber || c.toNat == 0x66B || c.toNat == 0x66C then some .numeric
  else if (Ranges.ofText "2E 2024 FE52 FF0E").contains c.toNat then some .fullStop
  else if isListed "sentenceterminal" c then some .terminal
  else if continuesRanges.contains c.toNat then some .continues
  else if isClosing c then some .close
  else none

def SentenceBreak.ofName? : String → Option SentenceBreak
  | "cr" => some .carriageReturn
  | "lf" => some .lineFeed
  | "sep" | "se" => some .separator
  | "extend" | "ex" => some .extend
  | "format" | "fo" => some .format
  | "sp" => some .space
  | "lower" | "lo" => some .lower
  | "upper" | "up" => some .upper
  | "oletter" | "le" => some .letter
  | "numeric" | "nu" => some .numeric
  | "aterm" | "at" => some .fullStop
  | "sterm" | "st" => some .terminal
  | "scontinue" | "sc" => some .continues
  | "close" | "cl" => some .close
  | _ => none

end Conform.Unicode
