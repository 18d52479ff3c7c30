import Conform.Regex.CharSet

/-! Names of character properties in patterns. -/

namespace Conform.CharProperty

open Unicode

/-- Names are compared in lower case without blanks, hyphens and underscores, and less a leading
`is`; only ASCII characters count. -/
def normalizeName (name : List Char) : String :=
  let keep := fun (cs : List Char) =>
    (cs.filter fun c => decide (c.toNat < 0x80) && !(c == ' ' || c == '_' || c == '-')).map
      Char.toLower
  match name with
  | i :: s :: rest =>
    if i.toLower = 'i' ∧ s.toLower = 's' then
      let kept := keep rest
      String.ofList (if kept = ['c'] then ['i', 's', 'c'] else kept)
    else String.ofList (keep name)
  | _ => String.ofList (keep name)

def category? : String → Option CharProperty
  | "any" => some .any
  | "assigned" => some .assigned
  | "ascii" => some .ascii
  | "lu" | "uppercaseletter" => some (.category [.uppercaseLetter])
  | "ll" | "lowercaseletter" => some (.category [.lowercaseLetter])
  | "lt" | "titlecaseletter" => some (.category [.titlecaseLetter])
  | "lc" | "casedletter" =>
    some (.category [.uppercaseLetter, .lowercaseLetter, .titlecaseLetter])
  | "lm" | "modifierletter" => some (.category [.modifierLetter])
  | "lo" | "otherletter" => some (.category [.otherLetter])
  | "l" | "letter" =>
    some (.category
      [.uppercaseLetter, .lowercaseLetter, .titlecaseLetter, .modifierLetter, .otherLetter])
  | "mn" | "nonspacingmark" => some (.category [.nonspacingMark])
  | "mc" | "spacingmark" => some (.category [.spacingMark])
  | "me" | "enclosingmark" => some (.category [.enclosingMark])
  | "m" | "mark" | "combiningmark" =>
    some (.category [.nonspacingMark, .spacingMark, .enclosingMark])
  | "nd" | "decimalnumber" | "digit" => some (.category [.decimalNumber])
  | "nl" | "letternumber" => some (.category [.letterNumber])
  | "no" | "othernumber" => some (.category [.otherNumber])
  | "n" | "number" => some (.category [.decimalNumber, .letterNumber, .otherNumber])
  | "pc" | "connectorpunctuation" => some (.category [.connectorPunctuation])
  | "pd" | "dashpunctuation" => some (.category [.dashPunctuation])
  | "ps" | "openpunctuation" => some (.category [.openPunctuation])
  | "pe" | "closepunctuation" => some (.category [.closePunctuation])
  | "pi" | "initialpunctuation" => some (.category [.initialPunctuation])
  | "pf" | "finalpunctuation" => some (.category [.finalPunctuation])
  | "po" | "otherpunctuation" => some (.category [.otherPunctuation])
  | "p" | "punctuation" | "punct" =>
    some (.category
      [.connectorPunctuation, .dashPunctuation, .openPunctuation, .closePunctuation,
        .initialPunctuation, .finalPunctuation, .otherPunctuation])
  | "sm" | "mathsymbol" => some (.category [.mathSymbol])
  | "sc" | "currencysymbol" => some (.category [.currencySymbol])
  | "sk" | "modifiersymbol" => some (.category [.modifierSymbol])
  | "so" | "othersymbol" => some (.category [.otherSymbol])
  | "s" | "symbol" =>
    some (.category [.mathSymbol, .currencySymbol, .modifierSymbol, .otherSymbol])
  | "zs" | "spaceseparator" => some (.category [.spaceSeparator])
  | "zl" | "lineseparator" => some (.category [.lineSeparator])
  | "zp" | "paragraphseparator" => some (.category [.paragraphSeparator])
  | "z" | "separator" => some (.category [.spaceSeparator, .lineSeparator, .paragraphSeparator])
  | "cc" | "control" | "cntrl" => some (.category [.control])
  | "cf" | "format" => some (.category [.format])
  | "co" | "privateuse" => some (.category [.privateUse])
  | "cn" | "unassigned" => some (.category [.unassigned])
  | "c" | "other" =>
    some (.category [.control, .format, .surrogate, .privateUse, .unassigned])
  | _ => none

def binary? : String → Option CharProperty
  | "alphabetic" | "alpha" => some .alphabetic
  | "lowercase" | "lower" => some .lowercase
  | "uppercase" | "upper" => some .uppercase
  | "cased" => some .cased
  | "math" => some .math
  | "graphemeextend" | "grext" => some .graphemeExtend
  | "graphemebase" | "grbase" => some .graphemeBase
  | "idstart" | "ids" => some .identifierStart
  | "idcontinue" | "idc" => some .identifierPart
  | "xidstart" | "xids" => some .stableIdentifierStart
  | "xidcontinue" | "xidc" => some .stableIdentifierPart
  | "changeswhenlowercased" | "cwl" => some .changesWhenLowercased
  | "changeswhenuppercased" | "cwu" => some .changesWhenUppercased
  | "changeswhentitlecased" | "cwt" => some .changesWhenTitlecased
  | "changeswhencasefolded" | "cwcf" => some .changesWhenCasefolded
  | "changeswhencasemapped" | "cwcm" => some .changesWhenCasemapped
  | "caseignorable" | "ci" => some .caseIgnorable
  | name => (listedProperty? name).map fun _ => .listed name

def script? (name : String) : Option CharProperty :=
  (Unicode.script? name).map fun _ => .script name

def ofName? (name : List Char) : Option CharProperty :=
  let name := normalizeName name
  (binary? name).orElse fun _ => (category? name).orElse fun _ => script? name

def ofNameAndValue? (name value : List Char) : Option CharProperty :=
  let value := normalizeName value
  match normalizeName name with
  | "gc" | "generalcategory" => category? value
  | "sc" | "script" => script? value
  | "scx" | "scriptextensions" => (Unicode.script? value).map fun _ => .usedIn value
  | "age" => (Unicode.version? value).map .knownIn
  | "gcb" | "graphemeclusterbreak" => (Unicode.GraphemeBreak.ofName? value).map .graphemeBreak
  | "wb" | "wordbreak" => (Unicode.WordBreak.ofName? value).map .wordBreak
  | "sb" | "sentencebreak" => (Unicode.SentenceBreak.ofName? value).map .sentenceBreak
  | _ => none

end Conform.CharProperty
