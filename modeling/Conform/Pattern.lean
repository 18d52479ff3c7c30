import Conform.Regex.Reader
import Conform.Text.Quoted

/-! Patterns: regular expressions that remember the literal they were written as. -/

namespace Conform

structure PatternFlags where
  ignoreCase : Bool := false
  multiLine : Bool := false
  deriving DecidableEq

namespace PatternFlags

def toText (flags : PatternFlags) : String :=
  match flags.ignoreCase, flags.multiLine with
  | false, false => ""
  | true, false => "i"
  | false, true => "m"
  | true, true => "im"

def add? (flags : PatternFlags) : Char → Option PatternFlags
  | 'i' => if flags.ignoreCase then none else some { flags with ignoreCase := true }
  | 'm' => if flags.multiLine then none else some { flags with multiLine := true }
  | _ => none

/-- Reads `i` and `m` in any order, each at most once. -/
def ofChars? (chars : List Char) : Option PatternFlags := chars.foldlM add? {}

def spellings : List String := ["", "i", "m", "im", "mi"]

def toSwitches (flags : PatternFlags) : Regex.Flags :=
  { ignoreCase := flags.ignoreCase, multiLine := flags.multiLine }

end PatternFlags

inductive PatternError where
  /-- The text has not the form `/source/flags`. -/
  | malformedLiteral (literal : String)
  /-- The flags are not `i` and `m`, each at most once. -/
  | unsupportedFlags (flags : String)
  /-- The source is no regular expression. -/
  | compile (source : String) (fault : Regex.Fault)
  deriving DecidableEq

namespace PatternError

def message : PatternError → String
  | .malformedLiteral literal =>
    "malformed regex literal " ++ Text.quoted literal ++ ": expected /pattern/flags"
  | .unsupportedFlags flags =>
    "unsupported regex flags " ++ Text.quoted flags ++ ": only 'i' and 'm' are allowed"
  | .compile source .tooLarge =>
    "invalid pattern " ++ Text.quoted source ++ ": Compiled regex exceeds size limit of " ++
      toString Regex.maxSize ++ " bytes."
  | .compile source _ => "invalid pattern " ++ Text.quoted source ++ ": regex parse error"

end PatternError

/-- A source and flags, with the regular expression they spell. -/
structure Pattern where
  source : String
  flags : PatternFlags
  regex : Regex
  compiled : Regex.read flags.toSwitches source = .ok regex

namespace Pattern

/-- Source and flags determine the pattern. -/
theorem ext {p q : Pattern} (hs : p.source = q.source) (hf : p.flags = q.flags) : p = q := by
  obtain ⟨s, f, r, h⟩ := p
  obtain ⟨s', f', r', h'⟩ := q
  simp only at hs hf
  subst hs hf
  rw [h] at h'
  cases h'
  rfl

instance : DecidableEq Pattern := fun p q =>
  if h : p.source = q.source ∧ p.flags = q.flags then .isTrue (ext h.1 h.2)
  else .isFalse fun e => h (e ▸ ⟨rfl, rfl⟩)

def compile (source : String) (flags : PatternFlags) : Except PatternError Pattern :=
  match h : Regex.read flags.toSwitches source with
  | .ok regex => .ok ⟨source, flags, regex, h⟩
  | .error fault => .error (.compile source fault)

def ofSource (source flags : String) : Except PatternError Pattern :=
  match PatternFlags.ofChars? flags.toList with
  | some flags => compile source flags
  | none => .error (.unsupportedFlags flags)

def ofReadable (source : String) (flags : PatternFlags)
    (h : (Regex.read flags.toSwitches source).isOk = true) : Pattern :=
  match read : Regex.read flags.toSwitches source with
  | .ok regex => ⟨source, flags, regex, read⟩
  | .error _ => absurd h (by simp [read, Except.isOk, Except.toBool])

def splitLast? (separator : Char) : List Char → Option (List Char × List Char)
  | [] => none
  | c :: rest =>
    match splitLast? separator rest with
    | some (before, after) => some (c :: before, after)
    | none => if c = separator then some ([], rest) else none

/-- Reads a literal `/source/flags`; the source reaches to the last slash. -/
def ofLiteral (literal : String) : Except PatternError Pattern :=
  match literal.toList with
  | '/' :: body =>
    match splitLast? '/' body with
    | some (source, flags) =>
      if PatternFlags.spellings.contains (String.ofList flags) then
        ofSource (String.ofList source) (String.ofList flags)
      else .error (.malformedLiteral literal)
    | none => .error (.malformedLiteral literal)
  | _ => .error (.malformedLiteral literal)

def toLiteral (p : Pattern) : String := "/" ++ p.source ++ "/" ++ p.flags.toText

def isMatch (p : Pattern) (text : String) : Bool := p.regex.isMatch text

end Pattern

end Conform
