import Conform.Document.Basic

/-! Options of validation, in layers. -/

namespace Conform

/-- A layer of options; what is not set is left to the layer below. -/
structure Options where
  regexAsString : Option Bool := none
  hideConfidential : Option Bool := none
  maxDepth : Option Nat := none
  defaultSchema : Option String := none
  deriving DecidableEq

namespace Options

def defaultMaxDepth : Nat := 256

def merge (lower upper : Options) : Options where
  regexAsString := upper.regexAsString <|> lower.regexAsString
  hideConfidential := upper.hideConfidential <|> lower.hideConfidential
  maxDepth := upper.maxDepth <|> lower.maxDepth
  defaultSchema := upper.defaultSchema <|> lower.defaultSchema

def rendersRegex (o : Options) : Bool := o.regexAsString.getD false

def hidesConfidential (o : Options) : Bool := o.hideConfidential.getD false

def depthLimit (o : Options) : Nat := o.maxDepth.getD defaultMaxDepth

def toDocument (o : Options) : Document :=
  let entry (name : String) (value : Option Document) : List (String × Document) :=
    (value.map ((name, ·))).toList
  .map <|
    entry "regex_as_string" (o.regexAsString.map .bool) ++
    entry "hide_confidential" (o.hideConfidential.map .bool) ++
    entry "max_depth" (o.maxDepth.map fun n => .integer n) ++
    entry "default_schema" (o.defaultSchema.map .string)

def optional {α : Type} (read? : Document → Option α) : Document → Option (Option α)
  -- Null leaves an option unset.
  | .null => some none
  | d => (read? d).map some

def bool? : Document → Option Bool
  | .bool b => some b
  | _ => none

def text? : Document → Option String
  | .string s => some s
  | _ => none

/-- A depth fits 64 bits and is written as an integer. -/
def depth? : Document → Option Nat
  | .integer i => if 0 ≤ i ∧ i < Nat.pow 2 64 then some i.toNat else none
  | _ => none

def set? (o : Options) (name : String) (value : Document) : Option Options :=
  match name with
  | "regex_as_string" => (optional bool? value).map fun b => { o with regexAsString := b }
  | "hide_confidential" => (optional bool? value).map fun b => { o with hideConfidential := b }
  | "max_depth" => (optional depth? value).map fun n => { o with maxDepth := n }
  | "default_schema" => (optional text? value).map fun s => { o with defaultSchema := s }
  | _ => none

def names : List String :=
  ["regex_as_string", "hide_confidential", "max_depth", "default_schema"]

def setAll? (o : Options) : List (String × Document) → Option Options
  | [] => some o
  | (name, value) :: rest => (o.set? name value).bind (setAll? · rest)

/-- A layer from a document: a mapping of known names, none twice, or a list of values by
position. -/
def ofDocument? : Document → Option Options
  | .map pairs =>
    if (pairs.map Prod.fst).eraseDups.length = pairs.length then setAll? {} pairs else none
  | .list items => if items.length ≤ names.length then setAll? {} (names.zip items) else none
  | _ => none

end Options

end Conform
