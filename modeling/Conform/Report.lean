import Conform.Path
import Conform.Schema.Render

/-! What validation finds: diagnostics, reports of subtrees, and outcomes of whole calls. -/

namespace Conform

inductive Finding where
  | typeCoercion
  | unableToCoerce
  | notAnInteger
  | minimumViolated
  | maximumViolated
  | maxLengthViolated
  | minLengthViolated
  | notARootKey
  | regexViolated
  | invalidRegex
  | invalidKey (key : String)
  | extraKey (key : String)
  | missingField (key : String)
  | missingValueField (key : String)
  | notAllowed (value : String)
  | noOptionsMatched
  | unknownSchema (name : String)
  /-- A remark in words of its own. -/
  | remark (text : String)
  deriving DecidableEq

namespace Finding

def message : Finding → String
  | .typeCoercion => "type coercion"
  | .unableToCoerce => "unable to coerce"
  | .notAnInteger => "not an integer"
  | .minimumViolated => "minimum violated"
  | .maximumViolated => "maximum violated"
  | .maxLengthViolated => "max length violated"
  | .minLengthViolated => "min length violated"
  | .notARootKey => "not a valid key into the root index"
  | .regexViolated => "regex violated"
  | .invalidRegex => "invalid regex"
  | .invalidKey key => "invalid key: " ++ key
  | .extraKey key => "extra key not in schema: " ++ key
  | .missingField key => "missing field: " ++ key
  | .missingValueField key => "missing value field: " ++ key
  | .notAllowed value => "value not allowed by enum: " ++ value
  | .noOptionsMatched => "no options matched"
  | .unknownSchema name => "schema type not recognized: " ++ name
  | .remark text => text

end Finding

structure Diagnostic where
  value : Value
  schema : SchemaRef
  path : Path
  finding : Finding

namespace Diagnostic

def message (d : Diagnostic) : String := d.finding.message

def line (d : Diagnostic) : String := d.path.render ++ ": " ++ d.message

end Diagnostic

structure Report where
  sanitized : Option Value := none
  errors : List Diagnostic := []
  warnings : List Diagnostic := []

namespace Report

def isOk (r : Report) : Bool := r.errors.isEmpty

/-- A subtree with errors has no sanitized value. -/
def close (r : Report) : Report := if r.isOk then r else { r with sanitized := none }

/-- The sanitized value of a child inside its parent; where there is none, the parent has none
either, and null holds the place. -/
def placeholder (r : Report) : Value := r.sanitized.getD .null

/-- Fewer errors are better, then fewer warnings. -/
def betterThan (r s : Report) : Bool :=
  decide (r.errors.length < s.errors.length) ||
    (r.errors.length == s.errors.length && decide (r.warnings.length < s.warnings.length))

/-- The best report, of equally good ones the first. -/
def best? : List Report → Option Report
  | [] => none
  | r :: rest => some (rest.foldl (fun best s => if s.betterThan best then s else best) r)

end Report

inductive Outcome where
  | ok (sanitized : Value) (warnings : List Diagnostic)
  | errors (list : List Diagnostic)

namespace Outcome

def ofReport (r : Report) : Outcome :=
  if r.isOk then .ok r.placeholder r.warnings else .errors r.errors

def isOk : Outcome → Bool
  | .ok .. => true
  | .errors _ => false

def sanitized? : Outcome → Option Value
  | .ok v _ => some v
  | .errors _ => none

def warningList : Outcome → List Diagnostic
  -- Warnings are given beside a sanitized value only.
  | .ok _ warnings => warnings
  | .errors _ => []

def errorList : Outcome → List Diagnostic
  | .ok .. => []
  | .errors list => list

end Outcome

def PathSegment.toDocument : PathSegment → Document
  | .key name => .string name
  | .index position => .integer position

def Path.toDocument (path : Path) : Document := .list (path.map PathSegment.toDocument)

def Diagnostic.toDocument (d : Diagnostic) : Document :=
  .map
    [("value", d.value.toDocument), ("schema", d.schema.toValue.toDocument),
      ("path", d.path.toDocument), ("message", .string d.message)]

def Outcome.toDocument : Outcome → Document
  | .ok sanitized warnings =>
    .map
      [("status", .string "ok"),
        ("meta", .map
          [("sanitized", sanitized.toDocument),
            ("warnings", .list (warnings.map Diagnostic.toDocument))])]
  | .errors list =>
    .map
      [("status", .string "errors"),
        ("meta", .map [("list", .list (list.map Diagnostic.toDocument))])]

end Conform
