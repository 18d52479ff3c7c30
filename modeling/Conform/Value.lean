import Conform.Document.Basic
import Conform.Entries
import Conform.Json.Writer
import Conform.Pattern

/-! Values: the loosely typed trees that are validated, and that validation gives back. -/

namespace Conform

/-- A loosely typed tree. An `external` value stands for an object of the host: its handle is the
object's identity, and its representation is what is validated in its place. -/
inductive Value where
  | null
  | bool (b : Bool)
  | number (n : Number)
  | string (s : String)
  | regex (p : Pattern)
  | list (items : List Value)
  | map (entries : List (String × Value))
  | external (handle : Nat) (representation : Value)

namespace Value

instance : Inhabited Value := ⟨.null⟩

def typeName : Value → String
  | .null => "null"
  | .bool _ => "boolean"
  | .number _ => "number"
  | .string _ => "string"
  | .regex _ => "regex"
  | .list _ => "list"
  | .map _ => "map"
  | .external .. => "opaque"

def isNull : Value → Bool
  | .null => true
  | _ => false

def bool? : Value → Option Bool
  | .bool b => some b
  | _ => none

def number? : Value → Option Number
  | .number n => some n
  | _ => none

def string? : Value → Option String
  | .string s => some s
  | _ => none

def pattern? : Value → Option Pattern
  | .regex p => some p
  | _ => none

def list? : Value → Option (List Value)
  | .list items => some items
  | _ => none

def map? : Value → Option (Entries Value)
  | .map entries => some entries
  | _ => none

def get? (v : Value) (key : String) : Option Value := v.map?.bind (Entries.get? · key)

def entriesOfList (items : List Value) : Entries Value :=
  items.zipIdx.map fun (item, position) => (toString position, item)

def keyed? : Value → Option (Entries Value)
  | .map entries => some entries
  | .list items => some (entriesOfList items)
  | _ => none

/-- Whether a key of a mapping, or the decimal position of a list item without superfluous signs
and zeros, is given. -/
def hasKey (v : Value) (key : String) : Bool :=
  match v with
  | .map entries => Entries.contains entries key
  | .list items =>
    match Number.radixNat? 10 key.toList with
    | some position => decide (position < items.length) && toString position == key
    | none => false
  | _ => false

/-- An external value gives way to its representation, once. -/
def represented : Value → Value
  | .external _ representation => representation
  | v => v

mutual

/-- Equality of values: mappings are equal whatever the order of their keys, numbers compare as
numbers, and an external value equals itself only. -/
def eqv : Value → Value → Bool
  | .null, .null => true
  | .bool a, .bool b => a == b
  | .number a, .number b => a.eqv b
  | .string a, .string b => a == b
  | .regex a, .regex b => decide (a = b)
  | .list a, .list b => eqvItems a b
  | .map a, .map b => a.length == b.length && eqvEntries a b
  | .external a _, .external b _ => a == b
  | _, _ => false

def eqvItems : List Value → List Value → Bool
  | [], [] => true
  | a :: as, b :: bs => eqv a b && eqvItems as bs
  | _, _ => false

def eqvEntries : List (String × Value) → List (String × Value) → Bool
  | [], _ => true
  | (key, a) :: rest, others =>
    (match others.lookup key with
      | some b => eqv a b
      | none => false) && eqvEntries rest others

end

mutual

/-- The document that a value is written as: patterns are literals, and an external value gives
way to its representation. -/
def toDocument : Value → Document
  | .null => .null
  | .bool b => .bool b
  | .number n => .ofNumber n
  | .string s => .string s
  | .regex p => .string p.toLiteral
  | .list items => .list (toDocuments items)
  | .map entries => .map (toDocumentEntries entries)
  | .external _ representation => toDocument representation

def toDocuments : List Value → List Document
  | [] => []
  | item :: rest => toDocument item :: toDocuments rest

def toDocumentEntries : List (String × Value) → List (String × Document)
  | [] => []
  | (key, value) :: rest => (key, toDocument value) :: toDocumentEntries rest

end

def toJson (v : Value) : String := Json.write v.toDocument

def toText : Value → String
  | .null => "null"
  | .bool b => if b then "true" else "false"
  | .number n => n.format
  | .string s => s
  | .regex p => p.toLiteral
  | v => v.toJson

mutual

/-- The value of a document; of a key that comes twice, the first place and the last value count. -/
def ofDocument : Document → Value
  | .null => .null
  | .bool b => .bool b
  | .integer i => .number (Number.ofInt i)
  | .real n => .number n
  | .string s => .string s
  | .list items => .list (ofDocuments items)
  | .map pairs => .map (Entries.ofList (ofDocumentPairs pairs))

def ofDocuments : List Document → List Value
  | [] => []
  | item :: rest => ofDocument item :: ofDocuments rest

def ofDocumentPairs : List (String × Document) → List (String × Value)
  | [] => []
  | (key, value) :: rest => (key, ofDocument value) :: ofDocumentPairs rest

end

end Value

end Conform
