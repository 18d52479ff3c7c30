import Conform.Entries
import Conform.Number.Basic
import Conform.Pattern
import Conform.Schema.Kind

/-! Schemas: a primitive with its options, given in place or by name. -/

namespace Conform

structure NumberRules where
  integer : Bool := false
  min : Option Number := none
  max : Option Number := none

/-- What a string must meet; lengths count characters. A root key is a key of the root value. -/
structure StringRules where
  maxLength : Option Nat := none
  minLength : Option Nat := none
  regex : Option Pattern := none
  rootKey : Bool := false
  confidential : Bool := false
  deriving DecidableEq

mutual

inductive Schema where
  | freeform
  | boolean
  | regex
  | number (rules : NumberRules)
  | string (rules : StringRules)
  /-- A mapping with entries of one schema. -/
  | index (elements : SchemaRef) (validKeys : Option Pattern)
  /-- A list with items of one schema. -/
  | list (elements : SchemaRef)
  /-- A mapping with declared fields, any of which may be missing. -/
  | args (fields : List (String × SchemaRef))
  /-- A mapping with declared fields, all of which must be there. -/
  | object (fields : List (String × SchemaRef))
  /-- A mapping whose value field selects the fields of the payload in its meta field. -/
  | enum (valueField metaField : String) (strict : Bool)
      (options : List (String × List (String × SchemaRef)))
  /-- The best match among candidates. -/
  | multi (allowed : List SchemaRef)

inductive SchemaRef where
  | named (name : String)
  | inline (schema : Schema)

end

abbrev Fields := Entries SchemaRef

namespace Schema

instance : Inhabited Schema := ⟨.freeform⟩

def kind : Schema → PrimitiveKind
  | .freeform => .freeform
  | .boolean => .boolean
  | .regex => .regex
  | .number _ => .number
  | .string _ => .string
  | .index .. => .index
  | .list _ => .list
  | .args _ => .args
  | .object _ => .object
  | .enum .. => .enum
  | .multi _ => .multi

/-- The schema of list items and mapping entries unless one is given: objects. -/
def defaultElements : SchemaRef := .named PrimitiveKind.object.name

def bare : PrimitiveKind → Schema
  | .freeform => .freeform
  | .boolean => .boolean
  | .regex => .regex
  | .number => .number {}
  | .string => .string {}
  | .index => .index defaultElements none
  | .list => .list defaultElements
  | .args => .args []
  | .object => .object []
  | .enum => .enum "value" "meta" true []
  | .multi => .multi []

theorem kind_bare (kind : PrimitiveKind) : (bare kind).kind = kind := by cases kind <;> rfl

end Schema

namespace NumberRules

def eqv (a b : NumberRules) : Bool :=
  let same : Option Number → Option Number → Bool
    | none, none => true
    | some m, some n => m.eqv n
    | _, _ => false
  a.integer == b.integer && same a.min b.min && same a.max b.max

end NumberRules

mutual

def Schema.eqv : Schema → Schema → Bool
  | .freeform, .freeform => true
  | .boolean, .boolean => true
  | .regex, .regex => true
  | .number a, .number b => a.eqv b
  | .string a, .string b => decide (a = b)
  | .index a p, .index b q => SchemaRef.eqv a b && decide (p = q)
  | .list a, .list b => SchemaRef.eqv a b
  | .args a, .args b => a.length == b.length && eqvFields a b
  | .object a, .object b => a.length == b.length && eqvFields a b
  | .enum v m s a, .enum v' m' s' b =>
    v == v' && m == m' && s == s' && a.length == b.length && eqvOptions a b
  | .multi a, .multi b => eqvRefs a b
  | _, _ => false

def SchemaRef.eqv : SchemaRef → SchemaRef → Bool
  | .named a, .named b => a == b
  | .inline a, .inline b => Schema.eqv a b
  | _, _ => false

def eqvFields : List (String × SchemaRef) → List (String × SchemaRef) → Bool
  | [], _ => true
  | (name, a) :: rest, others =>
    (match others.lookup name with
      | some b => SchemaRef.eqv a b
      | none => false) && eqvFields rest others

def eqvOptions :
    List (String × List (String × SchemaRef)) → List (String × List (String × SchemaRef)) → Bool
  | [], _ => true
  | (name, a) :: rest, others =>
    (match others.lookup name with
      | some b => a.length == b.length && eqvFields a b
      | none => false) && eqvOptions rest others

def eqvRefs : List SchemaRef → List SchemaRef → Bool
  | [], [] => true
  | a :: as, b :: bs => SchemaRef.eqv a b && eqvRefs as bs
  | _, _ => false

end

structure SchemaSet where
  schemas : Entries Schema := []

namespace SchemaSet

def get? (set : SchemaSet) (name : String) : Option Schema := set.schemas.get? name

def contains (set : SchemaSet) (name : String) : Bool := set.schemas.contains name

def names (set : SchemaSet) : List String := set.schemas.keys

def insert (set : SchemaSet) (name : String) (schema : Schema) : SchemaSet :=
  ⟨set.schemas.insert name schema⟩

def eqv (a b : SchemaSet) : Bool :=
  a.schemas.length == b.schemas.length &&
    a.schemas.all fun (name, s) =>
      match b.get? name with
      | some t => s.eqv t
      | none => false

/-- What a reference means: a schema in place, a schema of the set, or else a bare primitive. -/
def resolve? (set : SchemaSet) : SchemaRef → Option Schema
  | .inline schema => some schema
  | .named name => (set.get? name).orElse fun _ => (PrimitiveKind.ofName? name).map Schema.bare

end SchemaSet

end Conform
