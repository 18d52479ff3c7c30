import Conform.Schema.Basic
import Conform.Value

/-! Schemas as values: mappings with a `type` and a `meta` of the options. -/

namespace Conform

def optionalEntry (name : String) (value : Option Value) : List (String × Value) :=
  (value.map ((name, ·))).toList

def switchEntry (name : String) (on : Bool) : List (String × Value) :=
  if on then [(name, .bool true)] else []

def NumberRules.toEntries (rules : NumberRules) : List (String × Value) :=
  switchEntry "integer" rules.integer ++
  optionalEntry "min" (rules.min.map .number) ++
  optionalEntry "max" (rules.max.map .number)

def StringRules.toEntries (rules : StringRules) : List (String × Value) :=
  optionalEntry "max_length" (rules.maxLength.map fun n => .number (.ofNat n)) ++
  optionalEntry "min_length" (rules.minLength.map fun n => .number (.ofNat n)) ++
  optionalEntry "regex" (rules.regex.map .regex) ++
  switchEntry "root_index" rules.rootKey ++
  switchEntry "confidential" rules.confidential

def schemaEntry (kind : PrimitiveKind) (options : List (String × Value)) : Value :=
  .map [("type", .string kind.name), ("meta", .map options)]

mutual

/-- The value of a schema. Options that are not set are left out; an enum has all of its own. -/
def Schema.toValue : Schema → Value
  | .freeform => schemaEntry .freeform []
  | .boolean => schemaEntry .boolean []
  | .regex => schemaEntry .regex []
  | .number rules => schemaEntry .number rules.toEntries
  | .string rules => schemaEntry .string rules.toEntries
  | .index elements validKeys =>
    schemaEntry .index
      (("elements", SchemaRef.toValue elements) ::
        optionalEntry "valid_keys" (validKeys.map .regex))
  | .list elements => schemaEntry .list [("elements", SchemaRef.toValue elements)]
  | .args fields => schemaEntry .args [("fields", .map (fieldsToEntries fields))]
  | .object fields => schemaEntry .object [("fields", .map (fieldsToEntries fields))]
  | .enum valueField metaField strict options =>
    schemaEntry .enum
      [("value_field", .string valueField), ("meta_field", .string metaField),
        ("strict", .bool strict), ("options", .map (optionsToEntries options))]
  | .multi allowed => schemaEntry .multi [("allowed", .list (refsToValues allowed))]

def SchemaRef.toValue : SchemaRef → Value
  | .named name => .string name
  | .inline schema => Schema.toValue schema

def fieldsToEntries : List (String × SchemaRef) → List (String × Value)
  | [] => []
  | (name, ref) :: rest => (name, SchemaRef.toValue ref) :: fieldsToEntries rest

def optionsToEntries : List (String × List (String × SchemaRef)) → List (String × Value)
  | [] => []
  | (name, fields) :: rest => (name, .map (fieldsToEntries fields)) :: optionsToEntries rest

def refsToValues : List SchemaRef → List Value
  | [] => []
  | ref :: rest => SchemaRef.toValue ref :: refsToValues rest

end

def SchemaSet.toValue (set : SchemaSet) : Value :=
  .map (set.schemas.map fun (name, schema) => (name, schema.toValue))

end Conform
