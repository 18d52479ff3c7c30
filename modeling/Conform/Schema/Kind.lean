/-! The primitives of the schema language. -/

namespace Conform

inductive PrimitiveKind where
  | freeform
  | boolean
  | number
  | string
  | regex
  | list
  | index
  | args
  | object
  | enum
  | multi
  deriving DecidableEq

namespace PrimitiveKind

def all : List PrimitiveKind :=
  [.freeform, .boolean, .number, .string, .regex, .list, .index, .args, .object, .enum, .multi]

def name : PrimitiveKind → String
  | .freeform => "freeform"
  | .boolean => "boolean"
  | .number => "number"
  | .string => "string"
  | .regex => "regex"
  | .list => "list"
  | .index => "index"
  | .args => "args"
  | .object => "object"
  | .enum => "enum"
  | .multi => "multi"

def ofName? (name : String) : Option PrimitiveKind := all.find? fun kind => kind.name == name

theorem mem_all (kind : PrimitiveKind) : kind ∈ all := by cases kind <;> decide

theorem ofName?_name (kind : PrimitiveKind) : ofName? kind.name = some kind := by
  cases kind <;> decide

end PrimitiveKind

end Conform
