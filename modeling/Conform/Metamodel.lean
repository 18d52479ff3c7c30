import Conform.Schema.Basic

/-! The schemas that every model is held against, in the schema language itself. -/

namespace Conform.Metamodel

def modelSchema : String := "model"

/-- Every key but the empty one and the word `type`. -/
def modelKeySource : String := "^(?:[^t]|t[^y]|ty[^p]|typ[^e]|type.|t$|ty$|typ$)"

def modelKeyPattern : Pattern :=
  .ofReadable modelKeySource {} (by decide +kernel)

def primitiveSource : String :=
  "^(" ++ String.intercalate "|" (PrimitiveKind.all.map PrimitiveKind.name) ++ ")$"

def primitivePattern : Pattern := .ofReadable primitiveSource {} (by decide +kernel)

def optionFields : PrimitiveKind → Fields
  | .freeform | .boolean | .regex => []
  | .number => [("integer", .named "boolean"), ("max", .named "number"), ("min", .named "number")]
  | .string =>
    [("max_length", .named "natural number"), ("min_length", .named "natural number"),
      ("regex", .named "regex"), ("root_index", .named "boolean"),
      ("confidential", .named "boolean")]
  | .enum =>
    [("value_field", .named "string"), ("meta_field", .named "string"),
      ("strict", .named "boolean"),
      ("options", .inline (.index (.named "object fields") none))]
  | .index => [("elements", .named "composite schema"), ("valid_keys", .named "regex")]
  | .list => [("elements", .named "composite schema")]
  | .args | .object => [("fields", .named "object fields")]
  | .multi => [("allowed", .inline (.list (.named "composite schema")))]

/-- A composite schema is a schema in place, the name of a primitive, or a key of the model, which
is the root while a model is validated. -/
def schemas : SchemaSet where
  schemas :=
    [("model", .index (.named "schema") (some modelKeyPattern)),
      ("primitive string", .string { regex := some primitivePattern }),
      ("composite schema",
        .multi
          [.named "schema", .named "primitive string", .inline (.string { rootKey := true })]),
      ("natural number", .number { integer := true, min := some .zero }),
      ("object fields", .index (.named "composite schema") none),
      ("schema",
        .enum "type" "meta" false
          (PrimitiveKind.all.map fun kind => (kind.name, optionFields kind)))]

end Conform.Metamodel
