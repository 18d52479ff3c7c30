import Conform.Schema.Render

/-! Reading schemas from values. -/

namespace Conform

inductive SchemaError where
  | unknownPrimitive (name : String)
  | notMapping (type : String)
  | missingType
  | metaNotMapping (kind : PrimitiveKind) (type : String)
  | optionsNotMapping (type : String)
  | fieldsNotMapping (type : String)
  | allowedNotList (type : String)
  | notReference (type : String)
  | modelNotMapping (type : String)
  /-- An option has a value of the wrong type. -/
  | wrongOption (option expected got : String)
  /-- An option holds a literal that is no pattern. -/
  | wrongPattern (option : String) (cause : PatternError)
  /-- A schema of a set is at fault. -/
  | inSchema (name : String) (cause : SchemaError)

namespace SchemaError

def message : SchemaError → String
  -- A name that is no primitive has a message of its own.
  | .unknownPrimitive name => "unknown primitive type '" ++ name ++ "'"
  | .notMapping type => "malformed schema: schema must be a mapping, got " ++ type
  | .missingType => "malformed schema: schema is missing a string 'type'"
  | .metaNotMapping kind type =>
    "malformed schema: meta of a " ++ kind.name ++ " schema must be a mapping, got " ++ type
  | .optionsNotMapping type => "malformed schema: enum options must be a mapping, got " ++ type
  | .fieldsNotMapping type => "malformed schema: fields must be a mapping, got " ++ type
  | .allowedNotList type => "malformed schema: multi allowed must be a list, got " ++ type
  | .notReference type =>
    "malformed schema: schema reference must be a name or a mapping, got " ++ type
  | .modelNotMapping type => "malformed schema: model must be a mapping, got " ++ type
  | .wrongOption option expected got =>
    "malformed schema: '" ++ option ++ "' must be " ++ expected ++ ", got " ++ got
  | .wrongPattern option cause => "malformed schema: '" ++ option ++ "': " ++ cause.message
  | .inSchema name cause => "malformed schema: schema '" ++ name ++ "': " ++ cause.message

end SchemaError

def optionOf {α : Type} (options : Entries Value) (name : String)
    (read : Value → Except SchemaError α) : Except SchemaError (Option α) :=
  match options.get? name with
  | none => .ok none
  | some v => (read v).map some

def boolOption (options : Entries Value) (name : String) : Except SchemaError (Option Bool) :=
  optionOf options name fun
    | .bool b => .ok b
    | v => .error (.wrongOption name "a boolean" v.typeName)

def stringOption (options : Entries Value) (name : String) :
    Except SchemaError (Option String) :=
  optionOf options name fun
    | .string s => .ok s
    | v => .error (.wrongOption name "a string" v.typeName)

def numberOption (options : Entries Value) (name : String) :
    Except SchemaError (Option Number) :=
  -- Bounds are finite.
  optionOf options name fun v =>
    match v.number?.filter Number.isFinite with
    | some n => .ok n
    | none => .error (.wrongOption name "a finite number" v.toText)

def lengthOption (options : Entries Value) (name : String) :
    Except SchemaError (Option Nat) :=
  -- Lengths past the greatest one are cut to it.
  optionOf options name fun v =>
    match v.number?.filter fun n => n.isIntegral && !n.lt .zero with
    | some n => .ok n.toLength
    | none => .error (.wrongOption name "a natural number" v.toText)

def patternOption (options : Entries Value) (name : String) :
    Except SchemaError (Option Pattern) :=
  optionOf options name fun
    | .regex p => .ok p
    | .string literal => (Pattern.ofLiteral literal).mapError (.wrongPattern name)
    | v => .error (.wrongOption name "a regex" v.typeName)

def NumberRules.ofOptions (options : Entries Value) : Except SchemaError NumberRules := do
  let integer ← boolOption options "integer"
  let min ← numberOption options "min"
  let max ← numberOption options "max"
  .ok { integer := integer.getD false, min, max }

def StringRules.ofOptions (options : Entries Value) : Except SchemaError StringRules := do
  let maxLength ← lengthOption options "max_length"
  let minLength ← lengthOption options "min_length"
  let regex ← patternOption options "regex"
  let rootKey ← boolOption options "root_index"
  let confidential ← boolOption options "confidential"
  .ok
    { maxLength, minLength, regex
      rootKey := rootKey.getD false
      confidential := confidential.getD false }

def kindOfEntries (entries : Entries Value) : Except SchemaError PrimitiveKind :=
  match (entries.get? "type").bind Value.string? with
  | none => .error .missingType
  | some name =>
    match PrimitiveKind.ofName? name with
    | some kind => .ok kind
    | none => .error (.unknownPrimitive name)

mutual

/-- The schema of a mapping with `type` and `meta`. Options that the primitive does not have are
passed over. -/
def Schema.ofValue : Value → Except SchemaError Schema
  | .map entries => (kindOfEntries entries).bind fun kind => schemaIn kind entries
  | v => .error (.notMapping v.typeName)

def SchemaRef.ofValue : Value → Except SchemaError SchemaRef
  | .string name => .ok (.named name)
  | .map entries =>
    ((kindOfEntries entries).bind fun kind => schemaIn kind entries).map .inline
  | v => .error (.notReference v.typeName)

def schemaIn (kind : PrimitiveKind) : List (String × Value) → Except SchemaError Schema
  -- No `meta`, and null, set no option.
  | [] => .ok (Schema.bare kind)
  | (key, v) :: rest =>
    if key = "meta" then
      match v with
      | .null => .ok (Schema.bare kind)
      | .map options =>
        match kind with
        | .freeform => .ok .freeform
        | .boolean => .ok .boolean
        | .regex => .ok .regex
        | .number => (NumberRules.ofOptions options).map .number
        | .string => (StringRules.ofOptions options).map .string
        | .index => do
          let elements ← refIn "elements" options
          let validKeys ← patternOption options "valid_keys"
          .ok (.index (elements.getD Schema.defaultElements) validKeys)
        | .list => do
          let elements ← refIn "elements" options
          .ok (.list (elements.getD Schema.defaultElements))
        | .args => do .ok (.args (← fieldsIn options))
        | .object => do .ok (.object (← fieldsIn options))
        | .enum => do
          let cases ← enumOptionsIn options
          let valueField ← stringOption options "value_field"
          let metaField ← stringOption options "meta_field"
          let strict ← boolOption options "strict"
          .ok (.enum (valueField.getD "value") (metaField.getD "meta") (strict.getD true) cases)
        | .multi => do .ok (.multi (← allowedIn options))
      | v => .error (.metaNotMapping kind v.typeName)
    else schemaIn kind rest

def refIn (name : String) : List (String × Value) → Except SchemaError (Option SchemaRef)
  | [] => .ok none
  | (key, v) :: rest =>
    if key = name then (SchemaRef.ofValue v).map some else refIn name rest

def fieldsIn : List (String × Value) → Except SchemaError (List (String × SchemaRef))
  | [] => .ok []
  | (key, v) :: rest =>
    if key = "fields" then
      match v with
      | .map fields => fieldsOfEntries fields
      | v => .error (.fieldsNotMapping v.typeName)
    else fieldsIn rest

def fieldsOfEntries : List (String × Value) → Except SchemaError (List (String × SchemaRef))
  | [] => .ok []
  | (name, v) :: rest => do
    let ref ← SchemaRef.ofValue v
    let fields ← fieldsOfEntries rest
    .ok ((name, ref) :: fields)

def enumOptionsIn :
    List (String × Value) → Except SchemaError (List (String × List (String × SchemaRef)))
  | [] => .ok []
  | (key, v) :: rest =>
    if key = "options" then
      match v with
      | .map cases => enumOptionsOfEntries cases
      | v => .error (.optionsNotMapping v.typeName)
    else enumOptionsIn rest

def enumOptionsOfEntries :
    List (String × Value) → Except SchemaError (List (String × List (String × SchemaRef)))
  | [] => .ok []
  | (name, v) :: rest => do
    let fields ←
      match v with
      | .map fields => fieldsOfEntries fields
      | v => .error (.fieldsNotMapping v.typeName)
    let cases ← enumOptionsOfEntries rest
    .ok ((name, fields) :: cases)

def allowedIn : List (String × Value) → Except SchemaError (List SchemaRef)
  | [] => .ok []
  | (key, v) :: rest =>
    if key = "allowed" then
      match v with
      | .list items => refsOfItems items
      | v => .error (.allowedNotList v.typeName)
    else allowedIn rest

def refsOfItems : List Value → Except SchemaError (List SchemaRef)
  | [] => .ok []
  | v :: rest => do
    let ref ← SchemaRef.ofValue v
    let refs ← refsOfItems rest
    .ok (ref :: refs)

end

def schemasOfEntries : List (String × Value) → Except SchemaError (Entries Schema)
  | [] => .ok []
  | (name, v) :: rest => do
    let schema ← (Schema.ofValue v).mapError (.inSchema name)
    let schemas ← schemasOfEntries rest
    .ok ((name, schema) :: schemas)

def SchemaSet.ofValue : Value → Except SchemaError SchemaSet
  | .map entries => (schemasOfEntries entries).map SchemaSet.mk
  | v => .error (.modelNotMapping v.typeName)

end Conform
