import Conform.Number.Literal
import Conform.Options
import Conform.Report

/-! Validation: a walk over a value and a schema together, down to a limit of depth. -/

namespace Conform

structure Context where
  root : Value
  schemas : SchemaSet
  options : Options

structure DepthExceeded where
  limit : Nat
  path : Path
  deriving DecidableEq

namespace DepthExceeded

def message (e : DepthExceeded) : String :=
  "maximum validation depth " ++ toString e.limit ++ " exceeded at " ++ e.path.render

end DepthExceeded

structure Node where
  value : Value
  schema : SchemaRef
  path : Path

namespace Node

def diagnose (node : Node) (finding : Finding) : Diagnostic :=
  ⟨node.value, node.schema, node.path, finding⟩

def accept (_node : Node) (v : Value) : Report := { sanitized := some v }

def reject (node : Node) (finding : Finding) : Report := { errors := [node.diagnose finding] }

def coerce (node : Node) (v : Value) : Report :=
  { sanitized := some v, warnings := [node.diagnose .typeCoercion] }

def check (node : Node) (conditions : List (Bool × Finding)) (r : Report) : Report :=
  { r with
    errors := r.errors ++
      ((conditions.filter Prod.fst).map Prod.snd).map node.diagnose }

end Node

/-! ## 1. Scalars -/

def Node.boolean (node : Node) : Report :=
  match node.value with
  | .bool b => node.accept (.bool b)
  | .string "true" => node.coerce (.bool true)
  | .string "false" => node.coerce (.bool false)
  | _ => node.reject .unableToCoerce

def coerceNumber? : Value → Option Number
  | .number n => if n.isFinite then some n else none
  | .string s => Number.ofLiteral? s
  | _ => none

def Node.number (node : Node) (rules : NumberRules) : Report :=
  -- What is neither a number nor a literal of one counts as a coercion too, but fails.
  let warnings := if node.value.number?.isSome then [] else [node.diagnose .typeCoercion]
  match coerceNumber? node.value with
  | none => { errors := [node.diagnose .unableToCoerce], warnings }
  | some n =>
    node.check
      [(rules.integer && !n.isIntegral, .notAnInteger),
        (rules.min.any (n.lt ·), .minimumViolated),
        (rules.max.any (·.lt n), .maximumViolated)]
      { sanitized := some (.number n), warnings }

def confidentialPlaceholder : String := "(confidential)"

def coerceString? : Value → Option (String × Bool)
  | .string s => some (s, false)
  | .number n => some (n.format.toLower, true)
  | .bool b => some (if b then "true" else "false", true)
  | _ => none

def Node.string (node : Node) (ctx : Context) (rules : StringRules) : Report :=
  match coerceString? node.value with
  | none => node.reject .unableToCoerce
  | some (text, coerced) =>
    let sanitized :=
      if rules.confidential && ctx.options.hidesConfidential then confidentialPlaceholder else text
    node.check
      [(rules.maxLength.any (decide <| · < text.length), .maxLengthViolated),
        (rules.minLength.any (decide <| text.length < ·), .minLengthViolated),
        (rules.rootKey && !ctx.root.hasKey text, .notARootKey),
        (rules.regex.any fun p => !p.isMatch text, .regexViolated)]
      (if coerced then node.coerce (.string sanitized) else node.accept (.string sanitized))

def renderPattern (options : Options) (p : Pattern) : Value :=
  if options.rendersRegex then .string p.toLiteral else .regex p

def Node.regex (node : Node) (options : Options) : Report :=
  match node.value with
  | .regex p => node.accept (renderPattern options p)
  | .string literal =>
    match Pattern.ofLiteral literal with
    | .ok p => node.accept (renderPattern options p)
    | .error _ => node.reject .invalidRegex
  | _ => node.reject .unableToCoerce

/-! ## 2. Containers -/

/-- The walk below a node: the step to a child, the child, and the schema it is held against. -/
abbrev Descent := PathSegment → Value → SchemaRef → Except DepthExceeded Report

def Node.list (node : Node) (descend : Descent) (elements : SchemaRef) :
    Except DepthExceeded Report :=
  match node.value with
  | .list items => do
    let children ← items.zipIdx.mapM fun (item, position) =>
      descend (.index position) item elements
    .ok
      { sanitized := some (.list (children.map Report.placeholder))
        errors := children.flatMap Report.errors
        warnings := children.flatMap Report.warnings }
  | _ => .ok (node.reject .unableToCoerce)

/-- The errors of an entry: a key that must not be stands before the errors of the value. -/
def Node.entryErrors (node : Node) (validKeys : Option Pattern) (entry : String × Report) :
    List Diagnostic :=
  if validKeys.any fun p => !p.isMatch entry.1 then
    node.diagnose (.invalidKey entry.1) :: entry.2.errors
  else entry.2.errors

/-- A list with items is no mapping, though it can be taken for one. -/
def Node.listWarnings (node : Node) : List Diagnostic :=
  match node.value with
  | .list (_ :: _) => [node.diagnose .typeCoercion]
  | _ => []

def Node.index (node : Node) (descend : Descent) (elements : SchemaRef)
    (validKeys : Option Pattern) : Except DepthExceeded Report :=
  -- A list is keyed by position.
  match node.value.keyed? with
  | none => .ok (node.reject .unableToCoerce)
  | some entries => do
    let children ← entries.mapM fun (key, child) => do
      .ok (key, ← descend (.key key) child elements)
    .ok
      { sanitized := some (.map (children.map fun (key, r) => (key, r.placeholder)))
        errors := children.flatMap (node.entryErrors validKeys)
        warnings := node.listWarnings ++ children.flatMap fun (_, r) => r.warnings }

def visitField (descend : Descent) (fields : Fields) (entry : String × Value) :
    Except DepthExceeded (String × Option Report) :=
  match fields.get? entry.1 with
  | some ref => (descend (.key entry.1) entry.2 ref).map fun r => (entry.1, some r)
  | none => .ok (entry.1, none)

def Node.fieldWarnings (node : Node) : String × Option Report → List Diagnostic
  -- An undeclared entry is dropped.
  | (_, some r) => r.warnings
  | (key, none) => [node.diagnose (.extraKey key)]

def Node.missingFields (node : Node) (fields : Fields) (entries : Entries Value) :
    List Diagnostic :=
  (fields.keys.filter fun key => !entries.contains key).map fun key =>
    node.diagnose (.missingField key)

/-- A mapping with declared fields. Where all are required, presence counts, even of a field that
fails. -/
def Node.fields (node : Node) (descend : Descent) (required : Bool) (fields : Fields) :
    Except DepthExceeded Report :=
  match node.value.keyed? with
  | none => .ok (node.reject .unableToCoerce)
  | some entries => do
    let children ← entries.mapM (visitField descend fields)
    .ok
      { sanitized := some <| .map <| children.filterMap fun (key, r) =>
          r.map fun r => (key, r.placeholder)
        errors :=
          (children.flatMap fun (_, r) => (r.map Report.errors).getD []) ++
            if required then node.missingFields fields entries else []
        warnings := children.flatMap node.fieldWarnings }

/-! ## 3. Choices -/

/-- A mapping whose value field names an option, whose fields the payload in the meta field must
meet. A payload that is not there is empty. -/
def Node.enum (node : Node) (descend : Descent) (valueField metaField : String) (strict : Bool)
    (options : Entries Fields) : Except DepthExceeded Report :=
  match node.value.keyed? with
  | none => .ok (node.reject .unableToCoerce)
  | some entries =>
    match entries.get? valueField with
    | none => .ok (node.reject (.missingValueField valueField))
    | some discriminant =>
      match discriminant.string?.bind fun name => (options.get? name).map ((name, ·)) with
      | none => .ok (node.reject (.notAllowed discriminant.toText))
      | some (name, fields) => do
        let payload := (entries.get? metaField).getD (.map [])
        let schema := SchemaRef.inline (if strict then .object fields else .args fields)
        let r ← descend (.key metaField) payload schema
        let sanitized :=
          Entries.ofList [(valueField, Value.string name), (metaField, r.placeholder)]
        .ok { r with sanitized := some (.map sanitized) }

def candidateKey (position : Nat) : PathSegment :=
  .key ("(multi: " ++ toString position ++ ")")

/-- The report of the best candidate if it has no errors; else all that the candidates report. -/
def Node.multi (node : Node) (descend : Descent) (allowed : List SchemaRef) :
    Except DepthExceeded Report := do
  let candidates ← allowed.zipIdx.mapM fun (ref, position) =>
    descend (candidateKey position) node.value ref
  match (Report.best? candidates).filter Report.isOk with
  | some winner => .ok winner
  | none =>
    .ok
      { errors := node.diagnose .noOptionsMatched :: candidates.flatMap Report.errors
        warnings := candidates.flatMap Report.warnings }

/-! ## 4. The walk -/

/-- The report of a node by its schema, before errors withhold the sanitized value. -/
def Node.visit (node : Node) (ctx : Context) (descend : Descent) :
    Schema → Except DepthExceeded Report
  | .freeform => .ok (node.accept node.value)
  | .boolean => .ok node.boolean
  | .regex => .ok (node.regex ctx.options)
  | .number rules => .ok (node.number rules)
  | .string rules => .ok (node.string ctx rules)
  | .index elements validKeys => node.index descend elements validKeys
  | .list elements => node.list descend elements
  | .args fields => node.fields descend false fields
  | .object fields => node.fields descend true fields
  | .enum valueField metaField strict options =>
    node.enum descend valueField metaField strict options
  | .multi allowed => node.multi descend allowed

def SchemaRef.label : SchemaRef → String
  | .named name => name
  | .inline schema => schema.kind.name

/-- Validates a value at the end of `path`. The first argument counts the nodes that may still
follow one below the other, this one included. -/
def walk (ctx : Context) : Nat → Path → Value → SchemaRef → Except DepthExceeded Report
  | 0, path, _, _ => .error ⟨ctx.options.depthLimit, path⟩
  | levels + 1, path, v, ref =>
    let value := v.represented
    match ctx.schemas.resolve? ref with
    | none => .ok (Node.reject ⟨value, ref, path⟩ (.unknownSchema ref.label))
    | some schema =>
      let descend : Descent := fun step child ref => walk ctx levels (path ++ [step]) child ref
      (Node.visit ⟨value, .inline schema, path⟩ ctx descend schema).map Report.close

/-- Validates a value against a schema from the root on. The depth of a node is the length of its
path. -/
def validate (ctx : Context) (v : Value) (ref : SchemaRef) : Except DepthExceeded Report :=
  walk ctx (ctx.options.depthLimit + 1) [] v ref

end Conform
