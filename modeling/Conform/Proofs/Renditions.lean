import Conform.Proofs.Acceptance

/-!
# Renditions — what a sanitized value is made of

The sanitized value of an accepted container is put together from the sanitized values of its
children (`Node.Accepts.assembled`).  That of a leaf is what is read from the given value, and the
options decide no more than how it is written (`Node.Accepts.rendition`).
-/

namespace Conform

/-! ## 1. Leaves and containers -/

namespace Schema

def isLeaf : Schema → Bool
  | .freeform | .boolean | .regex | .number _ | .string _ => true
  | _ => false

def isContainer : Schema → Bool
  | .list _ | .index .. | .args _ | .object _ | .enum .. => true
  | _ => false

/-- A schema is a leaf, a container or a choice. -/
theorem leaf_or_container_or_choice (schema : Schema) :
    schema.isLeaf = true ∨ schema.isContainer = true ∨ ∃ allowed, schema = .multi allowed := by
  cases schema with
  | freeform | boolean | regex | number | string => exact .inl rfl
  | list | index | args | object | enum => exact .inr (.inl rfl)
  | multi allowed => exact .inr (.inr ⟨allowed, rfl⟩)

theorem ne_multi_of_isContainer {schema : Schema} (h : schema.isContainer = true)
    (allowed : List SchemaRef) : schema ≠ .multi allowed := by
  rintro rfl
  cases h

end Schema

/-- A container of the given form, put together from what the children of a value became. Of an
enum the discriminant stands before them. -/
def Value.assemble (v : Value) (schema : Schema) (became : Branch → Value) : Value :=
  match schema with
  | .list _ => .list ((v.branches schema).map became)
  | .enum valueField _ _ _ =>
    .map ((valueField, ((v.keyed?.getD []).lookup valueField).getD .null) ::
      (v.branches schema).map fun b => (b.step.toText, became b))
  | _ => .map ((v.branches schema).map fun b => (b.step.toText, became b))

namespace Node

variable {node : Node} {ctx : Context} {D : Reports} {schema : Schema} {s : Value}
  {ws : List Diagnostic}

/-- The entries that are kept are those of the branches. -/
theorem keptFields_eq {fields : Fields} {entries : Entries Value}
    (hv : node.value.keyed? = some entries) :
    keptFields D fields entries =
      (node.value.branches (.args fields)).map fun b =>
        (b.step.toText, (b.report D).placeholder) := by
  rw [branches_args hv, List.map_filterMap]
  unfold keptFields
  congr 1
  funext e
  cases fields.get? e.1 <;> rfl

/-- An accepted container is put together from its children. -/
theorem Accepts.assembled (h : node.Accepts ctx D schema s ws)
    (hcontainer : schema.isContainer = true) :
    s = node.value.assemble schema fun b => (b.report D).placeholder := by
  cases h with
  | freeform | boolean | booleanName | number | string | regex | regexLiteral | multi =>
    cases hcontainer
  | list value children =>
    unfold Value.assemble Value.branches
    rw [value]
    dsimp only
    rw [List.map_map]
    rfl
  | @index elements validKeys entries value keys children =>
    unfold Value.assemble
    dsimp only
    rw [branches_index value, List.map_map]
    rfl
  | args value children => exact congrArg Value.map (keptFields_eq value)
  | object value present children => exact congrArg Value.map (keptFields_eq value)
  | enum value discriminant option distinct children =>
    unfold Value.assemble
    dsimp only
    rw [branches_enum value discriminant option, value, Option.getD_some]
    change _ = Value.map ((_, (Entries.get? _ _).getD .null) :: _)
    rw [discriminant]
    rfl

/-- Of an accepted container all children are accepted. -/
theorem Accepts.children (h : node.Accepts ctx D schema s ws)
    (hmulti : ∀ allowed, schema ≠ .multi allowed) :
    ∀ b ∈ node.value.branches schema, (b.report D).isOk = true := by
  cases h with
  | freeform | boolean | booleanName | number | string | regex | regexLiteral =>
    exact fun b hb => absurd hb List.not_mem_nil
  | list value children => exact children
  | index value keys children => exact children
  | args value children => exact children
  | object value present children => exact children
  | enum value discriminant option distinct children => exact children
  | multi => exact absurd rfl (hmulti _)

/-! ## 2. Leaves -/

/-- The report of an accepted leaf. -/
theorem Accepts.report_leaf (h : node.Accepts ctx D schema s ws) (hleaf : schema.isLeaf = true) :
    node.report ctx D schema = ⟨some s, [], ws⟩ := by
  cases h with
  | freeform => rfl
  | boolean value =>
    show node.boolean = _
    unfold Node.boolean
    rw [value]
    rfl
  | @booleanName b value =>
    show node.boolean = _
    unfold Node.boolean
    rw [value]
    cases b <;> rfl
  | number value meets => exact number_of_meets value meets
  | string value meets => exact string_of_meets value meets
  | regex value =>
    show node.regex ctx.options = _
    unfold Node.regex
    rw [value]
    rfl
  | regexLiteral value compiles =>
    show node.regex ctx.options = _
    unfold Node.regex
    rw [value]
    dsimp only
    rw [compiles]
    rfl
  | list | index | args | object | enum | multi => cases hleaf

end Node

/-- Two ways of writing what is read from a leaf: they differ in a pattern, which is its literal
under some options, and in a confidential text, which is hidden under some. -/
inductive Rendition (options options' : Options) : Schema → Value → Value → Prop
  | same (schema : Schema) (s : Value) : Rendition options options' schema s s
  | pattern (p : Pattern) :
    Rendition options options' .regex (renderPattern options p) (renderPattern options' p)
  | text {rules : StringRules} (confidential : rules.confidential = true) (text : String) :
    Rendition options options' (.string rules) (.string (rules.shown options text))
      (.string (rules.shown options' text))

namespace Node

variable {node node' : Node} {ctx ctx' : Context} {D D' : Reports} {schema : Schema} {s s' : Value}
  {ws ws' : List Diagnostic}

theorem boolean_sanitized (hv : node'.value = node.value) :
    node'.boolean.sanitized = node.boolean.sanitized := by
  unfold boolean
  rw [hv]
  split <;> rfl

theorem number_sanitized (hv : node'.value = node.value) (rules : NumberRules) :
    (node'.number rules).sanitized = (node.number rules).sanitized := by
  unfold number
  rw [hv]
  cases coerceNumber? node.value <;> rfl

/-- What a string comes to depends on its text, and on what is shown of it. -/
theorem string_sanitized (node : Node) (ctx : Context) (rules : StringRules) :
    (node.string ctx rules).sanitized =
      (coerceString? node.value).map fun found => .string (rules.shown ctx.options found.1) := by
  unfold string
  cases coerceString? node.value with
  | none => rfl
  | some found =>
    rcases found with ⟨text, coerced⟩
    cases coerced <;> rfl

/-- What is accepted of a leaf is written in one way or another. -/
theorem Accepts.rendition (h : node.Accepts ctx D schema s ws)
    (h' : node'.Accepts ctx' D' schema s' ws') (hleaf : schema.isLeaf = true)
    (hv : node'.value = node.value) : Rendition ctx.options ctx'.options schema s s' := by
  have hs := congrArg Report.sanitized (h.report_leaf hleaf)
  have hs' := congrArg Report.sanitized (h'.report_leaf hleaf)
  -- Of the leaves only strings and patterns depend on the options.
  cases schema with
  | list | index | args | object | enum | multi => cases hleaf
  | freeform =>
    have hsame : s' = s := Option.some.inj (hs'.symm.trans ((congrArg some hv).trans hs))
    rw [hsame]
    exact .same .freeform s
  | boolean =>
    have hsame : s' = s := Option.some.inj (hs'.symm.trans ((boolean_sanitized hv).trans hs))
    rw [hsame]
    exact .same .boolean s
  | number rules =>
    have hsame : s' = s :=
      Option.some.inj (hs'.symm.trans ((number_sanitized hv rules).trans hs))
    rw [hsame]
    exact .same (.number rules) s
  | string rules =>
    change (node.string ctx rules).sanitized = some s at hs
    change (node'.string ctx' rules).sanitized = some s' at hs'
    rw [string_sanitized] at hs hs'
    rw [hv] at hs'
    obtain ⟨found, hfound, rfl⟩ := Option.map_eq_some_iff.1 hs
    rw [hfound] at hs'
    obtain rfl := Option.some.inj hs'
    cases hconfidential : rules.confidential with
    | true => exact .text hconfidential found.1
    | false =>
      unfold StringRules.shown
      rw [hconfidential]
      exact .same _ _
  | regex =>
    change (node.regex ctx.options).sanitized = some s at hs
    change (node'.regex ctx'.options).sanitized = some s' at hs'
    unfold Node.regex at hs hs'
    rw [hv] at hs'
    split at hs
    · rename_i p value
      rw [value] at hs'
      cases hs
      cases hs'
      exact .pattern p
    · rename_i literal value
      rw [value] at hs'
      dsimp only at hs'
      cases hliteral : Pattern.ofLiteral literal with
      | error e =>
        rw [hliteral] at hs
        cases hs
      | ok p =>
        rw [hliteral] at hs hs'
        cases hs
        cases hs'
        exact .pattern p
    · cases hs

end Node

end Conform
