import Conform.Proofs.Acceptance

/-!
# Conformance — what a sanitized value is known to be

`Conforms` gives the meaning of schemas without mention of the walk: it knows neither paths nor
depths, and cyclic schemas have the values that finitely many unfoldings accept.  Whatever is
accepted has a sanitized value that conforms, and nothing else has one (`validate_sound`).
-/

namespace Conform

/-! ## 1. The meaning of schemas -/

/-- A value that has the form a reference asks for, in a context. -/
inductive Conforms (ctx : Context) : SchemaRef → Value → Prop
  | freeform {ref : SchemaRef} (v : Value)
    (resolved : ctx.schemas.resolve? ref = some .freeform) : Conforms ctx ref v
  | boolean {ref : SchemaRef} (b : Bool)
    (resolved : ctx.schemas.resolve? ref = some .boolean) : Conforms ctx ref (.bool b)
  | number {ref : SchemaRef} {rules : NumberRules} {n : Number}
    (resolved : ctx.schemas.resolve? ref = some (.number rules)) (meets : rules.Meets n) :
    Conforms ctx ref (.number n)
  | string {ref : SchemaRef} {rules : StringRules} {text : String}
    (resolved : ctx.schemas.resolve? ref = some (.string rules))
    (meets : rules.Meets ctx.root text) : Conforms ctx ref (.string text)
  | hidden {ref : SchemaRef} {rules : StringRules}
    (resolved : ctx.schemas.resolve? ref = some (.string rules))
    (confidential : rules.confidential = true) (hides : ctx.options.hidesConfidential = true) :
    Conforms ctx ref (.string confidentialPlaceholder)
  | regex {ref : SchemaRef} (p : Pattern) (resolved : ctx.schemas.resolve? ref = some .regex)
    (kept : ctx.options.rendersRegex = false) : Conforms ctx ref (.regex p)
  | regexLiteral {ref : SchemaRef} (p : Pattern)
    (resolved : ctx.schemas.resolve? ref = some .regex)
    (rendered : ctx.options.rendersRegex = true) : Conforms ctx ref (.string p.toLiteral)
  | list {ref elements : SchemaRef} {items : List Value}
    (resolved : ctx.schemas.resolve? ref = some (.list elements))
    (each : ∀ item ∈ items, Conforms ctx elements item) : Conforms ctx ref (.list items)
  | index {ref elements : SchemaRef} {validKeys : Option Pattern} {entries : Entries Value}
    (resolved : ctx.schemas.resolve? ref = some (.index elements validKeys))
    (keys : ∀ e ∈ entries, ∀ p, validKeys = some p → p.isMatch e.1 = true)
    (each : ∀ e ∈ entries, Conforms ctx elements e.2) : Conforms ctx ref (.map entries)
  | args {ref : SchemaRef} {fields : Fields} {entries : Entries Value}
    (resolved : ctx.schemas.resolve? ref = some (.args fields))
    (declared : ∀ e ∈ entries, fields.contains e.1 = true)
    (each : ∀ e ∈ entries, ∀ field, fields.get? e.1 = some field → Conforms ctx field e.2) :
    Conforms ctx ref (.map entries)
  | object {ref : SchemaRef} {fields : Fields} {entries : Entries Value}
    (resolved : ctx.schemas.resolve? ref = some (.object fields))
    (declared : ∀ e ∈ entries, fields.contains e.1 = true)
    (each : ∀ e ∈ entries, ∀ field, fields.get? e.1 = some field → Conforms ctx field e.2)
    (present : ∀ key ∈ fields.keys, entries.contains key = true) :
    Conforms ctx ref (.map entries)
  | enum {ref : SchemaRef} {valueField metaField name : String} {strict : Bool}
    {options : Entries Fields} {fields : Fields} {payload : Value}
    (resolved : ctx.schemas.resolve? ref = some (.enum valueField metaField strict options))
    (distinct : valueField ≠ metaField) (option : options.get? name = some fields)
    (conforms : Conforms ctx (payloadRef strict fields) payload) :
    Conforms ctx ref (.map [(valueField, .string name), (metaField, payload)])
  | multi {ref candidate : SchemaRef} {allowed : List SchemaRef} {v : Value}
    (resolved : ctx.schemas.resolve? ref = some (.multi allowed)) (mem : candidate ∈ allowed)
    (conforms : Conforms ctx candidate v) : Conforms ctx ref v

/-- The meaning of one schema, given that of the schemas inside it. -/
def Fits (ctx : Context) : Schema → Value → Prop
  | .freeform, _ => True
  | .boolean, v => ∃ b, v = .bool b
  | .number rules, v => ∃ n, v = .number n ∧ rules.Meets n
  | .string rules, v => ∃ text, v = .string text ∧ (rules.Meets ctx.root text ∨
      rules.confidential = true ∧ ctx.options.hidesConfidential = true ∧
        text = confidentialPlaceholder)
  | .regex, v => ∃ p, v = renderPattern ctx.options p
  | .list elements, v => ∃ items, v = .list items ∧ ∀ item ∈ items, Conforms ctx elements item
  | .index elements validKeys, v => ∃ entries, v = .map entries ∧
      (∀ e ∈ entries, ∀ p, validKeys = some p → p.isMatch e.1 = true) ∧
      ∀ e ∈ entries, Conforms ctx elements e.2
  | .args fields, v => ∃ entries : Entries Value, v = .map entries ∧
      ∀ e ∈ entries, ∃ field, Entries.get? fields e.1 = some field ∧ Conforms ctx field e.2
  | .object fields, v => ∃ entries : Entries Value, v = .map entries ∧
      (∀ e ∈ entries, ∃ field, Entries.get? fields e.1 = some field ∧ Conforms ctx field e.2) ∧
      ∀ key ∈ Entries.keys fields, entries.contains key = true
  | .enum valueField metaField strict options, v => ∃ name fields payload,
      v = .map [(valueField, .string name), (metaField, payload)] ∧ valueField ≠ metaField ∧
      Entries.get? options name = some fields ∧ Conforms ctx (payloadRef strict fields) payload
  | .multi allowed, v => ∃ candidate ∈ allowed, Conforms ctx candidate v

section Meaning

variable {ctx : Context} {ref : SchemaRef} {schema : Schema} {v : Value}

/-- All entries are declared and conform just when they are declared and the declared ones conform.
-/
theorem declared_iff {fields : Fields} {entries : Entries Value} :
    (∀ e ∈ entries, ∃ field, fields.get? e.1 = some field ∧ Conforms ctx field e.2) ↔
      (∀ e ∈ entries, fields.contains e.1 = true) ∧
        ∀ e ∈ entries, ∀ field, fields.get? e.1 = some field → Conforms ctx field e.2 := by
  constructor
  · intro h
    constructor
    · intro e he
      rcases h e he with ⟨field, hfield, -⟩
      exact Option.isSome_iff_exists.2 ⟨field, hfield⟩
    · intro e he field hfield
      rcases h e he with ⟨field', hfield', hconforms⟩
      rw [hfield] at hfield'
      cases hfield'
      exact hconforms
  · rintro ⟨declared, each⟩ e he
    rcases Option.isSome_iff_exists.1 (declared e he) with ⟨field, hfield⟩
    exact ⟨field, hfield, each e he field hfield⟩

/-- A reference means its schema. -/
theorem conforms_iff (h : ctx.schemas.resolve? ref = some schema) :
    Conforms ctx ref v ↔ Fits ctx schema v := by
  -- A reference has one schema, so every constructor is about the given one.
  have same {s : Schema} (hs : ctx.schemas.resolve? ref = some s) : schema = s :=
    Option.some.inj (h.symm.trans hs)
  constructor
  · intro hv
    cases hv with
    | freeform _ resolved => rw [same resolved]; trivial
    | boolean b resolved => rw [same resolved]; exact ⟨b, rfl⟩
    | number resolved meets => rw [same resolved]; exact ⟨_, rfl, meets⟩
    | string resolved meets => rw [same resolved]; exact ⟨_, rfl, .inl meets⟩
    | hidden resolved confidential hides =>
      rw [same resolved]
      exact ⟨_, rfl, .inr ⟨confidential, hides, rfl⟩⟩
    | regex p resolved kept =>
      rw [same resolved]
      exact ⟨p, by rw [renderPattern, kept]; rfl⟩
    | regexLiteral p resolved rendered =>
      rw [same resolved]
      exact ⟨p, by rw [renderPattern, rendered]; rfl⟩
    | list resolved each => rw [same resolved]; exact ⟨_, rfl, each⟩
    | index resolved keys each => rw [same resolved]; exact ⟨_, rfl, keys, each⟩
    | args resolved declared each =>
      rw [same resolved]
      exact ⟨_, rfl, declared_iff.mpr ⟨declared, each⟩⟩
    | object resolved declared each present =>
      rw [same resolved]
      exact ⟨_, rfl, declared_iff.mpr ⟨declared, each⟩, present⟩
    | enum resolved distinct option conforms =>
      rw [same resolved]
      exact ⟨_, _, _, rfl, distinct, option, conforms⟩
    | multi resolved mem conforms => rw [same resolved]; exact ⟨_, mem, conforms⟩
  · intro hv
    cases schema with
    | freeform => exact .freeform v h
    | boolean =>
      rcases hv with ⟨b, rfl⟩
      exact .boolean b h
    | number rules =>
      rcases hv with ⟨n, rfl, meets⟩
      exact .number h meets
    | string rules =>
      rcases hv with ⟨text, rfl, meets | ⟨confidential, hides, rfl⟩⟩
      · exact .string h meets
      · exact .hidden h confidential hides
    | regex =>
      rcases hv with ⟨p, rfl⟩
      unfold renderPattern
      cases rendered : ctx.options.rendersRegex
      · exact .regex p h rendered
      · exact .regexLiteral p h rendered
    | list elements =>
      rcases hv with ⟨items, rfl, each⟩
      exact .list h each
    | index elements validKeys =>
      rcases hv with ⟨entries, rfl, keys, each⟩
      exact .index h keys each
    | args fields =>
      rcases hv with ⟨entries, rfl, each⟩
      exact .args h (declared_iff.mp each).1 (declared_iff.mp each).2
    | object fields =>
      rcases hv with ⟨entries, rfl, each, present⟩
      exact .object h (declared_iff.mp each).1 (declared_iff.mp each).2 present
    | enum valueField metaField strict options =>
      rcases hv with ⟨name, fields, payload, rfl, distinct, option, conforms⟩
      exact .enum h distinct option conforms
    | multi allowed =>
      rcases hv with ⟨candidate, mem, conforms⟩
      exact .multi h mem conforms

end Meaning

/-! ## 2. Accepted values conform -/

variable {ctx : Context} {D : Reports} {node : Node} {schema : Schema} {s : Value}
  {ws : List Diagnostic}

/-- A text is shown as itself, or as the placeholder. -/
theorem StringRules.Meets.shown {rules : StringRules} {text : String}
    (meets : rules.Meets ctx.root text) :
    Fits ctx (.string rules) (.string (rules.shown ctx.options text)) := by
  unfold StringRules.shown
  by_cases h : (rules.confidential && ctx.options.hidesConfidential) = true
  · rw [if_pos h]
    rw [Bool.and_eq_true] at h
    exact ⟨_, rfl, .inr ⟨h.1, h.2, rfl⟩⟩
  · rw [if_neg h]
    exact ⟨_, rfl, .inl meets⟩

/-- The entries that are kept are declared, and conform when the branches to them do. -/
theorem keptFields_conform {fields : Fields} {entries : Entries Value}
    (hv : node.value.keyed? = some entries)
    (children : ∀ b ∈ node.value.branches (.args fields),
      Conforms ctx b.ref (b.report D).placeholder) :
    ∀ e ∈ Node.keptFields D fields entries,
      ∃ field, fields.get? e.1 = some field ∧ Conforms ctx field e.2 := by
  intro e he
  rcases List.mem_filterMap.mp he with ⟨given, hgiven, hkept⟩
  rcases Option.map_eq_some_iff.1 hkept with ⟨field, hfield, rfl⟩
  exact ⟨field, hfield, children _ (field_mem_branches hv hgiven hfield)⟩

/-- The sanitized value of an accepted node conforms when those of its branches do. -/
theorem Node.Accepts.fits (h : node.Accepts ctx D schema s ws)
    (children : ∀ b ∈ node.value.branches schema, (b.report D).isOk = true →
      Conforms ctx b.ref (b.report D).placeholder) : Fits ctx schema s := by
  cases h with
  | freeform => trivial
  | boolean => exact ⟨_, rfl⟩
  | booleanName => exact ⟨_, rfl⟩
  | number _ meets => exact ⟨_, rfl, meets⟩
  | string _ meets => exact meets.shown
  | regex => exact ⟨_, rfl⟩
  | regexLiteral => exact ⟨_, rfl⟩
  | @list elements items value ok =>
    refine ⟨_, rfl, fun item hitem => ?_⟩
    rcases List.mem_map.mp hitem with ⟨c, hc, rfl⟩
    have hb := item_mem_branches value hc elements
    exact children _ hb (ok _ hb)
  | @index elements validKeys entries value keys ok =>
    refine ⟨_, rfl, fun e he => ?_, fun e he => ?_⟩
    · rcases List.mem_map.mp he with ⟨given, hgiven, rfl⟩
      exact keys given hgiven
    · rcases List.mem_map.mp he with ⟨given, hgiven, rfl⟩
      have hb := entry_mem_branches value hgiven elements validKeys
      exact children _ hb (ok _ hb)
  | args value ok => exact ⟨_, rfl, keptFields_conform value fun b hb => children b hb (ok b hb)⟩
  | object value present ok =>
    exact ⟨_, rfl, keptFields_conform value fun b hb => children b hb (ok b hb),
      fun key hkey => Node.keptFields_contains hkey (present key hkey)⟩
  | @enum valueField metaField strict options entries name fields value discriminant option
      distinct ok =>
    have hb := payload_mem_branches value discriminant option metaField strict
    exact ⟨_, _, _, rfl, distinct, option, children _ hb (ok _ hb)⟩
  -- Nothing is known of the candidates that lost.
  | @multi allowed c candidate accepted =>
    exact ⟨c.1, List.fst_mem_of_mem_zipIdx candidate,
      children _ (candidate_mem_branches candidate _) accepted⟩

/-- What a walk without errors comes to has the form that was asked for. -/
theorem walk_conforms {levels : Nat} {path : Path} {v : Value} {ref : SchemaRef} {r : Report}
    (h : walk ctx levels path v ref = .ok r) (hok : r.isOk = true) :
    Conforms ctx ref r.placeholder := by
  refine acceptance_induction (P := fun _ _ _ ref s _ => Conforms ctx ref s) ?_
    levels path v ref r h hok
  intro levels path v ref schema D s ws hschema haccepts _ ih
  exact (conforms_iff hschema).mpr (haccepts.fits ih)

/-- A validation that completes gives a sanitized value exactly when it gives no errors, and the
sanitized value conforms to the schema. -/
theorem validate_sound (ctx : Context) (v : Value) (ref : SchemaRef) (r : Report)
    (h : validate ctx v ref = .ok r) :
    (r.sanitized.isSome = true ↔ r.errors = []) ∧
      ∀ s, r.sanitized = some s → Conforms ctx ref s := by
  have hsome := walk_sanitized _ _ _ _ _ h
  rw [hsome, Report.isOk_iff]
  refine ⟨Iff.rfl, fun s hs => ?_⟩
  rw [hs, Option.isSome_some] at hsome
  have hconforms := walk_conforms h hsome.symm
  -- The placeholder of an accepted report is its sanitized value.
  unfold Report.placeholder at hconforms
  rw [hs, Option.getD_some] at hconforms
  exact hconforms

/-- A schema that refers to itself has finite trees as its values. -/
theorem validate_sound_tree :
    Conforms ⟨.null, ⟨[("tree", .index (.named "tree") none)]⟩, {}⟩ (.named "tree")
      (.map [("left", .map [("leaf", .map [])]), ("right", .map [])]) :=
  (validate_sound ⟨.null, ⟨[("tree", .index (.named "tree") none)]⟩, {}⟩
    (.map [("left", .map [("leaf", .list [])]), ("right", .external 7 (.map []))])
    (.named "tree") ⟨some _, [], []⟩ rfl).2 _ rfl

end Conform
