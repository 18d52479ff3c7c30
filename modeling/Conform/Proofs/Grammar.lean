import Conform.Proofs.Cleanness
import Conform.Proofs.Idempotence
import Conform.Proofs.Models

/-!
# Grammar — the specifications that give a model

A specification gives a model when nothing is said of it against the metamodel, which is a matter of
what the walk makes of eleven schemas.  Here the same specifications are described as a grammar
(`HasForm`), without a walk: every form is held against one reference of the metamodel, and what is
clean under that reference is what has the form (`walk_clean_iff_hasForm`).
-/

namespace Conform

/-! ## 1. Values without external values -/

/-- No external value occurs in the value. -/
def Value.Native (v : Value) : Prop := ∀ handle w, ¬(Value.external handle w).Within v

namespace Value

variable {v w : Value} {entries : Entries Value}

theorem Native.within (h : v.Native) (hw : w.Within v) : w.Native :=
  fun handle x hx => h handle x (hx.trans hw)

theorem Native.represented (h : v.Native) : v.represented = v := by
  cases v with
  | external handle w => exact absurd (.self _) (h handle w)
  | _ => rfl

theorem native_string (s : String) : (string s).Native := by
  intro handle w h
  cases h

theorem native_map : (map entries).Native ↔ ∀ e ∈ entries, e.2.Native := by
  constructor
  · intro h e he
    exact h.within (.entry he (.self e.2))
  · intro h handle w hw
    cases hw with
    | entry mem within => exact h _ mem handle w within

/-- The children of a value without external values have none either. -/
theorem Native.branch {schema : Schema} {b : Branch} (h : v.Native) (hb : b ∈ v.branches schema) :
    b.value.Native := by
  rcases branch_within hb with hwithin | hempty
  · exact h.within hwithin
  · rw [hempty]
    exact native_map.mpr fun e he => absurd he List.not_mem_nil

end Value

/-! ## 2. Exact containers

What a container takes without a remark, where the same is known of its children. -/

namespace Node

variable {node : Node} {ctx : Context} {D : Reports} {P : Value → Prop}

/-- A list is exact when its items are what is asked for. -/
theorem exact_list_iff {elements : SchemaRef}
    (below : ∀ b ∈ node.value.branches (.list elements), (b.report D).Clean ↔ P b.value) :
    node.Exact ctx D (.list elements) ↔
      ∃ items, node.value = .list items ∧ ∀ item ∈ items, P item := by
  constructor
  · rintro ⟨⟨items, hv⟩, hbelow⟩
    refine ⟨items, hv, fun item hitem => ?_⟩
    rw [← List.zipIdx_map_fst 0 items] at hitem
    obtain ⟨c, hc, rfl⟩ := List.mem_map.mp hitem
    have hmem := item_mem_branches hv hc elements
    exact (below _ hmem).mp (hbelow _ hmem)
  · rintro ⟨items, hv, each⟩
    refine ⟨⟨items, hv⟩, fun b hb => (below b hb).mpr ?_⟩
    rw [hv] at hb
    obtain ⟨c, hc, rfl⟩ := List.mem_map.mp hb
    exact each c.1 (List.fst_mem_of_mem_zipIdx hc)

theorem exact_index_iff {elements : SchemaRef} {validKeys : Option Pattern}
    (below : ∀ b ∈ node.value.branches (.index elements validKeys),
      (b.report D).Clean ↔ P b.value) :
    node.Exact ctx D (.index elements validKeys) ↔ node.value = .list [] ∨
      ∃ entries, node.value = .map entries ∧
        (∀ e ∈ entries, ∀ p, validKeys = some p → p.isMatch e.1 = true) ∧
        ∀ e ∈ entries, P e.2 := by
  constructor
  · rintro ⟨hempty | ⟨entries, hv, keys⟩, hbelow⟩
    · exact .inl hempty
    · have hkeyed : node.value.keyed? = some entries := by
        rw [hv]
        rfl
      refine .inr ⟨entries, hv, keys, fun e he => ?_⟩
      have hmem := entry_mem_branches hkeyed he elements validKeys
      exact (below _ hmem).mp (hbelow _ hmem)
  · rintro (hempty | ⟨entries, hv, keys, each⟩)
    · refine ⟨.inl hempty, fun b hb => ?_⟩
      rw [hempty] at hb
      cases hb
    · refine ⟨.inr ⟨entries, hv, keys⟩, fun b hb => (below b hb).mpr ?_⟩
      rw [hv] at hb
      obtain ⟨e, he, rfl⟩ := List.mem_map.mp hb
      exact each e he

/-- A list with items has an entry at its first position, which is declared nowhere that matters. -/
theorem exact_args_iff {fields : Fields} {Q : String → Value → Prop}
    (positions : fields.get? "0" = none)
    (below : ∀ b ∈ node.value.branches (.args fields), ∀ key, b.step = .key key →
      ((b.report D).Clean ↔ Q key b.value)) :
    node.Exact ctx D (.args fields) ↔ node.value = .list [] ∨
      ∃ entries : Entries Value, node.value = .map entries ∧
        ∀ e ∈ entries, (∃ ref, fields.get? e.1 = some ref) ∧ Q e.1 e.2 := by
  constructor
  · rintro ⟨⟨entries, hkeyed, declared⟩, hbelow⟩
    have each : ∀ e ∈ entries, (∃ ref, fields.get? e.1 = some ref) ∧ Q e.1 e.2 := by
      intro e he
      obtain ⟨ref, href⟩ := declared e he
      have hmem := field_mem_branches hkeyed he href
      exact ⟨⟨ref, href⟩, (below _ hmem e.1 rfl).mp (hbelow _ hmem)⟩
    cases hv : node.value with
    | map given =>
      rw [hv] at hkeyed
      cases hkeyed
      exact .inr ⟨entries, rfl, each⟩
    | list items =>
      rw [hv] at hkeyed
      cases hkeyed
      cases items with
      | nil => exact .inl rfl
      | cons item rest =>
        -- A list with items has a key that is not declared.
        obtain ⟨ref, href⟩ := declared ("0", item) List.mem_cons_self
        rw [positions] at href
        cases href
    | _ =>
      rw [hv] at hkeyed
      cases hkeyed
  · -- Both a mapping and a list without items are mappings of declared fields.
    have hentries (entries : Entries Value) (hkeyed : node.value.keyed? = some entries)
        (each : ∀ e ∈ entries, (∃ ref, fields.get? e.1 = some ref) ∧ Q e.1 e.2) :
        node.Exact ctx D (.args fields) := by
      refine ⟨⟨entries, hkeyed, fun e he => (each e he).1⟩, fun b hb => ?_⟩
      cases hasChild_of_mem hb with
      | argument value mem field =>
        rw [hkeyed] at value
        cases value
        exact (below _ hb _ rfl).mpr (each _ mem).2
    rintro (hempty | ⟨entries, hv, each⟩)
    · exact hentries [] (by rw [hempty]; rfl) fun e he => absurd he List.not_mem_nil
    · exact hentries entries (by rw [hv]; rfl) each

end Node

/-! ## 3. Forms -/

namespace Model

inductive Form where
  | model
  | schema
  /-- A schema, or the name of one. -/
  | reference
  /-- The `meta` of a schema. -/
  | options (kind : PrimitiveKind)
  | switch
  | bound
  | length
  | text
  | pattern
  | fields
  | cases
  | candidates

def optionForms : PrimitiveKind → Entries Form
  | .freeform | .boolean | .regex => []
  | .number => [("integer", .switch), ("max", .bound), ("min", .bound)]
  | .string =>
    [("max_length", .length), ("min_length", .length), ("regex", .pattern),
      ("root_index", .switch), ("confidential", .switch)]
  | .enum =>
    [("value_field", .text), ("meta_field", .text), ("strict", .switch), ("options", .cases)]
  | .index => [("elements", .reference), ("valid_keys", .pattern)]
  | .list => [("elements", .reference)]
  | .args | .object => [("fields", .fields)]
  | .multi => [("allowed", .candidates)]

/-- The grammar of specifications. A name is one of a primitive, or a key of the specification. -/
inductive HasForm (spec : Value) : Form → Value → Prop
  | model {entries : Entries Value}
    (keys : ∀ e ∈ entries, Metamodel.modelKeyPattern.isMatch e.1 = true)
    (each : ∀ e ∈ entries, HasForm spec .schema e.2) : HasForm spec .model (.map entries)
  | noSchemas : HasForm spec .model (.list [])
  | schema {kind : PrimitiveKind} {entries : Entries Value}
    (type : entries.get? "type" = some (.string kind.name))
    (options : ∀ v, entries.get? "meta" = some v → HasForm spec (.options kind) v) :
    HasForm spec .schema (.map entries)
  | inline {v : Value} (schema : HasForm spec .schema v) : HasForm spec .reference v
  | primitive (kind : PrimitiveKind) : HasForm spec .reference (.string kind.name)
  | key {name : String} (key : spec.hasKey name = true) : HasForm spec .reference (.string name)
  | options {kind : PrimitiveKind} {entries : Entries Value}
    (declared : ∀ e ∈ entries, (optionForms kind).contains e.1 = true)
    (each : ∀ e ∈ entries, ∀ form, (optionForms kind).get? e.1 = some form →
      HasForm spec form e.2) : HasForm spec (.options kind) (.map entries)
  | noOptions (kind : PrimitiveKind) : HasForm spec (.options kind) (.list [])
  | switch (b : Bool) : HasForm spec .switch (.bool b)
  | bound {n : Number} (finite : n.isFinite = true) : HasForm spec .bound (.number n)
  | length {n : Number} (finite : n.isFinite = true) (integral : n.isIntegral = true)
    (notNegative : n.lt .zero = false) : HasForm spec .length (.number n)
  | text (s : String) : HasForm spec .text (.string s)
  | pattern (p : Pattern) : HasForm spec .pattern (.regex p)
  | literal {literal : String} {p : Pattern} (compiles : Pattern.ofLiteral literal = .ok p) :
    HasForm spec .pattern (.string literal)
  | fields {entries : Entries Value} (each : ∀ e ∈ entries, HasForm spec .reference e.2) :
    HasForm spec .fields (.map entries)
  | noFields : HasForm spec .fields (.list [])
  | cases {entries : Entries Value} (each : ∀ e ∈ entries, HasForm spec .fields e.2) :
    HasForm spec .cases (.map entries)
  | noCases : HasForm spec .cases (.list [])
  | candidates {items : List Value} (each : ∀ item ∈ items, HasForm spec .reference item) :
    HasForm spec .candidates (.list items)

namespace Form

def ref : Form → SchemaRef
  | .model => .named "model"
  | .schema => .named "schema"
  | .reference => .named "composite schema"
  | .options kind => payloadRef false (Metamodel.optionFields kind)
  | .switch => .named "boolean"
  | .bound => .named "number"
  | .length => .named "natural number"
  | .text => .named "string"
  | .pattern => .named "regex"
  | .fields => .named "object fields"
  | .cases => .inline (.index (.named "object fields") none)
  | .candidates => .inline (.list (.named "composite schema"))

def meaning : Form → Schema
  | .model => .index (ref .schema) (some Metamodel.modelKeyPattern)
  | .schema =>
    .enum "type" "meta" false
      (PrimitiveKind.all.map fun kind => (kind.name, Metamodel.optionFields kind))
  | .reference =>
    .multi [ref .schema, .named "primitive string", .inline (.string { rootKey := true })]
  | .options kind => .args (Metamodel.optionFields kind)
  | .switch => .boolean
  | .bound => .number {}
  | .length => .number { integer := true, min := some .zero }
  | .text => .string {}
  | .pattern => .regex
  | .fields => .index (ref .reference) none
  | .cases => .index (ref .fields) none
  | .candidates => .list (ref .reference)

/-- In the metamodel every form has a schema. -/
theorem resolve?_ref (form : Form) :
    Metamodel.schemas.resolve? form.ref = some form.meaning := by
  cases form <;> rfl

end Form

/-- The options of a primitive are those of the grammar, held against the forms of their values. -/
theorem optionFields_eq (kind : PrimitiveKind) :
    Metamodel.optionFields kind = (optionForms kind).map fun e => (e.1, e.2.ref) := by
  cases kind <;> rfl

theorem optionFields_get? (kind : PrimitiveKind) (name : String) :
    (Metamodel.optionFields kind).get? name = ((optionForms kind).get? name).map Form.ref := by
  rw [optionFields_eq, Entries.get?_map]

/-- The primitive whose name selects an option of the schema of schemas. -/
theorem selects_iff {name : String} {fields : Fields} :
    Entries.get? (PrimitiveKind.all.map fun kind => (kind.name, Metamodel.optionFields kind)) name =
        some fields ↔
      ∃ kind : PrimitiveKind, name = kind.name ∧ fields = Metamodel.optionFields kind := by
  constructor
  · intro h
    obtain ⟨kind, -, hkind⟩ := List.mem_map.mp (Entries.mem_of_get? h)
    cases hkind
    exact ⟨kind, rfl, rfl⟩
  · rintro ⟨kind, rfl, rfl⟩
    cases kind <;> rfl

/-! ## 4. What is clean has its form -/

section Step

variable {spec v : Value} {node : Node} {options : Options} {D : Reports}

/-- The children of a node, so far as they have forms, are clean when they have them. -/
def FormsBelow (spec : Value) (node : Node) (D : Reports) (form : Form) : Prop :=
  ∀ b ∈ node.value.branches form.meaning, ∀ part : Form, b.ref = part.ref →
    ((b.report D).Clean ↔ HasForm spec part b.value)

def StringsBelow (spec : Value) (node : Node) (D : Reports) (form : Form) : Prop :=
  ∀ b ∈ node.value.branches form.meaning, ∀ rules : StringRules,
    Metamodel.schemas.resolve? b.ref = some (.string rules) →
      ((b.report D).Clean ↔ ∃ text, b.value = .string text ∧ rules.Meets spec text)

/-- The children of a list or an index are all held against the same reference. -/
theorem ref_of_mem_branches {schema : Schema} {b : Branch} {elements : SchemaRef}
    (hb : b ∈ v.branches schema) (hparts : schema.parts = [elements]) : b.ref = elements := by
  have hmem := branch_ref_mem_parts hb
  rw [hparts] at hmem
  exact List.mem_singleton.mp hmem

/-- The schema of models takes exactly the models of the grammar. -/
theorem exact_model_iff (below : FormsBelow spec node D .model) :
    node.Exact (context spec options) D Form.model.meaning ↔ HasForm spec .model node.value := by
  refine (Node.exact_index_iff fun b hb =>
    below b hb .schema (ref_of_mem_branches hb rfl)).trans ?_
  generalize node.value = v
  constructor
  · rintro (rfl | ⟨entries, rfl, keys, each⟩)
    · exact .noSchemas
    · exact .model (fun e he => keys e he _ rfl) each
  · intro h
    cases h with
    | noSchemas => exact .inl rfl
    | model keys each =>
      refine .inr ⟨_, rfl, fun e he p hp => ?_, each⟩
      cases hp
      exact keys e he

theorem exact_fields_iff (below : FormsBelow spec node D .fields) :
    node.Exact (context spec options) D Form.fields.meaning ↔ HasForm spec .fields node.value := by
  refine (Node.exact_index_iff fun b hb =>
    below b hb .reference (ref_of_mem_branches hb rfl)).trans ?_
  generalize node.value = v
  constructor
  · rintro (rfl | ⟨entries, rfl, -, each⟩)
    · exact .noFields
    · exact .fields each
  · intro h
    cases h with
    | noFields => exact .inl rfl
    | fields each => exact .inr ⟨_, rfl, fun _ _ => nofun, each⟩

theorem exact_cases_iff (below : FormsBelow spec node D .cases) :
    node.Exact (context spec options) D Form.cases.meaning ↔ HasForm spec .cases node.value := by
  refine (Node.exact_index_iff fun b hb =>
    below b hb .fields (ref_of_mem_branches hb rfl)).trans ?_
  generalize node.value = v
  constructor
  · rintro (rfl | ⟨entries, rfl, -, each⟩)
    · exact .noCases
    · exact .cases each
  · intro h
    cases h with
    | noCases => exact .inl rfl
    | cases each => exact .inr ⟨_, rfl, fun _ _ => nofun, each⟩

theorem exact_candidates_iff (below : FormsBelow spec node D .candidates) :
    node.Exact (context spec options) D Form.candidates.meaning ↔
      HasForm spec .candidates node.value := by
  refine (Node.exact_list_iff fun b hb =>
    below b hb .reference (ref_of_mem_branches hb rfl)).trans ?_
  generalize node.value = v
  constructor
  · rintro ⟨items, rfl, each⟩
    exact .candidates each
  · intro h
    cases h with
    | candidates each => exact ⟨_, rfl, each⟩

theorem exact_options_iff {kind : PrimitiveKind} (below : FormsBelow spec node D (.options kind)) :
    node.Exact (context spec options) D (Form.options kind).meaning ↔
      HasForm spec (.options kind) node.value := by
  have positions : (Metamodel.optionFields kind).get? "0" = none := by cases kind <;> rfl
  -- The reference of an option is that of its form.
  have hoption : ∀ b ∈ node.value.branches (.args (Metamodel.optionFields kind)), ∀ key,
      b.step = .key key → ((b.report D).Clean ↔
        ∀ form, (optionForms kind).get? key = some form → HasForm spec form b.value) := by
    intro b hb key hkey
    cases hasChild_of_mem hb with
    | argument value mem field =>
      cases hkey
      have hfield := field
      rw [optionFields_get?] at hfield
      obtain ⟨form, hform, href⟩ := Option.map_eq_some_iff.1 hfield
      have hiff := below _ hb form href.symm
      refine hiff.trans ⟨fun h form' hform' => ?_, fun h => h form hform⟩
      rw [hform] at hform'
      cases hform'
      exact h
  refine (Node.exact_args_iff (Q := fun key v =>
    ∀ form, (optionForms kind).get? key = some form → HasForm spec form v)
    positions hoption).trans ?_
  generalize node.value = v
  constructor
  · rintro (rfl | ⟨entries, rfl, each⟩)
    · exact .noOptions kind
    · refine .options (fun e he => ?_) fun e he => (each e he).2
      obtain ⟨ref, href⟩ := (each e he).1
      rw [optionFields_get?] at href
      obtain ⟨form, hform, -⟩ := Option.map_eq_some_iff.1 href
      rw [Entries.contains, hform]
      rfl
  · intro h
    cases h with
    | noOptions => exact .inl rfl
    | options declared each =>
      refine .inr ⟨_, rfl, fun e he => ⟨?_, each e he⟩⟩
      obtain ⟨form, hform⟩ := Option.isSome_iff_exists.1 (declared e he)
      exact ⟨form.ref, by rw [optionFields_get?, hform, Option.map_some]⟩

/-- The decimal positions of a list are no words. -/
theorem get?_type_entriesOfList (items : List Value) :
    (Value.entriesOfList items).get? "type" = none := by
  rw [← Option.not_isSome_iff_eq_none, Entries.get?_isSome_iff]
  intro hmem
  obtain ⟨e, he, hkey⟩ := List.mem_map.mp hmem
  obtain ⟨c, -, rfl⟩ := List.mem_map.mp he
  have ht : 't' ∈ (toString c.2).toList := by
    rw [show toString c.2 = "type" from hkey]
    decide
  have hdigits : (toString c.2).toList = Nat.toDigits 10 c.2 := String.toList_ofList
  rw [hdigits] at ht
  exact absurd (Nat.isDigit_of_mem_toDigits (by decide) (by decide) ht) (by decide)

/-- The schema of schemas takes exactly the schemas of the grammar. -/
theorem exact_schema_iff (below : FormsBelow spec node D .schema) :
    node.Exact (context spec options) D Form.schema.meaning ↔
      HasForm spec .schema node.value := by
  constructor
  · rintro ⟨⟨entries, name, fields, hkeyed, hname, hfields⟩, hbelow⟩
    obtain ⟨kind, rfl, rfl⟩ := selects_iff.mp hfields
    cases hv : node.value with
    | map given =>
      rw [hv] at hkeyed
      cases hkeyed
      refine .schema hname fun payload hpayload => ?_
      have hmem := payload_mem_branches (v := node.value) (by rw [hv]; rfl) hname hfields "meta"
        false
      have hform := (below _ hmem (.options kind) rfl).mp (hbelow _ hmem)
      rw [payloadOf, hpayload, Option.getD_some] at hform
      exact hform
    | list items =>
      rw [hv] at hkeyed
      cases hkeyed
      rw [get?_type_entriesOfList] at hname
      cases hname
    | _ =>
      rw [hv] at hkeyed
      cases hkeyed
  · intro h
    cases hv : node.value with
    | map entries =>
      rw [hv] at h
      cases h with
      | @schema kind _ type payload =>
        have hkeyed : node.value.keyed? = some entries := by
          rw [hv]
          rfl
        have hfields := selects_iff.mpr ⟨kind, rfl, rfl⟩
        refine ⟨⟨entries, kind.name, _, hkeyed, type, hfields⟩, fun b hb => ?_⟩
        refine (below b hb (.options kind) ?_).mpr ?_
        all_goals
          rw [branches_enum hkeyed type hfields, List.mem_singleton] at hb
          rw [hb]
        · rfl
        · show HasForm spec (.options kind) (payloadOf entries "meta")
          unfold payloadOf
          cases hmeta : Entries.get? entries "meta" with
          | some v => exact payload v hmeta
          | none =>
            -- Where the `meta` is missing, no options are given.
            exact .options (fun e he => absurd he List.not_mem_nil)
              fun e he => absurd he List.not_mem_nil
    | _ =>
      rw [hv] at h
      cases h

theorem meets_number_iff {n : Number} : NumberRules.Meets {} n ↔ n.isFinite = true :=
  ⟨fun meets => meets.finite, fun finite =>
    ⟨finite, fun h => (nomatch h), fun _ h => (nomatch h), fun _ h => (nomatch h)⟩⟩

theorem meets_natural_iff {n : Number} :
    NumberRules.Meets { integer := true, min := some .zero } n ↔
      n.isFinite = true ∧ n.isIntegral = true ∧ n.lt .zero = false := by
  constructor
  · intro meets
    have notBelow := meets.notBelow .zero rfl
    exact ⟨meets.finite, meets.integral rfl, notBelow⟩
  · rintro ⟨finite, integral, notNegative⟩
    refine ⟨finite, fun _ => integral, fun m hm => ?_, fun _ h => nomatch h⟩
    obtain rfl := Option.some.inj hm
    exact notNegative

theorem ofName?_isSome_iff {name : String} :
    (PrimitiveKind.ofName? name).isSome = true ↔ ∃ kind : PrimitiveKind, name = kind.name := by
  constructor
  · intro h
    obtain ⟨kind, hkind⟩ := Option.isSome_iff_exists.1 h
    have hname := List.find?_some hkind
    exact ⟨kind, (beq_iff_eq.mp hname).symm⟩
  · rintro ⟨kind, rfl⟩
    rw [PrimitiveKind.ofName?_name]
    rfl

/-- The strings that the pattern of primitives admits. -/
theorem meets_primitive_iff {text : String} :
    StringRules.Meets { regex := some Metamodel.primitivePattern } spec text ↔
      ∃ kind : PrimitiveKind, text = kind.name := by
  rw [← ofName?_isSome_iff, ← Metamodel.primitivePattern_isMatch]
  constructor
  · intro meets
    exact meets.regex _ rfl
  · intro hmatch
    refine ⟨nofun, nofun, nofun, fun p hp => ?_⟩
    obtain rfl := Option.some.inj hp
    exact hmatch

/-- The strings that are keys of the specification. -/
theorem meets_rootKey_iff {text : String} :
    StringRules.Meets { rootKey := true } spec text ↔ spec.hasKey text = true :=
  ⟨fun meets => meets.rootKey rfl, fun h => ⟨nofun, nofun, fun _ => h, nofun⟩⟩

/-- A composite schema is what the grammar has for a reference. -/
theorem exact_reference_iff (below : FormsBelow spec node D .reference)
    (strings : StringsBelow spec node D .reference) :
    node.Exact (context spec options) D Form.reference.meaning ↔
      HasForm spec .reference node.value := by
  have hbranches : node.value.branches Form.reference.meaning =
      [⟨candidateKey 0, node.value, Form.schema.ref⟩,
        ⟨candidateKey 1, node.value, .named "primitive string"⟩,
        ⟨candidateKey 2, node.value, .inline (.string { rootKey := true })⟩] := rfl
  have hschema := below ⟨candidateKey 0, node.value, Form.schema.ref⟩
    (by rw [hbranches]; exact List.mem_cons_self) .schema rfl
  have hprimitive := strings ⟨candidateKey 1, node.value, .named "primitive string"⟩
    (by rw [hbranches]; exact List.mem_cons_of_mem _ List.mem_cons_self) _ rfl
  have hkey := strings ⟨candidateKey 2, node.value, .inline (.string { rootKey := true })⟩
    (by rw [hbranches]; exact List.mem_cons_of_mem _ (List.mem_cons_of_mem _ List.mem_cons_self))
    _ rfl
  simp only [meets_primitive_iff] at hprimitive
  simp only [meets_rootKey_iff] at hkey
  show (∃ b ∈ node.value.branches Form.reference.meaning, (b.report D).Clean) ↔ _
  rw [hbranches]
  simp only [List.mem_cons, List.not_mem_nil, or_false, exists_eq_or_imp, exists_eq_left, hschema,
    hprimitive, hkey]
  generalize node.value = v
  constructor
  · rintro (schema | ⟨text, rfl, kind, rfl⟩ | ⟨text, rfl, hname⟩)
    · exact .inline schema
    · exact .primitive kind
    · exact .key hname
  · intro h
    cases h with
    | inline schema => exact .inl schema
    | primitive kind => exact .inr (.inl ⟨_, rfl, kind, rfl⟩)
    | key hname => exact .inr (.inr ⟨_, rfl, hname⟩)

/-- A node of the metamodel is exact when its value has the form, given that this is so below. -/
theorem exact_iff_hasForm {form : Form} (below : FormsBelow spec node D form)
    (strings : StringsBelow spec node D form) :
    node.Exact (context spec options) D form.meaning ↔ HasForm spec form node.value := by
  cases form with
  | model => exact exact_model_iff below
  | schema => exact exact_schema_iff below
  | reference => exact exact_reference_iff below strings
  | options kind => exact exact_options_iff below
  | fields => exact exact_fields_iff below
  | cases => exact exact_cases_iff below
  | candidates => exact exact_candidates_iff below
  | switch =>
    -- The remaining forms are scalars, of which the node decides alone.
    show (∃ b, node.value = .bool b) ↔ _
    generalize node.value = v
    constructor
    · rintro ⟨b, rfl⟩
      exact .switch b
    · intro h
      cases h with
      | switch b => exact ⟨b, rfl⟩
  | bound =>
    show (∃ n, node.value = .number n ∧ NumberRules.Meets {} n) ↔ _
    generalize node.value = v
    simp only [meets_number_iff]
    constructor
    · rintro ⟨n, rfl, finite⟩
      exact .bound finite
    · intro h
      cases h with
      | bound finite => exact ⟨_, rfl, finite⟩
  | length =>
    show (∃ n, node.value = .number n ∧
      NumberRules.Meets { integer := true, min := some .zero } n) ↔ _
    generalize node.value = v
    simp only [meets_natural_iff]
    constructor
    · rintro ⟨n, rfl, finite, integral, notNegative⟩
      exact .length finite integral notNegative
    · intro h
      cases h with
      | length finite integral notNegative =>
        exact ⟨_, rfl, finite, integral, notNegative⟩
  | text =>
    show (∃ text, node.value = .string text ∧ StringRules.Meets {} spec text) ↔ _
    generalize node.value = v
    constructor
    · rintro ⟨text, rfl, -⟩
      exact .text text
    · intro h
      cases h with
      | text s => exact ⟨s, rfl, nofun, nofun, nofun, nofun⟩
  | pattern =>
    show ((∃ p, node.value = .regex p) ∨
      ∃ literal p, node.value = .string literal ∧ Pattern.ofLiteral literal = .ok p) ↔ _
    generalize node.value = v
    constructor
    · rintro (⟨p, rfl⟩ | ⟨literal, p, rfl, compiles⟩)
      · exact .pattern p
      · exact .literal compiles
    · intro h
      cases h with
      | pattern p => exact .inl ⟨p, rfl⟩
      | literal compiles => exact .inr ⟨_, _, rfl, compiles⟩

end Step

/-- A walk against a string ends where it begins. -/
theorem walk_string_clean_iff {ctx : Context} {levels : Nat} {path : Path} {v : Value}
    {ref : SchemaRef} {rules : StringRules} {r : Report} (h : walk ctx levels path v ref = .ok r)
    (hrules : ctx.schemas.resolve? ref = some (.string rules)) (hv : v.represented = v) :
    r.Clean ↔ ∃ text, v = .string text ∧ rules.Meets ctx.root text := by
  cases levels with
  | zero => cases h
  | succ levels =>
    obtain ⟨D, -, hclean⟩ := walk_clean_iff h hrules
    rw [hclean]
    show (∃ text, v.represented = .string text ∧ rules.Meets ctx.root text) ↔ _
    rw [hv]

/-- Under the metamodel, what is clean is what has the form. -/
theorem walk_clean_iff_hasForm {spec : Value} {options : Options} (levels : Nat) :
    ∀ (form : Form) (path : Path) (v : Value) (r : Report),
      walk (context spec options) levels path v form.ref = .ok r → v.Native →
        (r.Clean ↔ HasForm spec form v) := by
  induction levels with
  | zero =>
    intro form path v r h
    cases h
  | succ levels ih =>
    intro form path v r h hv
    obtain ⟨D, hbelow, hclean⟩ := walk_clean_iff h (form.resolve?_ref)
    have hnode : (nodeAt path v form.meaning).value = v := hv.represented
    have forms : FormsBelow spec (nodeAt path v form.meaning) D form := by
      intro b hb part hpart
      have hwalk := hbelow b hb
      rw [hpart] at hwalk
      rw [hnode] at hb
      exact ih part _ _ _ hwalk (hv.branch hb)
    have strings : StringsBelow spec (nodeAt path v form.meaning) D form := by
      intro b hb rules hrules
      have hwalk := hbelow b hb
      rw [hnode] at hb
      exact walk_string_clean_iff hwalk hrules (hv.branch hb).represented
    rw [hclean, exact_iff_hasForm forms strings, hnode]

/-! ## 5. Depths of specifications -/

def IsPart (ref : SchemaRef) : Prop :=
  (∃ form : Form, ref = form.ref) ∨ ∃ rules, Metamodel.schemas.resolve? ref = some (.string rules)

theorem isPart_of_mem_fields {kind : PrimitiveKind} {part : SchemaRef}
    (h : part ∈ (Metamodel.optionFields kind).map Prod.snd) : IsPart part := by
  rw [optionFields_eq, List.map_map] at h
  obtain ⟨e, -, rfl⟩ := List.mem_map.mp h
  exact .inl ⟨e.2, rfl⟩

/-- The parts of the metamodel's schemas have forms of their own, but for the strings that stand for
names. -/
theorem isPart_of_mem_parts {form : Form} {part : SchemaRef} (h : part ∈ form.meaning.parts) :
    IsPart part := by
  cases form with
  | model => exact .inl ⟨.schema, List.mem_singleton.mp h⟩
  | schema =>
    obtain ⟨option, hoption, rfl⟩ := List.mem_map.mp h
    obtain ⟨kind, -, rfl⟩ := List.mem_map.mp hoption
    exact .inl ⟨.options kind, rfl⟩
  | reference =>
    obtain h | h := List.mem_cons.mp h
    · exact .inl ⟨.schema, h⟩
    obtain rfl | h := List.mem_cons.mp h
    · exact .inr ⟨_, rfl⟩
    · rw [List.mem_singleton.mp h]
      exact .inr ⟨_, rfl⟩
  | options kind => exact isPart_of_mem_fields h
  | fields => exact .inl ⟨.reference, List.mem_singleton.mp h⟩
  | cases => exact .inl ⟨.fields, List.mem_singleton.mp h⟩
  | candidates => exact .inl ⟨.reference, List.mem_singleton.mp h⟩
  | switch | bound | length | text | pattern => cases h

/-- What the metamodel leads to: the meanings of forms, and strings. -/
theorem reaches_meaning {ref : SchemaRef} {schema : Schema}
    (h : Metamodel.schemas.Reaches ref schema) (href : IsPart ref) :
    (∃ form : Form, schema = form.meaning) ∨ ∃ rules, schema = .string rules := by
  induction h with
  | here resolved =>
    obtain ⟨form, rfl⟩ | ⟨rules, hrules⟩ := href
    · rw [form.resolve?_ref] at resolved
      exact .inl ⟨form, (Option.some.inj resolved).symm⟩
    · rw [hrules] at resolved
      exact .inr ⟨rules, (Option.some.inj resolved).symm⟩
  | part resolved mem _ ih =>
    apply ih
    obtain ⟨form, rfl⟩ | ⟨rules, hrules⟩ := href
    · rw [form.resolve?_ref] at resolved
      obtain rfl := Option.some.inj resolved
      exact isPart_of_mem_parts mem
    · rw [hrules] at resolved
      obtain rfl := Option.some.inj resolved
      cases mem

/-- A choice of the metamodel is between schemas, names of primitives and keys, none of which is a
choice. -/
theorem productive_ref (form : Form) : Metamodel.schemas.Productive form.ref := by
  have hacc_of_not_multi (schema : Schema) (h : ∀ allowed, schema ≠ .multi allowed) :
      Acc Metamodel.schemas.Offers schema := by
    refine Acc.intro _ fun candidate hoffers => ?_
    obtain ⟨allowed, ref, rfl, -, -⟩ := hoffers
    exact absurd rfl (h allowed)
  intro schema hreaches
  obtain ⟨form, rfl⟩ | ⟨rules, rfl⟩ := reaches_meaning hreaches (.inl ⟨form, rfl⟩)
  · cases form with
    | reference =>
      refine Acc.intro _ fun candidate hoffers => ?_
      obtain ⟨allowed, ref, hallowed, hmem, hcandidate⟩ := hoffers
      cases hallowed
      apply hacc_of_not_multi
      obtain rfl | hmem := List.mem_cons.mp hmem
      · rw [Form.schema.resolve?_ref] at hcandidate
        obtain rfl := Option.some.inj hcandidate
        exact nofun
      obtain rfl | hmem := List.mem_cons.mp hmem
      · obtain rfl := Option.some.inj hcandidate
        exact nofun
      · rw [List.mem_singleton.mp hmem] at hcandidate
        obtain rfl := Option.some.inj hcandidate
        exact nofun
    | _ => exact hacc_of_not_multi _ nofun
  · exact hacc_of_not_multi _ nofun

/-! ## 6. The specifications that give a model -/

/-- A model is built just when its examination finds nothing. -/
theorem build_ok_iff_clean {spec : Value} {options : Options} {r : Report}
    (h : examine spec options = .ok r) : (∃ m, build spec options = .ok m) ↔ r.Clean := by
  rw [build_of_examine h]
  constructor
  · rintro ⟨m, hm⟩
    by_cases hclean : r.errors = [] ∧ r.warnings = []
    · exact hclean
    · rw [if_neg hclean] at hm
      cases hm
  · intro hclean
    obtain ⟨entries, set, -, hset, -⟩ :=
      schemaSet_reads (examine_conforms h ((Report.isOk_iff r).mpr hclean.1))
    rw [if_pos (And.intro hclean.1 hclean.2), hset]
    exact ⟨⟨set, options⟩, rfl⟩

/-- Given depth enough, the specifications that give a model are those of the grammar. -/
theorem build_ok_iff_hasForm (spec : Value) (hspec : spec.Native) :
    ∃ depth, ∀ options : Options, depth ≤ options.depthLimit →
      ((∃ m, build spec options = .ok m) ↔ HasForm spec .model spec) := by
  obtain ⟨depth, hdepth⟩ := (productive_ref .model).completes spec
  refine ⟨depth, fun options hoptions => ?_⟩
  obtain ⟨r, hr⟩ := hdepth (context spec options) rfl (options.depthLimit + 1) (by omega) []
  have hexamine : examine spec options = .ok r := hr
  rw [build_ok_iff_clean hexamine]
  exact walk_clean_iff_hasForm _ .model [] spec r hr hspec

theorem native_pairSpec : pairSpec.Native := by
  simp only [pairSpec, Value.native_map, List.forall_mem_cons, List.not_mem_nil, false_implies,
    implies_true, and_true, Value.native_string]

theorem hasForm_pairSpec : HasForm pairSpec .model pairSpec := by
  have hfields : HasForm pairSpec .fields (.map
      [("left", .string "pair"), ("right", .string "pair"), ("label", .string "string")]) := by
    refine .fields ?_
    simp only [List.forall_mem_cons, List.not_mem_nil, false_implies, implies_true, and_true]
    exact ⟨.key rfl, .key rfl, .primitive .string⟩
  refine .model ?_ ?_
  · decide +kernel
  · simp only [List.forall_mem_cons, List.not_mem_nil, false_implies, implies_true, and_true]
    refine @HasForm.schema _ .args _ rfl fun payload hpayload => ?_
    obtain rfl := Option.some.inj hpayload
    refine .options ?_ ?_
    · decide
    · simp only [List.forall_mem_cons, List.not_mem_nil, false_implies, implies_true, and_true]
      intro form hform
      obtain rfl := Option.some.inj hform
      exact hfields

theorem build_ok_iff_hasForm_pairSpec :
    pairSpec.Native ∧ HasForm pairSpec .model pairSpec ∧
      ∃ depth, ∀ options : Options, depth ≤ options.depthLimit →
        ∃ m, build pairSpec options = .ok m := by
  refine ⟨native_pairSpec, hasForm_pairSpec, ?_⟩
  obtain ⟨depth, hdepth⟩ := build_ok_iff_hasForm pairSpec native_pairSpec
  exact ⟨depth, fun options hoptions => (hdepth options hoptions).mpr hasForm_pairSpec⟩

end Model
end Conform
