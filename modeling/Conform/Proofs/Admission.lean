import Conform.Model
import Conform.Proofs.Completion
import Conform.Proofs.Conformance
import Conform.Proofs.Reading
import Conform.Proofs.Search

/-!
# Admission — the metamodel admits what the reader reads

The schema language is described twice: by the schemas of the metamodel, which the walk holds a
specification against, and by the reader, which goes through the sanitized specification.  What
conforms to the metamodel is read without fault, and refers to no names but those of primitives and
of keys of the specification (`readsRef_of_conforms`).
-/

namespace Conform

/-! ## 1. The schemas of the metamodel -/

namespace Model

def context (spec : Value) (options : Options) : Context where
  root := spec
  schemas := Metamodel.schemas
  options := { regexAsString := some false, maxDepth := some options.depthLimit }

def Allows (spec : Value) (name : String) : Prop :=
  (PrimitiveKind.ofName? name).isSome = true ∨ spec.hasKey name = true

/-- A value that is read as a regular reference with allowed names. -/
def ReadsRef (spec v : Value) : Prop :=
  ∃ ref, SchemaRef.ofValue v = .ok ref ∧ ref.Regular (Allows spec)

variable {spec v : Value} {options : Options} {kind : PrimitiveKind} {entries : Entries Value}

theorem conforms_boolean (h : Conforms (context spec options) (.named "boolean") v) :
    ∃ b, v = .bool b := by
  have hs : (context spec options).schemas.resolve? (.named "boolean") = some .boolean := rfl
  exact (conforms_iff hs).mp h

theorem conforms_string (h : Conforms (context spec options) (.named "string") v) :
    ∃ text, v = .string text := by
  have hs : (context spec options).schemas.resolve? (.named "string") = some (.string {}) := rfl
  rcases (conforms_iff hs).mp h with ⟨text, rfl, -⟩
  exact ⟨text, rfl⟩

theorem conforms_regex (h : Conforms (context spec options) (.named "regex") v) :
    ∃ p, v = .regex p := by
  have hs : (context spec options).schemas.resolve? (.named "regex") = some .regex := rfl
  exact (conforms_iff hs).mp h

theorem conforms_number (h : Conforms (context spec options) (.named "number") v) :
    ∃ n, v = .number n ∧ n.isFinite = true := by
  have hs : (context spec options).schemas.resolve? (.named "number") = some (.number {}) := rfl
  rcases (conforms_iff hs).mp h with ⟨n, rfl, meets⟩
  exact ⟨n, rfl, meets.finite⟩

theorem conforms_natural (h : Conforms (context spec options) (.named "natural number") v) :
    ∃ n, v = .number n ∧ n.isIntegral = true ∧ n.lt .zero = false := by
  have hs : (context spec options).schemas.resolve? (.named "natural number") =
    some (.number { integer := true, min := some .zero }) := rfl
  rcases (conforms_iff hs).mp h with ⟨n, rfl, meets⟩
  exact ⟨n, rfl, meets.integral rfl, meets.notBelow .zero rfl⟩

theorem conforms_fields (h : Conforms (context spec options) (.named "object fields") v) :
    ∃ entries : Entries Value, v = .map entries ∧
      ∀ e ∈ entries, Conforms (context spec options) (.named "composite schema") e.2 := by
  have hs : (context spec options).schemas.resolve? (.named "object fields") =
    some (.index (.named "composite schema") none) := rfl
  rcases (conforms_iff hs).mp h with ⟨entries, rfl, -, each⟩
  exact ⟨entries, rfl, each⟩

/-- A string in the place of a schema names a primitive or a key of the specification. -/
theorem conforms_composite
    (h : Conforms (context spec options) (.named "composite schema") v) :
    Conforms (context spec options) (.named "schema") v ∨
      ∃ name, v = .string name ∧ Allows spec name := by
  have hs : (context spec options).schemas.resolve? (.named "composite schema") =
    some (.multi [.named "schema", .named "primitive string",
      .inline (.string { rootKey := true })]) := rfl
  rcases (conforms_iff hs).mp h with ⟨candidate, hmem, hv⟩
  rcases List.mem_cons.mp hmem with rfl | hmem
  · exact .inl hv
  rcases List.mem_cons.mp hmem with rfl | hmem
  · have hp : (context spec options).schemas.resolve? (.named "primitive string") =
      some (.string { regex := some Metamodel.primitivePattern }) := rfl
    -- The name of a primitive is not confidential, so that no placeholder stands in its place.
    rcases (conforms_iff hp).mp hv with ⟨name, rfl, meets | ⟨hidden, -, -⟩⟩
    · have hmatch := meets.regex _ rfl
      rw [Metamodel.primitivePattern_isMatch] at hmatch
      exact .inr ⟨name, rfl, .inl hmatch⟩
    · cases hidden
  · rw [List.mem_singleton.mp hmem] at hv
    have hk : (context spec options).schemas.resolve? (.inline (.string { rootKey := true })) =
      some (.string { rootKey := true }) := rfl
    rcases (conforms_iff hk).mp hv with ⟨name, rfl, meets | ⟨hidden, -, -⟩⟩
    · exact .inr ⟨name, rfl, .inr (meets.rootKey rfl)⟩
    · cases hidden

/-- A schema is a mapping of the name of a primitive and a mapping of its options. -/
theorem conforms_schema (h : Conforms (context spec options) (.named "schema") v) :
    ∃ (kind : PrimitiveKind) (entries : Entries Value),
      v = .map [("type", .string kind.name), ("meta", .map entries)] ∧
      ∀ e ∈ entries, ∃ field, (Metamodel.optionFields kind).get? e.1 = some field ∧
        Conforms (context spec options) field e.2 := by
  have hs : (context spec options).schemas.resolve? (.named "schema") =
    some (.enum "type" "meta" false
      (PrimitiveKind.all.map fun kind => (kind.name, Metamodel.optionFields kind))) := rfl
  rcases (conforms_iff hs).mp h with ⟨name, fields, payload, rfl, -, hoption, hpayload⟩
  rcases List.mem_map.mp (Entries.mem_of_get? hoption) with ⟨kind, -, hkind⟩
  cases hkind
  have hargs : (context spec options).schemas.resolve?
    (payloadRef false (Metamodel.optionFields kind)) =
      some (.args (Metamodel.optionFields kind)) := rfl
  rcases (conforms_iff hargs).mp hpayload with ⟨entries, rfl, each⟩
  exact ⟨kind, entries, rfl, each⟩

/-! ## 2. What conforms is read -/

section Meta

-- The entries of the `meta` of a schema, where references below them are read already.
variable
  (each : ∀ e ∈ entries, ∃ field, (Metamodel.optionFields kind).get? e.1 = some field ∧
    Conforms (context spec options) field e.2)
  (smaller : ∀ v, sizeOf v < sizeOf (Value.map entries) →
    Conforms (context spec options) (.named "composite schema") v → ReadsRef spec v)

include each

/-- An option that is given has the form that the metamodel asks for. -/
theorem option_conforms {name : String} {field : SchemaRef}
    (hfield : (Metamodel.optionFields kind).get? name = some field) :
    ∀ v, entries.get? name = some v → Conforms (context spec options) field v := by
  intro v hv
  rcases each _ (Entries.mem_of_get? hv) with ⟨field', hfield', hconforms⟩
  rw [hfield] at hfield'
  cases hfield'
  exact hconforms

theorem boolOption_reads (name : String)
    (hfield : (Metamodel.optionFields kind).get? name = some (.named "boolean")) :
    ∃ o, boolOption entries name = .ok o :=
  boolOption_ok fun v hv => conforms_boolean (option_conforms each hfield v hv)

theorem stringOption_reads (name : String)
    (hfield : (Metamodel.optionFields kind).get? name = some (.named "string")) :
    ∃ o, stringOption entries name = .ok o :=
  stringOption_ok fun v hv => conforms_string (option_conforms each hfield v hv)

theorem patternOption_reads (name : String)
    (hfield : (Metamodel.optionFields kind).get? name = some (.named "regex")) :
    ∃ o, patternOption entries name = .ok o :=
  patternOption_ok fun v hv => conforms_regex (option_conforms each hfield v hv)

/-- A bound that conforms is read, as a finite number. -/
theorem numberOption_reads (name : String)
    (hfield : (Metamodel.optionFields kind).get? name = some (.named "number")) :
    ∃ o, numberOption entries name = .ok o ∧ ∀ n, o = some n → n.isFinite = true :=
  numberOption_ok fun v hv => conforms_number (option_conforms each hfield v hv)

/-- A length that conforms is read, as a number that can be written again. -/
theorem lengthOption_reads (name : String)
    (hfield : (Metamodel.optionFields kind).get? name = some (.named "natural number")) :
    ∃ o, lengthOption entries name = .ok o ∧ ∀ n, o = some n → Number.IsLength n :=
  lengthOption_ok fun v hv => conforms_natural (option_conforms each hfield v hv)

include smaller

/-- A part that conforms is read as a regular reference; a missing one is the default. -/
theorem refIn_reads (name : String)
    (hfield : (Metamodel.optionFields kind).get? name = some (.named "composite schema")) :
    ∃ o, refIn name entries = .ok o ∧
      (o.getD Schema.defaultElements).Regular (Allows spec) := by
  rw [refIn_eq]
  unfold optionOf
  cases hv : entries.get? name with
  | none =>
    have hdefault : Allows spec PrimitiveKind.object.name := .inl (by decide)
    exact ⟨none, rfl, SchemaRef.regular_named hdefault⟩
  | some v =>
    have hsize := Value.sizeOf_entry_lt (Entries.mem_of_get? hv)
    rcases smaller v hsize (option_conforms each hfield v hv) with ⟨ref, href, hregular⟩
    refine ⟨some ref, ?_, hregular⟩
    dsimp only
    rw [href]
    rfl

omit each

/-- The fields of a mapping no larger than the entries. -/
theorem fieldsOfValue_reads (hv : Conforms (context spec options) (.named "object fields") v)
    (hsize : sizeOf v ≤ sizeOf (Value.map entries)) :
    ∃ fields, fieldsOfValue v = .ok fields ∧
      ∀ part ∈ fields.map Prod.snd, part.Regular (Allows spec) := by
  rcases conforms_fields hv with ⟨declared, rfl, hdeclared⟩
  have hread : ∀ e ∈ declared, ReadsRef spec e.2 := by
    intro e he
    have hentry := Value.sizeOf_entry_lt he
    exact smaller e.2 (show sizeOf e.2 < sizeOf (Value.map entries) by omega) (hdeclared e he)
  change ∃ fields, fieldsOfEntries declared = .ok fields ∧ _
  rw [fieldsOfEntries_eq]
  have hfield : ∀ e ∈ declared, ∃ field,
      (SchemaRef.ofValue e.2).map (fun ref => (e.1, ref)) = .ok field := by
    intro e he
    rcases hread e he with ⟨ref, href, -⟩
    exact ⟨(e.1, ref), by rw [href]; rfl⟩
  rcases (mapM_eq_ok_iff declared _).mpr hfield with ⟨fields, hfields⟩
  refine ⟨fields, hfields, fun part hpart => ?_⟩
  rcases List.mem_map.mp hpart with ⟨field, hfield, rfl⟩
  rcases mapM_mem hfields field hfield with ⟨e, he, hmap⟩
  rcases hread e he with ⟨ref, href, hregular⟩
  rw [href] at hmap
  cases hmap
  exact hregular

include each

theorem fieldsIn_reads
    (hfield : (Metamodel.optionFields kind).get? "fields" = some (.named "object fields")) :
    ∃ fields, fieldsIn entries = .ok fields ∧
      ∀ part ∈ fields.map Prod.snd, part.Regular (Allows spec) := by
  rw [fieldsIn_eq]
  cases hv : entries.get? "fields" with
  | none => exact ⟨[], rfl, fun _ hpart => absurd hpart List.not_mem_nil⟩
  | some v =>
    have hsize := Value.sizeOf_entry_lt (Entries.mem_of_get? hv)
    exact fieldsOfValue_reads smaller (option_conforms each hfield v hv) (Nat.le_of_lt hsize)

/-- The options of an enum that conform are read, all their parts regular. -/
theorem enumOptionsIn_reads (hfield : (Metamodel.optionFields kind).get? "options" =
      some (.inline (.index (.named "object fields") none))) :
    ∃ cases : Entries Fields, enumOptionsIn entries = .ok cases ∧
      ∀ option ∈ cases, ∀ part ∈ option.2.map Prod.snd, part.Regular (Allows spec) := by
  rw [enumOptionsIn_eq]
  cases hv : entries.get? "options" with
  | none => exact ⟨[], rfl, fun _ hcase => absurd hcase List.not_mem_nil⟩
  | some v =>
    have hsize := Value.sizeOf_entry_lt (Entries.mem_of_get? hv)
    have hs : (context spec options).schemas.resolve?
      (.inline (.index (.named "object fields") none)) =
        some (.index (.named "object fields") none) := rfl
    rcases (conforms_iff hs).mp (option_conforms each hfield v hv) with ⟨given, rfl, -, hgiven⟩
    have hread : ∀ e ∈ given, ∃ fields, fieldsOfValue e.2 = .ok fields ∧
        ∀ part ∈ fields.map Prod.snd, part.Regular (Allows spec) := by
      intro e he
      have hentry := Value.sizeOf_entry_lt he
      have hle : sizeOf e.2 ≤ sizeOf (Value.map entries) := by
        dsimp only at hsize
        omega
      exact fieldsOfValue_reads smaller (hgiven e he) hle
    dsimp only
    rw [enumOptionsOfEntries_eq]
    have hcase : ∀ e ∈ given, ∃ option,
        (fieldsOfValue e.2).map (fun fields => (e.1, fields)) = .ok option := by
      intro e he
      rcases hread e he with ⟨fields, hfields, -⟩
      exact ⟨(e.1, fields), by rw [hfields]; rfl⟩
    rcases (mapM_eq_ok_iff given _).mpr hcase with ⟨cases, hcases⟩
    refine ⟨cases, hcases, fun option hoption => ?_⟩
    rcases mapM_mem hcases option hoption with ⟨e, he, hmap⟩
    rcases hread e he with ⟨fields, hfields, hregular⟩
    rw [hfields] at hmap
    cases hmap
    exact hregular

theorem allowedIn_reads (hfield : (Metamodel.optionFields kind).get? "allowed" =
      some (.inline (.list (.named "composite schema")))) :
    ∃ refs, allowedIn entries = .ok refs ∧ ∀ ref ∈ refs, ref.Regular (Allows spec) := by
  rw [allowedIn_eq]
  cases hv : entries.get? "allowed" with
  | none => exact ⟨[], rfl, fun _ href => absurd href List.not_mem_nil⟩
  | some v =>
    have hsize := Value.sizeOf_entry_lt (Entries.mem_of_get? hv)
    have hs : (context spec options).schemas.resolve?
      (.inline (.list (.named "composite schema"))) =
        some (.list (.named "composite schema")) := rfl
    rcases (conforms_iff hs).mp (option_conforms each hfield v hv) with ⟨items, rfl, hitems⟩
    have hread : ∀ item ∈ items, ReadsRef spec item := by
      intro item hitem
      have hentry := Value.sizeOf_item_lt hitem
      have hlt : sizeOf item < sizeOf (Value.map entries) := by
        dsimp only at hsize
        omega
      exact smaller item hlt (hitems item hitem)
    dsimp only
    rw [refsOfItems_eq]
    obtain ⟨refs, hrefs⟩ := (mapM_eq_ok_iff items SchemaRef.ofValue).mpr fun item hitem => by
      rcases hread item hitem with ⟨ref, href, -⟩
      exact ⟨ref, href⟩
    refine ⟨refs, hrefs, fun ref href => ?_⟩
    rcases mapM_mem hrefs ref href with ⟨item, hitem, hmap⟩
    rcases hread item hitem with ⟨ref', href', hregular⟩
    rw [hmap] at href'
    cases href'
    exact hregular

/-- The schema of a primitive is read from its options. -/
theorem schemaIn_reads : ∃ schema, schemaIn kind [("meta", .map entries)] = .ok schema ∧
    (SchemaRef.inline schema).Regular (Allows spec) := by
  have hleaf {schema : Schema} (hexpressible : schema.Expressible) (hparts : schema.parts = []) :
      (SchemaRef.inline schema).Regular (Allows spec) := by
    apply SchemaRef.regular_inline hexpressible
    rw [hparts]
    exact fun _ hpart => absurd hpart List.not_mem_nil
  cases kind with
  | freeform => exact ⟨.freeform, by unfold schemaIn; rfl, hleaf trivial rfl⟩
  | boolean => exact ⟨.boolean, by unfold schemaIn; rfl, hleaf trivial rfl⟩
  | regex => exact ⟨.regex, by unfold schemaIn; rfl, hleaf trivial rfl⟩
  | number =>
    rcases boolOption_reads each "integer" rfl with ⟨integer, hinteger⟩
    rcases numberOption_reads each "min" rfl with ⟨min, hmin, hminFinite⟩
    rcases numberOption_reads each "max" rfl with ⟨max, hmax, hmaxFinite⟩
    have hrules : NumberRules.ofOptions entries = .ok ⟨integer.getD false, min, max⟩ := by
      rw [NumberRules.ofOptions, hinteger, hmin, hmax]
      rfl
    exact ⟨_, schemaIn_number hrules, hleaf ⟨hminFinite, hmaxFinite⟩ rfl⟩
  | string =>
    rcases lengthOption_reads each "max_length" rfl with ⟨maxLength, hmax, hmaxLength⟩
    rcases lengthOption_reads each "min_length" rfl with ⟨minLength, hmin, hminLength⟩
    rcases patternOption_reads each "regex" rfl with ⟨regex, hregex⟩
    rcases boolOption_reads each "root_index" rfl with ⟨rootKey, hkey⟩
    rcases boolOption_reads each "confidential" rfl with ⟨confidential, hconf⟩
    have hrules : StringRules.ofOptions entries =
        .ok ⟨maxLength, minLength, regex, rootKey.getD false, confidential.getD false⟩ := by
      rw [StringRules.ofOptions, hmax, hmin, hregex, hkey, hconf]
      rfl
    exact ⟨_, schemaIn_string hrules, hleaf ⟨hmaxLength, hminLength⟩ rfl⟩
  | index =>
    rcases refIn_reads each smaller "elements" rfl with ⟨elements, helements, hregular⟩
    rcases patternOption_reads each "valid_keys" rfl with ⟨validKeys, hkeys⟩
    refine ⟨_, schemaIn_index helements hkeys,
      SchemaRef.regular_inline trivial fun part hpart => ?_⟩
    rw [List.mem_singleton.mp hpart]
    exact hregular
  | list =>
    rcases refIn_reads each smaller "elements" rfl with ⟨elements, helements, hregular⟩
    refine ⟨_, schemaIn_list helements, SchemaRef.regular_inline trivial fun part hpart => ?_⟩
    rw [List.mem_singleton.mp hpart]
    exact hregular
  | args =>
    rcases fieldsIn_reads each smaller rfl with ⟨fields, hfields, hregular⟩
    exact ⟨_, schemaIn_args hfields, SchemaRef.regular_inline trivial hregular⟩
  | object =>
    rcases fieldsIn_reads each smaller rfl with ⟨fields, hfields, hregular⟩
    exact ⟨_, schemaIn_object hfields, SchemaRef.regular_inline trivial hregular⟩
  | enum =>
    rcases enumOptionsIn_reads each smaller rfl with ⟨cases, hcases, hregular⟩
    rcases stringOption_reads each "value_field" rfl with ⟨valueField, hvalue⟩
    rcases stringOption_reads each "meta_field" rfl with ⟨metaField, hmeta⟩
    rcases boolOption_reads each "strict" rfl with ⟨strict, hstrict⟩
    refine ⟨_, schemaIn_enum hcases hvalue hmeta hstrict,
      SchemaRef.regular_inline trivial fun part hpart => ?_⟩
    rcases List.mem_map.mp hpart with ⟨option, hoption, rfl⟩
    -- The parts of a payload are its fields, whether all of them are required or not.
    unfold payloadRef
    cases strict.getD true with
    | true => exact SchemaRef.regular_inline trivial (hregular option hoption)
    | false => exact SchemaRef.regular_inline trivial (hregular option hoption)
  | multi =>
    rcases allowedIn_reads each smaller rfl with ⟨allowed, hallowed, hregular⟩
    exact ⟨_, schemaIn_multi hallowed, SchemaRef.regular_inline trivial hregular⟩

end Meta

/-- What conforms as a schema is read as one, if what conforms inside it is. -/
theorem ofValue_reads (h : Conforms (context spec options) (.named "schema") v)
    (smaller : ∀ w, sizeOf w < sizeOf v →
      Conforms (context spec options) (.named "composite schema") w → ReadsRef spec w) :
    ∃ schema, Schema.ofValue v = .ok schema ∧ SchemaRef.ofValue v = .ok (.inline schema) ∧
      (SchemaRef.inline schema).Regular (Allows spec) := by
  rcases conforms_schema h with ⟨kind, entries, rfl, each⟩
  have hmeta : Entries.get? [("type", Value.string kind.name), ("meta", .map entries)] "meta" =
    some (.map entries) := rfl
  have hkind : kindOfEntries [("type", .string kind.name), ("meta", .map entries)] = .ok kind :=
    kindOfEntries_eq rfl
  have hsize := Value.sizeOf_entry_lt (Entries.mem_of_get? hmeta)
  obtain ⟨schema, hschema, hregular⟩ := schemaIn_reads each fun w hw =>
    smaller w (Nat.lt_trans hw hsize)
  refine ⟨schema, ?_, ?_, hregular⟩
  · rw [Schema.ofValue_map hkind, schemaIn_meta hmeta, hschema]
  · rw [SchemaRef.ofValue_map hkind, schemaIn_meta hmeta, hschema]
    rfl

/-- What conforms as a composite schema is read as a regular reference with allowed names. -/
theorem readsRef_of_conforms (v : Value)
    (h : Conforms (context spec options) (.named "composite schema") v) : ReadsRef spec v := by
  rcases conforms_composite h with hschema | ⟨name, rfl, hname⟩
  -- The recursion is on what stands in the `meta` of the schema.
  · have hread := ofValue_reads hschema fun w _ hw => readsRef_of_conforms w hw
    rcases hread with ⟨schema, -, href, hregular⟩
    exact ⟨.inline schema, href, hregular⟩
  · exact ⟨.named name, rfl, SchemaRef.regular_named hname⟩
termination_by sizeOf v

end Model
end Conform
