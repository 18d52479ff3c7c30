import Conform.Proofs.Reading

/-!
# Rendering — schemas are read back from the values they are written as

A schema is written as the mapping of its kind and of the options that are set.  Reading looks each
option up again and finds it, or finds that it was left out; so what is read is the same schema,
with all that it holds in the same order (`SchemaSet.ofValue_toValue`).  Bounds and lengths must be
such that numbers can express them.
-/

namespace Conform

/-! ## 1. Options -/

section Options

variable {name key : String} {value : Option Value} {on : Bool} {rest : Entries Value}

theorem get?_append (entries rest : Entries Value) (key : String) :
    Entries.get? (entries ++ rest) key = (entries.get? key).or (rest.get? key) :=
  List.lookup_append

theorem get?_optionalEntry :
    Entries.get? (optionalEntry name value) key = if key = name then value else none := by
  cases value with
  | none => simp [optionalEntry, Entries.get?]
  | some v =>
    show Entries.get? [(name, v)] key = _
    rw [Entries.get?_cons]
    rfl

/-- A switch is found under its name just when it is on. -/
theorem get?_switchEntry :
    Entries.get? (switchEntry name on) key =
      if key = name then (if on then some (.bool true) else none) else none := by
  cases on with
  | false => simp [switchEntry, Entries.get?]
  | true =>
    show Entries.get? [(name, Value.bool true)] key = _
    rw [Entries.get?_cons]
    rfl

/-- A switch that is left out is off. -/
theorem boolOption_switch {options : Entries Value}
    (h : options.get? name = if on then some (.bool true) else none) :
    ∃ o, boolOption options name = .ok o ∧ o.getD false = on := by
  unfold boolOption optionOf
  rw [h]
  cases on with
  | true => exact ⟨some true, rfl, rfl⟩
  | false => exact ⟨none, rfl, rfl⟩

/-- A finite bound is read back. -/
theorem numberOption_eq {options : Entries Value} {n : Option Number}
    (h : options.get? name = n.map .number) (hn : ∀ m, n = some m → m.isFinite = true) :
    numberOption options name = .ok n := by
  cases n with
  | none => exact optionOf_none h
  | some m => exact numberOption_some h (hn m rfl)

/-- A length that can be written is read back. -/
theorem lengthOption_eq {options : Entries Value} {n : Option Nat}
    (h : options.get? name = n.map fun n => .number (.ofNat n))
    (hn : ∀ m, n = some m → Number.IsLength m) : lengthOption options name = .ok n := by
  cases n with
  | none => exact optionOf_none h
  | some m =>
    have hlength : (Number.ofNat m).toLength = m := hn m rfl
    have hintegral := Number.ofNat_isIntegral (Number.ofNat_isFinite hlength)
    rw [lengthOption_some h hintegral (Number.ofNat_not_lt_zero m), hlength]

theorem patternOption_eq {options : Entries Value} {p : Option Pattern}
    (h : options.get? name = p.map .regex) : patternOption options name = .ok p := by
  unfold patternOption optionOf
  rw [h]
  cases p <;> rfl

end Options

/-! ## 2. Rules -/

/-- What is found under the names of the options of a number. -/
theorem NumberRules.get?_toEntries (rules : NumberRules) :
    Entries.get? rules.toEntries "integer" = (if rules.integer then some (.bool true) else none) ∧
      Entries.get? rules.toEntries "min" = rules.min.map .number ∧
      Entries.get? rules.toEntries "max" = rules.max.map .number := by
  simp [toEntries, get?_append, get?_optionalEntry, get?_switchEntry]

/-- The rules of numbers are read back from their options. -/
theorem NumberRules.ofOptions_toEntries (rules : NumberRules)
    (h : (Schema.number rules).Expressible) : ofOptions rules.toEntries = .ok rules := by
  obtain ⟨hinteger, hmin, hmax⟩ := rules.get?_toEntries
  obtain ⟨integer, hread, hon⟩ := boolOption_switch hinteger
  unfold ofOptions
  rw [hread, numberOption_eq hmin h.1, numberOption_eq hmax h.2]
  show Except.ok (NumberRules.mk (integer.getD false) rules.min rules.max) = .ok rules
  rw [hon]

/-- What is found under the names of the options of a string. -/
theorem StringRules.get?_toEntries (rules : StringRules) :
    Entries.get? rules.toEntries "max_length" =
        (rules.maxLength.map fun n => .number (.ofNat n)) ∧
      Entries.get? rules.toEntries "min_length" =
        (rules.minLength.map fun n => .number (.ofNat n)) ∧
      Entries.get? rules.toEntries "regex" = rules.regex.map .regex ∧
      Entries.get? rules.toEntries "root_index" =
        (if rules.rootKey then some (.bool true) else none) ∧
      Entries.get? rules.toEntries "confidential" =
        (if rules.confidential then some (.bool true) else none) := by
  simp [toEntries, get?_append, get?_optionalEntry, get?_switchEntry]

/-- The rules of strings are read back from their options. -/
theorem StringRules.ofOptions_toEntries (rules : StringRules)
    (h : (Schema.string rules).Expressible) : ofOptions rules.toEntries = .ok rules := by
  obtain ⟨hmax, hmin, hregex, hkey, hconfidential⟩ := rules.get?_toEntries
  obtain ⟨rootKey, hreadKey, honKey⟩ := boolOption_switch hkey
  obtain ⟨confidential, hreadConfidential, honConfidential⟩ := boolOption_switch hconfidential
  unfold ofOptions
  rw [lengthOption_eq hmax h.1, lengthOption_eq hmin h.2, patternOption_eq hregex, hreadKey,
    hreadConfidential]
  show Except.ok (StringRules.mk rules.maxLength rules.minLength rules.regex (rootKey.getD false)
    (confidential.getD false)) = .ok rules
  rw [honKey, honConfidential]

/-! ## 3. Schemas -/

section Entry

variable {kind : PrimitiveKind} {options : Entries Value}

theorem kindOfEntries_schemaEntry :
    kindOfEntries [("type", .string kind.name), ("meta", .map options)] = .ok kind :=
  kindOfEntries_eq rfl

theorem Schema.ofValue_schemaEntry :
    Schema.ofValue (schemaEntry kind options) = schemaIn kind [("meta", .map options)] :=
  (Schema.ofValue_map kindOfEntries_schemaEntry).trans (schemaIn_meta rfl)

theorem SchemaRef.ofValue_schemaEntry : SchemaRef.ofValue (schemaEntry kind options) =
    (schemaIn kind [("meta", .map options)]).map .inline := by
  rw [schemaEntry, SchemaRef.ofValue_map kindOfEntries_schemaEntry, schemaIn_meta rfl]

end Entry

theorem refIn_cons (name : String) {v : Value} {ref : SchemaRef}
    (h : SchemaRef.ofValue v = .ok ref) (rest : Entries Value) :
    refIn name ((name, v) :: rest) = .ok (some ref) := by
  rw [refIn, if_pos rfl, h]
  rfl

/-- A schema is written as the entry of its kind, with options that it is read from. -/
def Schema.ReadsBack (schema : Schema) : Prop :=
  ∃ options, schema.toValue = schemaEntry schema.kind options ∧
    schemaIn schema.kind [("meta", .map options)] = .ok schema

mutual

/-- A regular schema is read back from its own options. -/
theorem Schema.readsBack {allowed : String → Prop} (schema : Schema)
    (h : (SchemaRef.inline schema).Regular allowed) : schema.ReadsBack := by
  -- Of each primitive the options are read back one by one.
  cases schema with
  | freeform => exact ⟨[], by rw [Schema.toValue]; rfl, by unfold schemaIn; rfl⟩
  | boolean => exact ⟨[], by rw [Schema.toValue]; rfl, by unfold schemaIn; rfl⟩
  | regex => exact ⟨[], by rw [Schema.toValue]; rfl, by unfold schemaIn; rfl⟩
  | number rules =>
    have hrules := rules.ofOptions_toEntries (h.schemas _ (.here _))
    exact ⟨rules.toEntries, by rw [Schema.toValue]; rfl, schemaIn_number hrules⟩
  | string rules =>
    have hrules := rules.ofOptions_toEntries (h.schemas _ (.here _))
    exact ⟨rules.toEntries, by rw [Schema.toValue]; rfl, schemaIn_string hrules⟩
  | index elements validKeys =>
    have hkeys : patternOption (("elements", elements.toValue) ::
        optionalEntry "valid_keys" (validKeys.map .regex)) "valid_keys" = .ok validKeys := by
      refine patternOption_eq ?_
      rw [Entries.get?_cons, if_neg (by decide), get?_optionalEntry, if_pos rfl]
    have helements := refIn_cons "elements" (elements.ofValue_toValue (h.part List.mem_cons_self))
      (optionalEntry "valid_keys" (validKeys.map .regex))
    exact ⟨_, by rw [Schema.toValue]; rfl, schemaIn_index helements hkeys⟩
  | list elements =>
    have helements :=
      refIn_cons "elements" (elements.ofValue_toValue (h.part List.mem_cons_self)) []
    exact ⟨_, by rw [Schema.toValue]; rfl, schemaIn_list helements⟩
  | args fields =>
    have hfields : fieldsIn [("fields", .map (fieldsToEntries fields))] = .ok fields :=
      (fieldsIn_eq _).trans
        (fieldsOfEntries_fieldsToEntries fields fun part hpart => h.part hpart)
    exact ⟨_, by rw [Schema.toValue]; rfl, schemaIn_args hfields⟩
  | object fields =>
    have hfields : fieldsIn [("fields", .map (fieldsToEntries fields))] = .ok fields :=
      (fieldsIn_eq _).trans
        (fieldsOfEntries_fieldsToEntries fields fun part hpart => h.part hpart)
    exact ⟨_, by rw [Schema.toValue]; rfl, schemaIn_object hfields⟩
  | enum valueField metaField strict options =>
    have hoptions : enumOptionsIn [("value_field", .string valueField),
        ("meta_field", .string metaField), ("strict", .bool strict),
        ("options", .map (optionsToEntries options))] = .ok options :=
      (enumOptionsIn_eq _).trans
        (enumOptionsOfEntries_optionsToEntries options fun option hoption part hpart =>
          (h.part (List.mem_map_of_mem hoption)).payload hpart)
    exact ⟨_, by rw [Schema.toValue]; rfl, schemaIn_enum hoptions rfl rfl rfl⟩
  | multi refs =>
    have hrefs : allowedIn [("allowed", .list (refsToValues refs))] = .ok refs :=
      (allowedIn_eq _).trans (refsOfItems_refsToValues refs fun part hpart => h.part hpart)
    exact ⟨_, by rw [Schema.toValue]; rfl, schemaIn_multi hrefs⟩

/-- A regular reference is read back from its value. -/
theorem SchemaRef.ofValue_toValue {allowed : String → Prop} (ref : SchemaRef)
    (h : ref.Regular allowed) : SchemaRef.ofValue ref.toValue = .ok ref := by
  cases ref with
  | named name => rw [SchemaRef.toValue, SchemaRef.ofValue]
  | inline schema =>
    obtain ⟨options, hvalue, hread⟩ := schema.readsBack h
    rw [SchemaRef.toValue, hvalue, SchemaRef.ofValue_schemaEntry, hread]
    rfl

theorem fieldsOfEntries_fieldsToEntries {allowed : String → Prop} (fields : Fields)
    (h : ∀ part ∈ fields.map Prod.snd, part.Regular allowed) :
    fieldsOfEntries (fieldsToEntries fields) = .ok fields := by
  cases fields with
  | nil => rfl
  | cons field rest =>
    obtain ⟨name, ref⟩ := field
    rw [List.map_cons, List.forall_mem_cons] at h
    have href := ref.ofValue_toValue h.1
    have hrest := fieldsOfEntries_fieldsToEntries rest h.2
    rw [fieldsToEntries, fieldsOfEntries, href, hrest]
    rfl

theorem enumOptionsOfEntries_optionsToEntries {allowed : String → Prop}
    (options : Entries Fields)
    (h : ∀ option ∈ options, ∀ part ∈ option.2.map Prod.snd, part.Regular allowed) :
    enumOptionsOfEntries (optionsToEntries options) = .ok options := by
  cases options with
  | nil => rfl
  | cons option rest =>
    obtain ⟨name, fields⟩ := option
    rw [List.forall_mem_cons] at h
    have hfields := fieldsOfEntries_fieldsToEntries fields h.1
    have hrest := enumOptionsOfEntries_optionsToEntries rest h.2
    rw [optionsToEntries, enumOptionsOfEntries, hrest]
    dsimp only
    rw [hfields]
    rfl

theorem refsOfItems_refsToValues {allowed : String → Prop} (refs : List SchemaRef)
    (h : ∀ part ∈ refs, part.Regular allowed) : refsOfItems (refsToValues refs) = .ok refs := by
  cases refs with
  | nil => rfl
  | cons ref rest =>
    rw [List.forall_mem_cons] at h
    have href := ref.ofValue_toValue h.1
    have hrest := refsOfItems_refsToValues rest h.2
    rw [refsToValues, refsOfItems, href, hrest]
    rfl

end

/-- A set is read back from the mapping that it is written as. -/
theorem SchemaSet.ofValue_toValue {allowed : String → Prop} (set : SchemaSet)
    (h : ∀ e ∈ set.schemas, (SchemaRef.inline e.2).Regular allowed) :
    SchemaSet.ofValue set.toValue = .ok set := by
  have hschemas : schemasOfEntries (set.schemas.map fun e => (e.1, e.2.toValue)) =
      .ok set.schemas := by
    generalize set.schemas = schemas at h
    induction schemas with
    | nil => rfl
    | cons e rest ih =>
      obtain ⟨name, schema⟩ := e
      rw [List.forall_mem_cons] at h
      obtain ⟨options, hvalue, hread⟩ := schema.readsBack h.1
      rw [List.map_cons, schemasOfEntries, ih h.2, hvalue, Schema.ofValue_schemaEntry, hread]
      rfl
  show (schemasOfEntries (set.schemas.map fun e => (e.1, e.2.toValue))).map SchemaSet.mk = .ok set
  rw [hschemas]
  rfl

end Conform
