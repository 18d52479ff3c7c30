import Conform.Proofs.Lengths
import Conform.Proofs.References
import Conform.Schema.Read

/-!
# Reading — schemas from values, option by option

The reader of schemas goes through a mapping until it meets the key it looks for, so that its
recursion follows the value.  Here the same functions are lookups and traversals (`refIn_eq`,
`fieldsOfEntries_eq`), and a schema is readable when each of its options is.
-/

namespace Conform

/-! ## 1. Single options -/

section Options

variable {options : Entries Value} {name : String}

/-- An option is read if it can be read wherever it is given. -/
theorem optionOf_ok {α : Type} {read : Value → Except SchemaError α}
    (h : ∀ v, options.get? name = some v → ∃ a, read v = .ok a) :
    ∃ o, optionOf options name read = .ok o := by
  unfold optionOf
  cases hv : options.get? name with
  | none => exact ⟨none, rfl⟩
  | some v =>
    rcases h v hv with ⟨a, ha⟩
    exact ⟨some a, by dsimp only; rw [ha]; rfl⟩

theorem boolOption_ok (h : ∀ v, options.get? name = some v → ∃ b, v = .bool b) :
    ∃ o, boolOption options name = .ok o := by
  apply optionOf_ok
  intro v hv
  rcases h v hv with ⟨b, rfl⟩
  exact ⟨b, rfl⟩

theorem stringOption_ok (h : ∀ v, options.get? name = some v → ∃ s, v = .string s) :
    ∃ o, stringOption options name = .ok o := by
  apply optionOf_ok
  intro v hv
  rcases h v hv with ⟨s, rfl⟩
  exact ⟨s, rfl⟩

theorem patternOption_ok (h : ∀ v, options.get? name = some v → ∃ p, v = .regex p) :
    ∃ o, patternOption options name = .ok o := by
  apply optionOf_ok
  intro v hv
  rcases h v hv with ⟨p, rfl⟩
  exact ⟨p, rfl⟩

theorem optionOf_none {α : Type} {read : Value → Except SchemaError α}
    (h : options.get? name = none) : optionOf options name read = .ok none := by
  unfold optionOf
  rw [h]

theorem numberOption_some {n : Number} (h : options.get? name = some (.number n))
    (hn : n.isFinite = true) : numberOption options name = .ok (some n) := by
  unfold numberOption optionOf
  rw [h]
  dsimp only [Value.number?]
  rw [Option.filter_some, if_pos hn]
  rfl

/-- A whole number that is not negative is read as a length. -/
theorem lengthOption_some {n : Number} (h : options.get? name = some (.number n))
    (hintegral : n.isIntegral = true) (hnotNegative : n.lt .zero = false) :
    lengthOption options name = .ok (some n.toLength) := by
  have hnatural : (n.isIntegral && !n.lt .zero) = true := by
    rw [hintegral, hnotNegative]
    rfl
  unfold lengthOption optionOf
  rw [h]
  dsimp only [Value.number?]
  rw [Option.filter_some, if_pos hnatural]
  rfl

theorem numberOption_ok
    (h : ∀ v, options.get? name = some v → ∃ n, v = .number n ∧ n.isFinite = true) :
    ∃ o, numberOption options name = .ok o ∧ ∀ n, o = some n → n.isFinite = true := by
  cases hv : options.get? name with
  | none => exact ⟨none, optionOf_none hv, fun _ hm => (nomatch hm)⟩
  | some v =>
    rcases h v hv with ⟨n, rfl, hn⟩
    refine ⟨some n, numberOption_some hv hn, fun m hm => ?_⟩
    rw [← Option.some.inj hm]
    exact hn

/-- A length is read as one that is read back. -/
theorem lengthOption_ok
    (h : ∀ v, options.get? name = some v →
      ∃ n, v = .number n ∧ n.isIntegral = true ∧ n.lt .zero = false) :
    ∃ o, lengthOption options name = .ok o ∧ ∀ n, o = some n → Number.IsLength n := by
  cases hv : options.get? name with
  | none => exact ⟨none, optionOf_none hv, nofun⟩
  | some v =>
    rcases h v hv with ⟨n, rfl, hi, hz⟩
    refine ⟨some n.toLength, lengthOption_some hv hi hz, fun m hm => ?_⟩
    rw [← Option.some.inj hm]
    exact Number.toLength_ofNat_toLength hi

end Options

/-! ## 2. Nested schemas -/

def fieldsOfValue : Value → Except SchemaError Fields
  | .map fields => fieldsOfEntries fields
  | v => .error (.fieldsNotMapping v.typeName)

theorem refIn_eq (name : String) (options : Entries Value) :
    refIn name options = optionOf options name SchemaRef.ofValue := by
  unfold optionOf
  induction options with
  | nil => rfl
  | cons e rest ih =>
    rw [refIn, Entries.get?_cons]
    by_cases h : e.1 = name
    · rw [if_pos h, if_pos h.symm]
    · rw [if_neg h, if_neg (Ne.symm h), ih]

theorem fieldsIn_eq (options : Entries Value) :
    fieldsIn options = (match options.get? "fields" with
      | none => .ok []
      | some v => fieldsOfValue v) := by
  induction options with
  | nil => rfl
  | cons e rest ih =>
    rcases e with ⟨key, v⟩
    unfold fieldsIn
    rw [Entries.get?_cons]
    by_cases h : key = "fields"
    · rw [if_pos h, if_pos h.symm]
      cases v <;> rfl
    · rw [if_neg h, if_neg (Ne.symm h), ih]

/-- Declared fields are read one by one, under their names. -/
theorem fieldsOfEntries_eq (entries : Entries Value) :
    fieldsOfEntries entries =
      entries.mapM fun e => (SchemaRef.ofValue e.2).map fun ref => (e.1, ref) := by
  induction entries with
  | nil => rfl
  | cons e rest ih =>
    rcases e with ⟨name, v⟩
    rw [fieldsOfEntries, List.mapM_cons, ← ih]
    cases SchemaRef.ofValue v <;> cases fieldsOfEntries rest <;> rfl

theorem refsOfItems_eq (items : List Value) :
    refsOfItems items = items.mapM SchemaRef.ofValue := by
  induction items with
  | nil => rfl
  | cons v rest ih =>
    rw [refsOfItems, List.mapM_cons, ← ih]
    rfl

theorem enumOptionsOfEntries_eq (entries : Entries Value) :
    enumOptionsOfEntries entries =
      entries.mapM fun e => (fieldsOfValue e.2).map fun fields => (e.1, fields) := by
  induction entries with
  | nil => rfl
  | cons e rest ih =>
    rcases e with ⟨name, v⟩
    unfold enumOptionsOfEntries
    rw [List.mapM_cons, ← ih]
    dsimp only
    cases v with
    | map fields =>
      change (fieldsOfEntries fields).bind _ = ((fieldsOfEntries fields).map _).bind _
      cases fieldsOfEntries fields <;> cases enumOptionsOfEntries rest <;> rfl
    | _ => rfl

theorem enumOptionsIn_eq (options : Entries Value) :
    enumOptionsIn options = (match options.get? "options" with
      | none => .ok []
      | some (.map cases) => enumOptionsOfEntries cases
      | some v => .error (.optionsNotMapping v.typeName)) := by
  induction options with
  | nil => rfl
  | cons e rest ih =>
    rcases e with ⟨key, v⟩
    unfold enumOptionsIn
    rw [Entries.get?_cons]
    by_cases h : key = "options"
    · rw [if_pos h, if_pos h.symm]
      cases v <;> rfl
    · rw [if_neg h, if_neg (Ne.symm h), ih]

theorem allowedIn_eq (options : Entries Value) :
    allowedIn options = (match options.get? "allowed" with
      | none => .ok []
      | some (.list items) => refsOfItems items
      | some v => .error (.allowedNotList v.typeName)) := by
  induction options with
  | nil => rfl
  | cons e rest ih =>
    rcases e with ⟨key, v⟩
    unfold allowedIn
    rw [Entries.get?_cons]
    by_cases h : key = "allowed"
    · rw [if_pos h, if_pos h.symm]
      cases v <;> rfl
    · rw [if_neg h, if_neg (Ne.symm h), ih]

/-- The schemas of a set are read one by one; what fails tells the name. -/
theorem schemasOfEntries_eq (entries : Entries Value) :
    schemasOfEntries entries = entries.mapM fun e =>
      ((Schema.ofValue e.2).mapError (.inSchema e.1)).map fun schema => (e.1, schema) := by
  induction entries with
  | nil => rfl
  | cons e rest ih =>
    rcases e with ⟨name, v⟩
    rw [schemasOfEntries, List.mapM_cons, ← ih]
    cases (Schema.ofValue v).mapError (SchemaError.inSchema name) <;>
      cases schemasOfEntries rest <;> rfl

/-- The schema of a primitive is read from its `meta` alone, which is empty unless it is given. -/
theorem schemaIn_eq (kind : PrimitiveKind) (entries : Entries Value) :
    schemaIn kind entries = schemaIn kind [("meta", (entries.get? "meta").getD (.map []))] := by
  induction entries with
  | nil => cases kind <;> rfl
  | cons e rest ih =>
    rcases e with ⟨key, v⟩
    rw [Entries.get?_cons]
    by_cases hkey : key = "meta"
    · rw [if_pos hkey.symm, hkey]
      unfold schemaIn
      rfl
    · have hskip : schemaIn kind ((key, v) :: rest) = schemaIn kind rest := by
        -- An entry is skipped alike for all kinds, which the equations of `schemaIn` tell apart.
        rw [schemaIn.eq_def]
        exact if_neg hkey
      rw [if_neg (Ne.symm hkey), hskip, ih]

/-- Only the options count, beside the kind. -/
theorem schemaIn_meta {kind : PrimitiveKind} {entries options : Entries Value}
    (h : entries.get? "meta" = some (.map options)) :
    schemaIn kind entries = schemaIn kind [("meta", .map options)] := by
  rw [schemaIn_eq, h, Option.getD_some]

/-! ## 3. Schemas of the kinds -/

section Kinds

variable {options : Entries Value} {fields : Fields}

theorem schemaIn_number {rules : NumberRules} (h : NumberRules.ofOptions options = .ok rules) :
    schemaIn .number [("meta", .map options)] = .ok (.number rules) := by
  unfold schemaIn
  rw [if_pos rfl]
  dsimp only
  rw [h]
  rfl

theorem schemaIn_string {rules : StringRules} (h : StringRules.ofOptions options = .ok rules) :
    schemaIn .string [("meta", .map options)] = .ok (.string rules) := by
  unfold schemaIn
  rw [if_pos rfl]
  dsimp only
  rw [h]
  rfl

/-- A mapping is read by its elements and its keys. -/
theorem schemaIn_index {elements : Option SchemaRef} {validKeys : Option Pattern}
    (helements : refIn "elements" options = .ok elements)
    (hkeys : patternOption options "valid_keys" = .ok validKeys) :
    schemaIn .index [("meta", .map options)] =
      .ok (.index (elements.getD Schema.defaultElements) validKeys) := by
  unfold schemaIn
  rw [if_pos rfl]
  dsimp only
  rw [helements, hkeys]
  rfl

theorem schemaIn_list {elements : Option SchemaRef}
    (h : refIn "elements" options = .ok elements) :
    schemaIn .list [("meta", .map options)] =
      .ok (.list (elements.getD Schema.defaultElements)) := by
  unfold schemaIn
  rw [if_pos rfl]
  dsimp only
  rw [h]
  rfl

theorem schemaIn_args (h : fieldsIn options = .ok fields) :
    schemaIn .args [("meta", .map options)] = .ok (.args fields) := by
  unfold schemaIn
  rw [if_pos rfl]
  dsimp only
  rw [h]
  rfl

theorem schemaIn_object (h : fieldsIn options = .ok fields) :
    schemaIn .object [("meta", .map options)] = .ok (.object fields) := by
  unfold schemaIn
  rw [if_pos rfl]
  dsimp only
  rw [h]
  rfl

/-- An enum is read by its options and the names of its two fields. -/
theorem schemaIn_enum {cases : Entries Fields} {valueField metaField : Option String}
    {strict : Option Bool} (hcases : enumOptionsIn options = .ok cases)
    (hvalue : stringOption options "value_field" = .ok valueField)
    (hmeta : stringOption options "meta_field" = .ok metaField)
    (hstrict : boolOption options "strict" = .ok strict) :
    schemaIn .enum [("meta", .map options)] =
      .ok (.enum (valueField.getD "value") (metaField.getD "meta") (strict.getD true) cases) := by
  unfold schemaIn
  rw [if_pos rfl]
  dsimp only
  rw [hcases, hvalue, hmeta, hstrict]
  rfl

theorem schemaIn_multi {allowed : List SchemaRef} (h : allowedIn options = .ok allowed) :
    schemaIn .multi [("meta", .map options)] = .ok (.multi allowed) := by
  unfold schemaIn
  rw [if_pos rfl]
  dsimp only
  rw [h]
  rfl

end Kinds

/-! ## 4. Mappings as schemas -/

section Mappings

variable {entries : Entries Value} {kind : PrimitiveKind}

theorem kindOfEntries_eq (h : entries.get? "type" = some (.string kind.name)) :
    kindOfEntries entries = .ok kind := by
  unfold kindOfEntries
  rw [h, Option.bind_some]
  dsimp only [Value.string?]
  rw [PrimitiveKind.ofName?_name]

/-- A schema is read by its kind and its options. -/
theorem Schema.ofValue_map (h : kindOfEntries entries = .ok kind) :
    Schema.ofValue (.map entries) = schemaIn kind entries := by
  rw [Schema.ofValue, h]
  rfl

theorem SchemaRef.ofValue_map (h : kindOfEntries entries = .ok kind) :
    SchemaRef.ofValue (.map entries) = (schemaIn kind entries).map .inline := by
  rw [SchemaRef.ofValue, h]
  rfl

end Mappings

end Conform
