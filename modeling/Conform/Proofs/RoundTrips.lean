import Conform.Proofs.Rendering

/-!
# Round trips — schemas through the values they are written as

Only a bound or a length can keep a schema from being read back from the value that it is written
as.  What a reader gives has none that does: bounds are checked, and a length is read as one that
is read back, however great.  So to read a value, to write what was read, and to read it again is to
read it once (`schemas_roundTrip`).
-/

namespace Conform

/-! ## 1. What can be written -/

/-- All bounds and lengths in a reference can be written as numbers, at whatever depth. -/
def SchemaRef.Writable (ref : SchemaRef) : Prop :=
  ∀ schema, ref.Contains schema → schema.Expressible

def Schema.Writable (schema : Schema) : Prop := (SchemaRef.inline schema).Writable

def SchemaSet.Writable (set : SchemaSet) : Prop := ∀ e ∈ set.schemas, e.2.Writable

section Writable

variable {schema : Schema} {ref : SchemaRef} {set : SchemaSet}

/-- What can be written is regular, whatever names it mentions. -/
theorem SchemaRef.Writable.regular (h : ref.Writable) : ref.Regular fun _ => True :=
  ⟨fun _ _ => trivial, h⟩

theorem SchemaRef.writable_named (name : String) : (SchemaRef.named name).Writable :=
  (@SchemaRef.regular_named (fun _ => True) name trivial).schemas

/-- A schema can be written if its bounds and its parts can. -/
theorem Schema.writable_of_parts (expressible : schema.Expressible)
    (parts : ∀ part ∈ schema.parts, part.Writable) : schema.Writable :=
  (SchemaRef.regular_inline expressible fun part hpart => (parts part hpart).regular).schemas

/-- A schema without parts can be written when its own bounds and lengths can. -/
theorem Schema.writable_leaf (expressible : schema.Expressible) (leaf : schema.parts = []) :
    schema.Writable := by
  refine Schema.writable_of_parts expressible ?_
  rw [leaf]
  exact fun _ hpart => absurd hpart List.not_mem_nil

abbrev FieldsWritable (fields : Fields) : Prop := ∀ part ∈ fields.map Prod.snd, part.Writable

theorem writable_payloadRef {fields : Fields} (h : FieldsWritable fields) (strict : Bool) :
    (payloadRef strict fields).Writable := by
  unfold payloadRef
  cases strict with
  | true => exact @Schema.writable_of_parts (.object fields) trivial h
  | false => exact @Schema.writable_of_parts (.args fields) trivial h

theorem writable_defaultElements : Schema.defaultElements.Writable := SchemaRef.writable_named _

theorem Schema.writable_bare (kind : PrimitiveKind) : (Schema.bare kind).Writable := by
  cases kind with
  | list | index =>
    refine Schema.writable_of_parts trivial fun part hpart => ?_
    rw [List.mem_singleton.mp hpart]
    exact writable_defaultElements
  | number | string =>
    exact Schema.writable_leaf ⟨fun _ h => (nomatch h), fun _ h => (nomatch h)⟩ rfl
  | freeform | boolean | regex | args | object | enum | multi =>
    exact Schema.writable_leaf trivial rfl

end Writable

/-! ## 2. What a computation gives -/

def Yields {ε α : Type} (P : α → Prop) (x : Except ε α) : Prop := ∀ a, x = .ok a → P a

namespace Yields

variable {ε ε' α β : Type} {P : α → Prop} {Q : β → Prop} {x : Except ε α}

theorem ok {a : α} (h : P a) : Yields P (.ok a : Except ε α) := by
  intro b hb
  cases hb
  exact h

theorem error (e : ε) : Yields P (.error e : Except ε α) := fun _ => nofun

/-- Nothing is known of what is given. -/
theorem any (x : Except ε α) : Yields (fun _ => True) x := fun _ _ => trivial

/-- What holds of every first result, and of every next one, holds of the whole. -/
theorem bind (h : Yields P x) {f : α → Except ε β} (next : ∀ a, P a → Yields Q (f a)) :
    Yields Q (x >>= f) := by
  cases x with
  | error e => exact error e
  | ok a => exact next a (h a rfl)

theorem map (h : Yields P x) {f : α → β} (himp : ∀ a, P a → Q (f a)) : Yields Q (x.map f) := by
  cases x with
  | error e => exact error e
  | ok a => exact ok (himp a (h a rfl))

theorem mapError (h : Yields P x) (f : ε → ε') : Yields P (x.mapError f) := by
  cases x with
  | error e => exact error (f e)
  | ok a => exact ok (h a rfl)

end Yields

/-! ## 3. What readers give -/

section Options

variable {options : Entries Value} {name : String}

/-- A bound that is read is finite. -/
theorem numberOption_yields :
    Yields (fun o => ∀ n, o = some n → n.isFinite = true) (numberOption options name) := by
  unfold numberOption optionOf
  cases options.get? name with
  | none => exact .ok fun _ hn => nomatch hn
  | some v =>
    dsimp only
    split
    · rename_i n hn
      refine .ok fun m hm => ?_
      rw [← Option.some.inj hm]
      exact (Option.filter_eq_some_iff.mp hn).2
    · exact .error _

/-- A length that is read is read again from what it is written as, also where it was cut. -/
theorem lengthOption_yields :
    Yields (fun o => ∀ n, o = some n → Number.IsLength n) (lengthOption options name) := by
  unfold lengthOption optionOf
  cases options.get? name with
  | none => exact .ok fun _ hn => nomatch hn
  | some v =>
    dsimp only
    split
    · rename_i n hn
      have hnatural : (n.isIntegral && !n.lt .zero) = true := (Option.filter_eq_some_iff.mp hn).2
      refine .ok fun m hm => ?_
      rw [← Option.some.inj hm]
      exact Number.toLength_ofNat_toLength (Bool.and_eq_true_iff.mp hnatural).1
    · exact .error _

theorem NumberRules.ofOptions_yields :
    Yields (fun rules => (Schema.number rules).Expressible) (NumberRules.ofOptions options) := by
  unfold NumberRules.ofOptions
  refine (Yields.any _).bind fun integer _ => ?_
  refine numberOption_yields.bind fun min hmin => ?_
  exact numberOption_yields.bind fun max hmax => .ok ⟨hmin, hmax⟩

theorem StringRules.ofOptions_yields :
    Yields (fun rules => (Schema.string rules).Expressible) (StringRules.ofOptions options) := by
  unfold StringRules.ofOptions
  refine lengthOption_yields.bind fun maxLength hmax => ?_
  refine lengthOption_yields.bind fun minLength hmin => ?_
  refine (Yields.any _).bind fun regex _ => ?_
  refine (Yields.any _).bind fun rootKey _ => ?_
  exact (Yields.any _).bind fun confidential _ => .ok ⟨hmax, hmin⟩

end Options

mutual

/-- Every reference that is read can be written. -/
theorem SchemaRef.ofValue_yields (v : Value) :
    Yields SchemaRef.Writable (SchemaRef.ofValue v) := by
  cases v with
  | string name => exact .ok (SchemaRef.writable_named name)
  | map entries =>
    refine Yields.map (P := Schema.Writable) ?_ fun schema h => h
    exact (Yields.any _).bind fun kind _ => schemaIn_yields kind entries
  | null | bool | number | regex | list | external => exact .error _

/-- Every schema that is read from options can be written. -/
theorem schemaIn_yields (kind : PrimitiveKind) (entries : Entries Value) :
    Yields Schema.Writable (schemaIn kind entries) := by
  cases entries with
  | nil => exact .ok (Schema.writable_bare kind)
  | cons e rest =>
    obtain ⟨key, v⟩ := e
    by_cases hkey : key = "meta"
    · unfold schemaIn
      rw [if_pos hkey]
      cases v with
      | null => exact .ok (Schema.writable_bare kind)
      | map options =>
        -- Each primitive reads its options one after the other; all of them can be written.
        cases kind with
        | freeform | boolean | regex => exact .ok (Schema.writable_leaf trivial rfl)
        | number =>
          exact NumberRules.ofOptions_yields.map fun rules h => Schema.writable_leaf h rfl
        | string =>
          exact StringRules.ofOptions_yields.map fun rules h => Schema.writable_leaf h rfl
        | index =>
          refine (refIn_yields "elements" options).bind fun elements helements => ?_
          refine (Yields.any _).bind fun validKeys _ => .ok ?_
          exact Schema.writable_of_parts trivial (List.forall_mem_singleton.mpr helements)
        | list =>
          refine (refIn_yields "elements" options).bind fun elements helements => .ok ?_
          exact Schema.writable_of_parts trivial (List.forall_mem_singleton.mpr helements)
        | args =>
          refine (fieldsIn_yields options).bind fun fields hfields => .ok ?_
          exact Schema.writable_of_parts trivial hfields
        | object =>
          refine (fieldsIn_yields options).bind fun fields hfields => .ok ?_
          exact Schema.writable_of_parts trivial hfields
        | enum =>
          refine (enumOptionsIn_yields options).bind fun cases hcases => ?_
          refine (Yields.any _).bind fun valueField _ => ?_
          refine (Yields.any _).bind fun metaField _ => ?_
          refine (Yields.any _).bind fun strict _ => .ok ?_
          exact Schema.writable_of_parts trivial (List.forall_mem_map.mpr fun option hoption =>
            writable_payloadRef (hcases option hoption) _)
        | multi =>
          refine (allowedIn_yields options).bind fun allowed hallowed => .ok ?_
          exact Schema.writable_of_parts trivial hallowed
      | bool | number | string | regex | list | external => exact .error _
    · -- Other entries than the options are passed over.
      have hskip : schemaIn kind ((key, v) :: rest) = schemaIn kind rest := by
        rw [schemaIn.eq_def]
        exact if_neg hkey
      rw [hskip]
      exact schemaIn_yields kind rest

theorem refIn_yields (name : String) (options : Entries Value) :
    Yields (fun o => (o.getD Schema.defaultElements).Writable) (refIn name options) := by
  cases options with
  | nil => exact .ok writable_defaultElements
  | cons e rest =>
    obtain ⟨key, v⟩ := e
    unfold refIn
    split
    · exact (SchemaRef.ofValue_yields v).map fun ref href => href
    · exact refIn_yields name rest

theorem fieldsIn_yields (options : Entries Value) : Yields FieldsWritable (fieldsIn options) := by
  cases options with
  | nil => exact .ok fun _ h => absurd h List.not_mem_nil
  | cons e rest =>
    obtain ⟨key, v⟩ := e
    unfold fieldsIn
    split
    · cases v with
      | map fields => exact fieldsOfEntries_yields fields
      | null | bool | number | string | regex | list | external => exact .error _
    · exact fieldsIn_yields rest

theorem fieldsOfEntries_yields (entries : Entries Value) :
    Yields FieldsWritable (fieldsOfEntries entries) := by
  cases entries with
  | nil => exact .ok fun _ h => absurd h List.not_mem_nil
  | cons e rest =>
    obtain ⟨name, v⟩ := e
    unfold fieldsOfEntries
    refine (SchemaRef.ofValue_yields v).bind fun ref href => ?_
    refine (fieldsOfEntries_yields rest).bind fun fields hfields => .ok ?_
    exact List.forall_mem_cons.mpr ⟨href, hfields⟩

theorem enumOptionsIn_yields (options : Entries Value) :
    Yields (fun cases => ∀ option ∈ cases, FieldsWritable option.2) (enumOptionsIn options) := by
  cases options with
  | nil => exact .ok fun _ h => absurd h List.not_mem_nil
  | cons e rest =>
    obtain ⟨key, v⟩ := e
    unfold enumOptionsIn
    split
    · cases v with
      | map cases => exact enumOptionsOfEntries_yields cases
      | null | bool | number | string | regex | list | external => exact .error _
    · exact enumOptionsIn_yields rest

theorem enumOptionsOfEntries_yields (entries : Entries Value) :
    Yields (fun cases => ∀ option ∈ cases, FieldsWritable option.2)
      (enumOptionsOfEntries entries) := by
  cases entries with
  | nil => exact .ok fun _ h => absurd h List.not_mem_nil
  | cons e rest =>
    obtain ⟨name, v⟩ := e
    unfold enumOptionsOfEntries
    cases v with
    | map fields =>
      refine (fieldsOfEntries_yields fields).bind fun fields hfields => ?_
      refine (enumOptionsOfEntries_yields rest).bind fun cases hcases => .ok ?_
      exact List.forall_mem_cons.mpr ⟨hfields, hcases⟩
    | null | bool | number | string | regex | list | external => exact .error _

theorem allowedIn_yields (options : Entries Value) :
    Yields (fun refs => ∀ ref ∈ refs, ref.Writable) (allowedIn options) := by
  cases options with
  | nil => exact .ok fun _ h => absurd h List.not_mem_nil
  | cons e rest =>
    obtain ⟨key, v⟩ := e
    unfold allowedIn
    split
    · cases v with
      | list items => exact refsOfItems_yields items
      | null | bool | number | string | regex | map | external => exact .error _
    · exact allowedIn_yields rest

theorem refsOfItems_yields (items : List Value) :
    Yields (fun refs => ∀ ref ∈ refs, ref.Writable) (refsOfItems items) := by
  cases items with
  | nil => exact .ok fun _ h => absurd h List.not_mem_nil
  | cons v rest =>
    unfold refsOfItems
    refine (SchemaRef.ofValue_yields v).bind fun ref href => ?_
    refine (refsOfItems_yields rest).bind fun refs hrefs => .ok ?_
    exact List.forall_mem_cons.mpr ⟨href, hrefs⟩

end

theorem Schema.ofValue_yields (v : Value) : Yields Schema.Writable (Schema.ofValue v) := by
  cases v with
  | map entries => exact (Yields.any _).bind fun kind _ => schemaIn_yields kind entries
  | null | bool | number | string | regex | list | external => exact .error _

theorem schemasOfEntries_yields (entries : Entries Value) :
    Yields (fun schemas => ∀ e ∈ schemas, e.2.Writable) (schemasOfEntries entries) := by
  induction entries with
  | nil => exact .ok fun _ h => absurd h List.not_mem_nil
  | cons e rest ih =>
    obtain ⟨name, v⟩ := e
    unfold schemasOfEntries
    refine ((Schema.ofValue_yields v).mapError _).bind fun schema hschema => ?_
    exact ih.bind fun schemas hschemas => .ok (List.forall_mem_cons.mpr ⟨hschema, hschemas⟩)

/-- Every set that is read can be written. -/
theorem SchemaSet.ofValue_yields (v : Value) :
    Yields SchemaSet.Writable (SchemaSet.ofValue v) := by
  cases v with
  | map entries => exact (schemasOfEntries_yields entries).map fun schemas h => h
  | null | bool | number | string | regex | list | external => exact .error _

/-! ## 4. Round trips -/

/-- What can be written is read back as it was, and all that is read can be written; so reading,
writing and reading again is reading. -/
structure RoundTrips {ε α : Type} (Writable : α → Prop) (write : α → Value)
    (read : Value → Except ε α) : Prop where
  read_write : ∀ a, Writable a → read (write a) = .ok a
  writable : ∀ v a, read v = .ok a → Writable a
  read_write_read : ∀ v, ((read v).bind fun a => read (write a)) = read v

/-- Reading and writing are inverse where all that is read can be written and read back. -/
theorem roundTrips_of_yields {ε α : Type} {Writable : α → Prop} {write : α → Value}
    {read : Value → Except ε α} (read_write : ∀ a, Writable a → read (write a) = .ok a)
    (yields : ∀ v, Yields Writable (read v)) : RoundTrips Writable write read := by
  refine ⟨read_write, yields, fun v => ?_⟩
  cases h : read v with
  | error e => rfl
  | ok a => exact read_write a (yields v a h)

/-- Schemas, references and sets are read back from the values that they are written as, with all
that they hold in the same order, if their bounds are finite and their lengths can be expressed as
numbers.  Of whatever is read that is true. -/
theorem schemas_roundTrip :
    RoundTrips Schema.Writable Schema.toValue Schema.ofValue ∧
      RoundTrips SchemaRef.Writable SchemaRef.toValue SchemaRef.ofValue ∧
      RoundTrips SchemaSet.Writable SchemaSet.toValue SchemaSet.ofValue := by
  refine ⟨roundTrips_of_yields (fun schema h => ?_) Schema.ofValue_yields,
    roundTrips_of_yields (fun ref h => ref.ofValue_toValue h.regular) SchemaRef.ofValue_yields,
    roundTrips_of_yields (fun set h => ?_) SchemaSet.ofValue_yields⟩
  · obtain ⟨options, hvalue, hread⟩ := schema.readsBack (SchemaRef.Writable.regular h)
    rw [hvalue, Schema.ofValue_schemaEntry, hread]
  · exact set.ofValue_toValue fun e he => SchemaRef.Writable.regular (h e he)

def greatLength : Entries Value := [("max_length", .number (.ofNat 1180591620717411303424))]

/-- The length is cut when it is read, and stays so. -/
theorem schemas_roundTrip_greatLength :
    ∃ schema, Schema.ofValue (schemaEntry .string greatLength) = .ok schema ∧
      schema = .string { maxLength := some Number.maxLength } ∧ schema.Writable ∧
      Schema.ofValue schema.toValue = .ok schema := by
  have hoptions : (StringRules.ofOptions greatLength).toOption =
      some { maxLength := some Number.maxLength } := by
    decide +kernel
  have hread : Schema.ofValue (schemaEntry .string greatLength) =
      .ok (.string { maxLength := some Number.maxLength }) := by
    rw [Schema.ofValue_schemaEntry]
    cases hrules : StringRules.ofOptions greatLength with
    | error e => rw [hrules] at hoptions; cases hoptions
    | ok rules =>
      rw [hrules] at hoptions
      rw [schemaIn_string hrules, Option.some.inj hoptions]
  have hwritable := schemas_roundTrip.1.writable _ _ hread
  exact ⟨_, hread, rfl, hwritable, schemas_roundTrip.1.read_write _ hwritable⟩

end Conform
