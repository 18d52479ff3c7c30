import Conform.Proofs.Grammar
import Conform.Proofs.Rendering

/-!
# Reloading — the rendered form of a model gives the model again

A set is written in canonical form, in which nothing is left for the metamodel to change
(`walk_settles`), and is then read back as it was.  So a well formed set is rebuilt from what it is
written as (`build_toValue`), and every model that is accepted has a well formed set.
-/

namespace Conform

/-- A set that can be a model: its names may be names of a model, the names in its schemas mean
something, and its bounds and lengths can be written as numbers. -/
structure SchemaSet.WellFormed (set : SchemaSet) : Prop where
  names : ∀ name ∈ set.names, Metamodel.modelKeyPattern.isMatch name = true
  regular : ∀ e ∈ set.schemas, (SchemaRef.inline e.2).Regular set.Knows

/-! ## 1. Clean choices -/

namespace Node

variable {node : Node} {s : Value}

/-- A choice settles on a value when it has a clean candidate and all clean candidates settle on
that value. -/
theorem choice_settles {candidates : List Report} {r : Report} (hr : r ∈ candidates)
    (hclean : r.Clean) (hsettles : ∀ c ∈ candidates, c.Clean → c.Settles True s) :
    (node.choice candidates).Settles True s := by
  have hchoice : (node.choice candidates).Clean := choice_clean hr hclean
  exact hsettles _ (node.choice_isOk ((Report.isOk_iff _).mpr hchoice.1)) hchoice

end Node

namespace Model

/-! ## 2. Canonical forms -/

/-- The forms that sanitized values have: mappings are not given as lists, patterns not as literals,
and a schema has its type and its `meta` in this order and nothing else. -/
inductive Canonical (spec : Value) : Form → Value → Prop
  | model {entries : Entries Value}
    (keys : ∀ e ∈ entries, Metamodel.modelKeyPattern.isMatch e.1 = true)
    (each : ∀ e ∈ entries, Canonical spec .schema e.2) : Canonical spec .model (.map entries)
  | schema {kind : PrimitiveKind} {entries : Entries Value}
    (options : Canonical spec (.options kind) (.map entries)) :
    Canonical spec .schema (schemaEntry kind entries)
  | inline {v : Value} (schema : Canonical spec .schema v) : Canonical spec .reference v
  | name {name : String} (allows : Allows spec name) : Canonical spec .reference (.string name)
  | options {kind : PrimitiveKind} {entries : Entries Value}
    (declared : ∀ e ∈ entries, (optionForms kind).contains e.1 = true)
    (each : ∀ e ∈ entries, ∀ form, (optionForms kind).get? e.1 = some form →
      Canonical spec form e.2) : Canonical spec (.options kind) (.map entries)
  | switch (b : Bool) : Canonical spec .switch (.bool b)
  | bound {n : Number} (finite : n.isFinite = true) : Canonical spec .bound (.number n)
  | length {n : Nat} (isLength : Number.IsLength n) : Canonical spec .length (.number (.ofNat n))
  | text (s : String) : Canonical spec .text (.string s)
  | pattern (p : Pattern) : Canonical spec .pattern (.regex p)
  | fields {entries : Entries Value} (each : ∀ e ∈ entries, Canonical spec .reference e.2) :
    Canonical spec .fields (.map entries)
  | cases {entries : Entries Value} (each : ∀ e ∈ entries, Canonical spec .fields e.2) :
    Canonical spec .cases (.map entries)
  | candidates {items : List Value} (each : ∀ item ∈ items, Canonical spec .reference item) :
    Canonical spec .candidates (.list items)

variable {spec v : Value} {form : Form}

/-- What is canonical stands for itself. -/
theorem Canonical.represented (h : Canonical spec form v) : v.represented = v := by
  induction h with
  | inline _ ih => exact ih
  | _ => rfl

/-! ## 3. Canonical forms are left as they are -/

section Step

variable {node : Node} {options : Options} {D : Reports}

def SettlesBelow (spec : Value) (node : Node) (D : Reports) (form : Form) : Prop :=
  ∀ b ∈ node.value.branches form.meaning, ∀ part : Form, b.ref = part.ref →
    Canonical spec part b.value → (b.report D).Settles True b.value

/-- Canonical options settle as they are. -/
theorem options_settles {kind : PrimitiveKind} {entries : Entries Value}
    (hv : node.value = .map entries)
    (declared : ∀ e ∈ entries, (optionForms kind).contains e.1 = true)
    (each : ∀ e ∈ entries, ∀ form, (optionForms kind).get? e.1 = some form →
      Canonical spec form e.2)
    (below : SettlesBelow spec node D (.options kind)) :
    (node.report (context spec options) D (Form.options kind).meaning).Settles True
      (.map entries) := by
  have hdeclared : ∀ e ∈ entries, ∃ ref, (Metamodel.optionFields kind).get? e.1 = some ref := by
    intro e he
    obtain ⟨form, hform⟩ := Option.isSome_iff_exists.1 (declared e he)
    exact ⟨form.ref, by rw [optionFields_get?, hform, Option.map_some]⟩
  refine Node.fieldsReport_settles hv hdeclared nofun fun b hb => ?_
  have hmem := hb
  rw [hv] at hmem
  cases hasChild_of_mem hmem with
  | argument value mem field =>
    cases value
    rw [optionFields_get?] at field
    obtain ⟨form, hform, href⟩ := Option.map_eq_some_iff.1 field
    exact below _ hb form href.symm (each _ mem form hform)

/-- A canonical schema settles as it is. -/
theorem schema_settles {kind : PrimitiveKind} {entries : Entries Value}
    (hv : node.value = schemaEntry kind entries)
    (hoptions : Canonical spec (.options kind) (.map entries))
    (below : SettlesBelow spec node D .schema) :
    (node.report (context spec options) D Form.schema.meaning).Settles True
      (schemaEntry kind entries) := by
  have hfields := selects_iff.mpr ⟨kind, rfl, rfl⟩
  refine Node.enum_settles hv (by decide) hfields fun b hb => ?_
  have hmem := hb
  rw [hv, branches_enum rfl (Node.get?_discriminant ..) hfields, List.mem_singleton] at hmem
  subst hmem
  exact below _ hb (.options kind) rfl hoptions

theorem entries_settle {part : Form} {validKeys : Option Pattern} {entries : Entries Value}
    (hv : node.value = .map entries)
    (keys : ∀ e ∈ entries, ∀ p, validKeys = some p → p.isMatch e.1 = true)
    (each : ∀ e ∈ entries, Canonical spec part e.2)
    (below : ∀ b ∈ node.value.branches (.index part.ref validKeys), b.ref = part.ref →
      Canonical spec part b.value → (b.report D).Settles True b.value) :
    (node.report (context spec options) D (.index part.ref validKeys)).Settles True
      (.map entries) := by
  refine Node.index_settles hv keys fun b hb => ?_
  refine below b hb (ref_of_mem_branches hb rfl) ?_
  rw [hv] at hb
  obtain ⟨e, he, rfl⟩ := List.mem_map.mp hb
  exact each e he

/-- A canonical value of any form but that of references is left as it is by its node. -/
theorem settles_of_canonical (hv : node.value = v) (hcanonical : Canonical spec form v)
    (hform : form ≠ .reference) (below : SettlesBelow spec node D form) :
    (node.report (context spec options) D form.meaning).Settles True v := by
  cases hcanonical with
  | model keys each =>
    refine entries_settle hv (fun e he p hp => ?_) each fun b hb => below b hb .schema
    rw [← Option.some.inj hp]
    exact keys e he
  | fields each => exact entries_settle hv (fun _ _ => nofun) each fun b hb => below b hb .reference
  | cases each => exact entries_settle hv (fun _ _ => nofun) each fun b hb => below b hb .fields
  | candidates each =>
    refine Node.list_settles hv fun b hb => ?_
    refine below b hb .reference (ref_of_mem_branches hb rfl) ?_
    rw [hv] at hb
    obtain ⟨c, hc, rfl⟩ := List.mem_map.mp hb
    exact each c.1 (List.fst_mem_of_mem_zipIdx hc)
  | schema hoptions => exact schema_settles hv hoptions below
  | options declared each => exact options_settles hv declared each below
  | switch b => exact Node.boolean_settles hv
  | bound finite => exact Node.number_settles hv (meets_number_iff.mpr finite)
  | @length n isLength =>
    have finite := Number.ofNat_isFinite isLength
    have meets := meets_natural_iff.mpr
      ⟨finite, Number.ofNat_isIntegral finite, Number.ofNat_not_lt_zero n⟩
    exact Node.number_settles hv meets
  | text s => exact Node.string_settles hv ⟨nofun, nofun, nofun, nofun⟩ rfl
  | pattern p => exact Node.regex_settles hv
  | inline | name => exact absurd rfl hform

end Step

/-- A string is left as it is where it is clean. -/
theorem walk_string_settles {ctx : Context} {levels : Nat} {path : Path} {ref : SchemaRef}
    {rules : StringRules} {r : Report} (h : walk ctx levels path v ref = .ok r)
    (hrules : ctx.schemas.resolve? ref = some (.string rules)) (hv : v.represented = v)
    (hhide : ctx.options.hidesConfidential = false) (hclean : r.Clean) : r.Settles True v := by
  obtain ⟨text, rfl, meets⟩ := (walk_string_clean_iff h hrules hv).mp hclean
  cases levels with
  | zero => cases h
  | succ levels =>
    obtain ⟨D, -, rfl⟩ := walk_inv h hrules
    have hsettles : ((nodeAt path (.string text) (.string rules)).string ctx rules).Settles True
        (.string text) := Node.string_settles rfl meets hhide
    show ((nodeAt path (.string text) (.string rules)).string ctx rules).close.Settles True _
    rw [hsettles.close]
    exact hsettles

/-- A reference is left as it is by every candidate that has nothing to say about it. -/
theorem reference_settles {options : Options} {levels : Nat} {path : Path} {D : Reports}
    {node : Node} (hv : node.value = v) (hcanonical : Canonical spec .reference v)
    (hbelow : ∀ b ∈ v.branches Form.reference.meaning,
      walk (context spec options) levels (path ++ [b.step]) b.value b.ref = .ok (b.report D))
    (hschema : Canonical spec .schema v →
      (D (candidateKey 0) v Form.schema.ref).Settles True v) :
    (node.report (context spec options) D Form.reference.meaning).Settles True v := by
  have hrepresented := hcanonical.represented
  have hschemaWalk := hbelow ⟨candidateKey 0, v, Form.schema.ref⟩ List.mem_cons_self
  have hprimitiveWalk := hbelow ⟨candidateKey 1, v, .named "primitive string"⟩
    (List.mem_cons_of_mem _ List.mem_cons_self)
  have hkeyWalk := hbelow ⟨candidateKey 2, v, .inline (.string { rootKey := true })⟩
    (List.mem_cons_of_mem _ (List.mem_cons_of_mem _ List.mem_cons_self))
  have hprimitive := walk_string_settles hprimitiveWalk rfl hrepresented rfl
  have hkey := walk_string_settles hkeyWalk rfl hrepresented rfl
  have hprimitiveClean := walk_string_clean_iff hprimitiveWalk rfl hrepresented
  have hkeyClean := walk_string_clean_iff hkeyWalk rfl hrepresented
  show (node.choice [D (candidateKey 0) node.value Form.schema.ref,
    D (candidateKey 1) node.value (.named "primitive string"),
    D (candidateKey 2) node.value (.inline (.string { rootKey := true }))]).Settles True v
  rw [hv]
  cases hcanonical with
  | inline canonical =>
    have hsettles := hschema canonical
    refine Node.choice_settles List.mem_cons_self ⟨hsettles.errors, hsettles.warnings⟩ ?_
    simp only [List.forall_mem_cons, List.not_mem_nil, false_implies, implies_true, and_true]
    exact ⟨fun _ => hsettles, hprimitive, hkey⟩
  | @name name allows =>
    -- A name is no schema, so the first candidate cannot win.
    have hnot : ¬(D (candidateKey 0) (.string name) Form.schema.ref).Clean := by
      intro hclean
      have hiff := walk_clean_iff_hasForm _ .schema _ _ _ hschemaWalk (Value.native_string name)
      cases hiff.mp hclean
    obtain ⟨r, hr, hclean⟩ : ∃ r ∈ [D (candidateKey 0) (.string name) Form.schema.ref,
        D (candidateKey 1) (.string name) (.named "primitive string"),
        D (candidateKey 2) (.string name) (.inline (.string { rootKey := true }))], r.Clean := by
      obtain hkind | hroot := allows
      · have hclean := hprimitiveClean.mpr
          ⟨name, rfl, meets_primitive_iff.mpr (ofName?_isSome_iff.mp hkind)⟩
        exact ⟨_, List.mem_cons_of_mem _ List.mem_cons_self, hclean⟩
      · have hclean := hkeyClean.mpr ⟨name, rfl, meets_rootKey_iff.mpr hroot⟩
        exact ⟨_, List.mem_cons_of_mem _ (List.mem_cons_of_mem _ List.mem_cons_self), hclean⟩
    refine Node.choice_settles hr hclean ?_
    simp only [List.forall_mem_cons, List.not_mem_nil, false_implies, implies_true, and_true]
    exact ⟨fun hclean => absurd hclean hnot, hprimitive, hkey⟩

/-- Under the metamodel, canonical values are sanitized to themselves. -/
theorem walk_settles {options : Options} (levels : Nat) :
    ∀ (form : Form) (path : Path) (v : Value) (r : Report),
      walk (context spec options) levels path v form.ref = .ok r → Canonical spec form v →
        r.Settles True v := by
  induction levels with
  | zero =>
    intro form path v r h
    cases h
  | succ levels ih =>
    intro form path v r h hcanonical
    have hv := hcanonical.represented
    obtain ⟨D, hbelow, rfl⟩ := walk_inv h form.resolve?_ref
    have hsettles : ((nodeAt path v form.meaning).report (context spec options) D
        form.meaning).Settles True v := by
      by_cases hform : form = .reference
      · subst hform
        rw [hv] at hbelow
        refine reference_settles hv hcanonical hbelow fun hschema => ?_
        exact ih .schema _ _ _ (hbelow ⟨candidateKey 0, v, Form.schema.ref⟩ List.mem_cons_self)
          hschema
      · refine settles_of_canonical hv hcanonical hform fun b hb part hpart hcanonical => ?_
        have hwalk := hbelow b hb
        rw [hpart] at hwalk
        exact ih part _ _ _ hwalk hcanonical
    rw [hsettles.close]
    exact hsettles

/-! ## 4. Schemas are written in canonical form -/

theorem forall_mem_switchEntry {name : String} {on : Bool} {P : String × Value → Prop}
    (h : ∀ b, P (name, .bool b)) : ∀ e ∈ switchEntry name on, P e := by
  intro e he
  cases on with
  | false => cases he
  | true =>
    rw [List.mem_singleton.mp he]
    exact h true

theorem forall_mem_optionalEntry {name : String} {value : Option Value}
    {P : String × Value → Prop} (h : ∀ v, value = some v → P (name, v)) :
    ∀ e ∈ optionalEntry name value, P e := by
  intro e he
  cases value with
  | none => cases he
  | some v =>
    rw [List.mem_singleton.mp he]
    exact h v rfl

def IsOption (spec : Value) (kind : PrimitiveKind) (e : String × Value) : Prop :=
  ∃ form, (optionForms kind).get? e.1 = some form ∧ Canonical spec form e.2

/-- Options are canonical when each of them is. -/
theorem canonical_options {kind : PrimitiveKind} {entries : Entries Value}
    (h : ∀ e ∈ entries, IsOption spec kind e) : Canonical spec (.options kind) (.map entries) := by
  refine .options (fun e he => ?_) fun e he form hform => ?_
  · obtain ⟨form, hform, -⟩ := h e he
    exact Option.isSome_iff_exists.2 ⟨form, hform⟩
  · obtain ⟨form', hform', hcanonical⟩ := h e he
    rw [hform] at hform'
    obtain rfl := Option.some.inj hform'
    exact hcanonical

theorem numberRules_canonical (rules : NumberRules) (h : (Schema.number rules).Expressible) :
    Canonical spec (.options .number) (.map rules.toEntries) := by
  apply canonical_options
  unfold NumberRules.toEntries
  simp only [List.forall_mem_append]
  refine ⟨⟨forall_mem_switchEntry fun b => ⟨.switch, rfl, .switch b⟩, ?_⟩, ?_⟩
  · refine forall_mem_optionalEntry fun v hv => ?_
    obtain ⟨n, hn, rfl⟩ := Option.map_eq_some_iff.1 hv
    exact ⟨.bound, rfl, .bound (h.1 n hn)⟩
  · refine forall_mem_optionalEntry fun v hv => ?_
    obtain ⟨n, hn, rfl⟩ := Option.map_eq_some_iff.1 hv
    exact ⟨.bound, rfl, .bound (h.2 n hn)⟩

theorem stringRules_canonical (rules : StringRules) (h : (Schema.string rules).Expressible) :
    Canonical spec (.options .string) (.map rules.toEntries) := by
  apply canonical_options
  unfold StringRules.toEntries
  simp only [List.forall_mem_append]
  refine ⟨⟨⟨⟨?_, ?_⟩, ?_⟩, ?_⟩, ?_⟩
  · refine forall_mem_optionalEntry fun v hv => ?_
    obtain ⟨n, hn, rfl⟩ := Option.map_eq_some_iff.1 hv
    exact ⟨.length, rfl, .length (h.1 n hn)⟩
  · refine forall_mem_optionalEntry fun v hv => ?_
    obtain ⟨n, hn, rfl⟩ := Option.map_eq_some_iff.1 hv
    exact ⟨.length, rfl, .length (h.2 n hn)⟩
  · refine forall_mem_optionalEntry fun v hv => ?_
    obtain ⟨p, -, rfl⟩ := Option.map_eq_some_iff.1 hv
    exact ⟨.pattern, rfl, .pattern p⟩
  · exact forall_mem_switchEntry fun b => ⟨.switch, rfl, .switch b⟩
  · exact forall_mem_switchEntry fun b => ⟨.switch, rfl, .switch b⟩

mutual

/-- A regular schema is written in the canonical form. -/
theorem canonical_schema (schema : Schema) (h : (SchemaRef.inline schema).Regular (Allows spec)) :
    Canonical spec .schema schema.toValue := by
  have hnone {kind : PrimitiveKind} : Canonical spec (.options kind) (.map []) :=
    canonical_options fun e he => absurd he List.not_mem_nil
  -- Each option has the form that the grammar gives it under its name.
  cases schema with
  | freeform | boolean | regex =>
    rw [Schema.toValue]
    exact .schema hnone
  | number rules =>
    rw [Schema.toValue]
    exact .schema (numberRules_canonical rules (h.schemas _ (.here _)))
  | string rules =>
    rw [Schema.toValue]
    exact .schema (stringRules_canonical rules (h.schemas _ (.here _)))
  | index elements validKeys =>
    have helements := canonical_ref elements (h.part List.mem_cons_self)
    rw [Schema.toValue]
    refine .schema (canonical_options ?_)
    rw [List.forall_mem_cons]
    refine ⟨⟨.reference, rfl, helements⟩, forall_mem_optionalEntry fun v hv => ?_⟩
    obtain ⟨p, -, rfl⟩ := Option.map_eq_some_iff.1 hv
    exact ⟨.pattern, rfl, .pattern p⟩
  | list elements =>
    have helements := canonical_ref elements (h.part List.mem_cons_self)
    rw [Schema.toValue]
    refine .schema (canonical_options ?_)
    rw [List.forall_mem_singleton]
    exact ⟨.reference, rfl, helements⟩
  | args fields =>
    have hfields := canonical_fields fields fun part hpart => h.part hpart
    rw [Schema.toValue]
    refine .schema (canonical_options ?_)
    rw [List.forall_mem_singleton]
    exact ⟨.fields, rfl, .fields hfields⟩
  | object fields =>
    have hfields := canonical_fields fields fun part hpart => h.part hpart
    rw [Schema.toValue]
    refine .schema (canonical_options ?_)
    rw [List.forall_mem_singleton]
    exact ⟨.fields, rfl, .fields hfields⟩
  | enum valueField metaField strict options =>
    have hcases := canonical_cases options fun option hoption part hpart =>
      (h.part (List.mem_map_of_mem hoption)).payload hpart
    rw [Schema.toValue]
    refine .schema (canonical_options ?_)
    simp only [List.forall_mem_cons, List.not_mem_nil, false_implies, implies_true, and_true]
    exact ⟨⟨.text, rfl, .text valueField⟩, ⟨.text, rfl, .text metaField⟩,
      ⟨.switch, rfl, .switch strict⟩, ⟨.cases, rfl, .cases hcases⟩⟩
  | multi refs =>
    have hrefs := canonical_candidates refs fun part hpart => h.part hpart
    rw [Schema.toValue]
    refine .schema (canonical_options ?_)
    rw [List.forall_mem_singleton]
    exact ⟨.candidates, rfl, .candidates hrefs⟩

/-- A regular reference is written in the canonical form. -/
theorem canonical_ref (ref : SchemaRef) (h : ref.Regular (Allows spec)) :
    Canonical spec .reference ref.toValue := by
  cases ref with
  | named name =>
    rw [SchemaRef.toValue]
    exact .name (h.names name (.named name))
  | inline schema =>
    rw [SchemaRef.toValue]
    exact .inline (canonical_schema schema h)

theorem canonical_fields (fields : Fields)
    (h : ∀ part ∈ fields.map Prod.snd, part.Regular (Allows spec)) :
    ∀ e ∈ fieldsToEntries fields, Canonical spec .reference e.2 := by
  cases fields with
  | nil => exact fun e he => absurd he List.not_mem_nil
  | cons field rest =>
    obtain ⟨name, ref⟩ := field
    rw [List.map_cons, List.forall_mem_cons] at h
    rw [fieldsToEntries, List.forall_mem_cons]
    exact ⟨canonical_ref ref h.1, canonical_fields rest h.2⟩

theorem canonical_cases (options : Entries Fields)
    (h : ∀ option ∈ options, ∀ part ∈ option.2.map Prod.snd, part.Regular (Allows spec)) :
    ∀ e ∈ optionsToEntries options, Canonical spec .fields e.2 := by
  cases options with
  | nil => exact fun e he => absurd he List.not_mem_nil
  | cons option rest =>
    obtain ⟨name, fields⟩ := option
    rw [List.forall_mem_cons] at h
    rw [optionsToEntries, List.forall_mem_cons]
    exact ⟨.fields (canonical_fields fields h.1), canonical_cases rest h.2⟩

theorem canonical_candidates (refs : List SchemaRef)
    (h : ∀ part ∈ refs, part.Regular (Allows spec)) :
    ∀ item ∈ refsToValues refs, Canonical spec .reference item := by
  cases refs with
  | nil => exact fun e he => absurd he List.not_mem_nil
  | cons ref rest =>
    rw [List.forall_mem_cons] at h
    rw [refsToValues, List.forall_mem_cons]
    exact ⟨canonical_ref ref h.1, canonical_candidates rest h.2⟩

end

/-! ## 5. Models from rendered sets -/

variable {set : SchemaSet} {name : String}

/-- The keys of a rendered set are its names. -/
theorem hasKey_toValue : set.toValue.hasKey name = set.contains name := by
  show Entries.contains (set.schemas.map fun e => (e.1, e.2.toValue)) name = _
  rw [Entries.contains, Entries.get?_map, Option.isSome_map]
  rfl

/-- A well-formed set is written in the canonical form of models. -/
theorem canonical_toValue (h : set.WellFormed) : Canonical set.toValue .model set.toValue := by
  refine .model (fun e he => ?_) fun e he => ?_
  · obtain ⟨given, hgiven, rfl⟩ := List.mem_map.mp he
    exact h.names _ (List.mem_map_of_mem hgiven)
  · obtain ⟨given, hgiven, rfl⟩ := List.mem_map.mp he
    refine canonical_schema given.2 ((h.regular given hgiven).imp fun name hname => ?_)
    obtain hset | hprimitive := hname
    · exact .inr (hasKey_toValue.trans hset)
    · exact .inl hprimitive

/-- A well formed set is rebuilt from what it is written as, given depth enough. -/
theorem build_of_wellFormed (h : set.WellFormed) :
    ∃ depth, ∀ options : Options, depth ≤ options.depthLimit →
      build set.toValue options = .ok ⟨set, options⟩ := by
  obtain ⟨depth, hdepth⟩ := (productive_ref .model).completes set.toValue
  refine ⟨depth, fun options hoptions => ?_⟩
  obtain ⟨r, hr⟩ := hdepth (context set.toValue options) rfl (options.depthLimit + 1) (by omega) []
  have hexamine : examine set.toValue options = .ok r := hr
  have hsettles := walk_settles _ .model [] _ r hr (canonical_toValue h)
  rw [build_of_examine hexamine, if_pos ⟨hsettles.errors, hsettles.warnings⟩,
    hsettles.placeholder trivial, set.ofValue_toValue h.regular]
  rfl

/-- Every model is well formed. -/
theorem wellFormed_of_build {options : Options} {m : Model} (h : build spec options = .ok m) :
    m.schemas.WellFormed :=
  ⟨(build_regular h).1, (build_regular h).2⟩

/-- Well formed sets are rebuilt from what they are written as, and the sets of accepted models are
well formed; so an accepted model is rebuilt from its rendered set. -/
theorem build_toValue :
    (∀ set : SchemaSet, set.WellFormed → ∃ depth, ∀ options : Options,
      depth ≤ options.depthLimit → build set.toValue options = .ok ⟨set, options⟩) ∧
    ∀ spec options m, build spec options = .ok m → m.schemas.WellFormed ∧
      ∃ depth, ∀ reload : Options, depth ≤ reload.depthLimit →
        build m.schemas.toValue reload = .ok ⟨m.schemas, reload⟩ := by
  constructor
  · intro set hset
    exact build_of_wellFormed hset
  · intro spec options m hm
    have hset := wellFormed_of_build hm
    exact ⟨hset, build_of_wellFormed hset⟩

def treeSet : SchemaSet where
  schemas :=
    [("label", .string { maxLength := some 8 }),
      ("tree", .args [("label", .named "label"), ("children", .inline (.list (.named "tree")))])]

theorem wellFormed_treeSet : treeSet.WellFormed := by
  have hlength : Number.IsLength 8 := by
    show (Number.ofNat 8).toLength = 8
    decide +kernel
  constructor
  · decide +kernel
  · simp only [treeSet, List.forall_mem_cons, List.not_mem_nil, false_implies, implies_true,
      and_true]
    constructor
    · refine SchemaRef.regular_inline ⟨fun n hn => ?_, nofun⟩ fun part hpart => nomatch hpart
      rw [← Option.some.inj hn]
      exact hlength
    · refine SchemaRef.regular_inline (by trivial) ?_
      simp only [Schema.parts, List.map_cons, List.map_nil, List.forall_mem_cons, List.not_mem_nil,
        false_implies, implies_true, and_true]
      refine ⟨SchemaRef.regular_named (.inl rfl), SchemaRef.regular_inline (by trivial) ?_⟩
      rw [Schema.parts, List.forall_mem_singleton]
      exact SchemaRef.regular_named (.inl rfl)

theorem build_toValue_treeSet :
    treeSet.WellFormed ∧ (∃ depth, ∀ options : Options, depth ≤ options.depthLimit →
      build treeSet.toValue options = .ok ⟨treeSet, options⟩) ∧
    ∃ m, build pairSpec {} = .ok m ∧ m.schemas.WellFormed := by
  obtain ⟨hrebuild, hmodels⟩ := build_toValue
  refine ⟨wellFormed_treeSet, hrebuild treeSet wellFormed_treeSet, ?_⟩
  have hbuild : (build pairSpec {}).toOption.isSome = true := by decide +kernel
  cases hm : build pairSpec {} with
  | error cause =>
    rw [hm] at hbuild
    cases hbuild
  | ok m => exact ⟨m, rfl, (hmodels pairSpec {} m hm).1⟩

end Model
end Conform
