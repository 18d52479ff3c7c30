import Conform.Proofs.Acceptance

/-!
# Admittance — what it takes for a node to have no errors, given its children

`Node.Admits` says, schema by schema, which values a node takes without an error, given which of its
children have none; nothing is said there about warnings or about sanitized values.  A node has no
errors exactly then (`Node.report_isOk_iff`), so that verdicts alone can be followed through a walk.
-/

namespace Conform

namespace Node

variable {node : Node} {ctx : Context} {D : Reports} {schema : Schema}

def OkBelow (node : Node) (D : Reports) (schema : Schema) : Prop :=
  ∀ b ∈ node.value.branches schema, (b.report D).isOk = true

/-- The values that a node takes without an error, given its children. -/
def Admits (node : Node) (ctx : Context) (D : Reports) : Schema → Prop
  | .freeform => True
  | .boolean => ∃ b, node.value = .bool b ∨ node.value = .string (if b then "true" else "false")
  | .number rules => ∃ n, coerceNumber? node.value = some n ∧ rules.Meets n
  | .string rules => ∃ text coerced,
      coerceString? node.value = some (text, coerced) ∧ rules.Meets ctx.root text
  | .regex => (∃ p, node.value = .regex p) ∨
      ∃ literal p, node.value = .string literal ∧ Pattern.ofLiteral literal = .ok p
  | .list elements => (∃ items, node.value = .list items) ∧ node.OkBelow D (.list elements)
  | .index elements validKeys =>
    (∃ entries : Entries Value, node.value.keyed? = some entries ∧
      ∀ e ∈ entries, ∀ p, validKeys = some p → p.isMatch e.1 = true) ∧
    node.OkBelow D (.index elements validKeys)
  | .args fields =>
    (∃ entries : Entries Value, node.value.keyed? = some entries) ∧ node.OkBelow D (.args fields)
  | .object fields =>
    (∃ entries : Entries Value, node.value.keyed? = some entries ∧
      ∀ key ∈ Entries.keys fields, entries.contains key = true) ∧
    node.OkBelow D (.object fields)
  | .enum valueField metaField strict options =>
    (∃ entries : Entries Value, node.value.keyed? = some entries ∧
      ∃ (name : String) (fields : Fields), entries.get? valueField = some (.string name) ∧
        Entries.get? options name = some fields) ∧
    node.OkBelow D (.enum valueField metaField strict options)
  -- Whichever candidate wins, one without errors is enough.
  | .multi allowed => ∃ b ∈ node.value.branches (.multi allowed), (b.report D).isOk = true

/-! ## 1. Scalars -/

/-- Booleans and their two names are admitted. -/
theorem boolean_isOk_iff : node.boolean.isOk = true ↔
    ∃ b, node.value = .bool b ∨ node.value = .string (if b then "true" else "false") := by
  constructor
  · intro h
    -- The ways of acceptance ask for a context, which booleans do not depend on.
    obtain ⟨s, ws, -, haccepts⟩ : node.Accepted ⟨.null, {}, {}⟩ (fun _ _ _ => {}) .boolean
      node.boolean := boolean_accepted h
    cases haccepts with
    | @boolean b value => exact ⟨b, .inl value⟩
    | @booleanName b value => exact ⟨b, .inr value⟩
  · rintro ⟨b, hv | hv⟩
    · unfold boolean
      rw [hv]
      rfl
    · unfold boolean
      rw [hv]
      cases b <;> rfl

theorem number_isOk_iff {rules : NumberRules} : (node.number rules).isOk = true ↔
    ∃ n, coerceNumber? node.value = some n ∧ rules.Meets n := by
  constructor
  · intro h
    obtain ⟨s, ws, -, haccepts⟩ : node.Accepted ⟨.null, {}, {}⟩ (fun _ _ _ => {})
      (.number rules) (node.number rules) := number_accepted h
    cases haccepts with
    | @number _ n value meets => exact ⟨n, value, meets⟩
  · rintro ⟨n, hn, meets⟩
    rw [number_of_meets hn meets]
    rfl

theorem string_isOk_iff {rules : StringRules} : (node.string ctx rules).isOk = true ↔
    ∃ text coerced, coerceString? node.value = some (text, coerced) ∧
      rules.Meets ctx.root text := by
  constructor
  · intro h
    obtain ⟨s, ws, -, haccepts⟩ : node.Accepted ctx (fun _ _ _ => {}) (.string rules)
      (node.string ctx rules) := string_accepted h
    cases haccepts with
    | @string _ text coerced value meets => exact ⟨text, coerced, value, meets⟩
  · rintro ⟨text, coerced, hs, meets⟩
    rw [string_of_meets hs meets]
    rfl

/-- Patterns and their literals are admitted. -/
theorem regex_isOk_iff {options : Options} : (node.regex options).isOk = true ↔
    (∃ p, node.value = .regex p) ∨
      ∃ literal p, node.value = .string literal ∧ Pattern.ofLiteral literal = .ok p := by
  constructor
  · intro h
    obtain ⟨s, ws, -, haccepts⟩ : node.Accepted ⟨.null, {}, options⟩ (fun _ _ _ => {}) .regex
      (node.regex options) := regex_accepted h
    cases haccepts with
    | @regex p value => exact .inl ⟨p, value⟩
    | @regexLiteral literal p value compiles => exact .inr ⟨literal, p, value, compiles⟩
  · rintro (⟨p, hv⟩ | ⟨literal, p, hv, compiles⟩)
    · unfold regex
      rw [hv]
      rfl
    · unfold regex
      rw [hv]
      dsimp only
      rw [compiles]
      rfl

/-! ## 2. Containers and choices -/

theorem list_isOk_iff {elements : SchemaRef} :
    (node.report ctx D (.list elements)).isOk = true ↔
      (∃ items, node.value = .list items) ∧ node.OkBelow D (.list elements) := by
  constructor
  · intro h
    obtain ⟨s, ws, -, haccepts⟩ := list_accepted h
    cases haccepts with
    | @list _ items value children => exact ⟨⟨items, value⟩, children⟩
  · rintro ⟨⟨items, hv⟩, hbelow⟩
    rw [report_list hv, Report.isOk_iff]
    exact List.flatMap_eq_nil_iff.2 fun c hc =>
      (Report.isOk_iff _).mp (hbelow _ (item_mem_branches hv hc elements))

/-- Keyed values are admitted whose keys match and whose children have no errors. -/
theorem index_isOk_iff {elements : SchemaRef} {validKeys : Option Pattern} :
    (node.report ctx D (.index elements validKeys)).isOk = true ↔
      (∃ entries : Entries Value, node.value.keyed? = some entries ∧
        ∀ e ∈ entries, ∀ p, validKeys = some p → p.isMatch e.1 = true) ∧
      node.OkBelow D (.index elements validKeys) := by
  constructor
  · intro h
    obtain ⟨s, ws, -, haccepts⟩ := index_accepted h
    cases haccepts with
    | @index _ _ entries value keys children => exact ⟨⟨entries, value, keys⟩, children⟩
  · rintro ⟨⟨entries, hv, keys⟩, hbelow⟩
    rw [report_index hv, Report.isOk_iff]
    refine List.flatMap_eq_nil_iff.2 fun e he => entryErrors_eq_nil.mpr ⟨keys e he, ?_⟩
    exact (Report.isOk_iff _).mp (hbelow _ (entry_mem_branches hv he elements validKeys))

theorem fieldsReport_isOk_iff {required : Bool} {fields : Fields} :
    (node.fieldsReport D required fields).isOk = true ↔
      (∃ entries : Entries Value, node.value.keyed? = some entries ∧
        (required = true → ∀ key ∈ fields.keys, entries.contains key = true)) ∧
      node.OkBelow D (.args fields) := by
  constructor
  · intro h
    obtain ⟨entries, hv, present, children, -⟩ := fieldsReport_isOk h
    exact ⟨⟨entries, hv, present⟩, children⟩
  · rintro ⟨⟨entries, hv, present⟩, hbelow⟩
    rw [fieldsReport_eq hv, Report.isOk_iff, missing_eq_nil.mpr present, List.append_nil]
    exact List.flatMap_eq_nil_iff.2 fun b hb => (Report.isOk_iff _).mp (hbelow b hb)

/-- A keyed value is admitted that names an option and whose payload has no errors. -/
theorem enum_isOk_iff {valueField metaField : String} {strict : Bool} {options : Entries Fields} :
    (node.report ctx D (.enum valueField metaField strict options)).isOk = true ↔
      (∃ entries : Entries Value, node.value.keyed? = some entries ∧
        ∃ (name : String) (fields : Fields), entries.get? valueField = some (.string name) ∧
          Entries.get? options name = some fields) ∧
      node.OkBelow D (.enum valueField metaField strict options) := by
  -- Where an option is selected, the errors of the node are those of its payload.
  have hselected {entries : Entries Value} {name : String} {fields : Fields}
      (hv : node.value.keyed? = some entries)
      (hname : entries.get? valueField = some (.string name))
      (hfields : options.get? name = some fields) :
      (node.report ctx D (.enum valueField metaField strict options)).isOk = true ↔
        node.OkBelow D (.enum valueField metaField strict options) := by
    rw [OkBelow, branches_enum hv hname hfields, List.forall_mem_singleton,
      report_selected hv hname hfields]
    rfl
  constructor
  · intro h
    obtain ⟨entries, name, fields, hv, hname, hfields⟩ := enum_selects h
    exact ⟨⟨entries, hv, name, fields, hname, hfields⟩, (hselected hv hname hfields).mp h⟩
  · rintro ⟨⟨entries, hv, name, fields, hname, hfields⟩, hbelow⟩
    exact (hselected hv hname hfields).mpr hbelow

/-- What one candidate admits is admitted. -/
theorem multi_isOk_iff {allowed : List SchemaRef} :
    (node.report ctx D (.multi allowed)).isOk = true ↔
      ∃ b ∈ node.value.branches (.multi allowed), (b.report D).isOk = true := by
  constructor
  · intro h
    obtain ⟨c, hc, hwinner⟩ := List.mem_map.mp (node.choice_isOk h)
    refine ⟨_, candidate_mem_branches hc node.value, ?_⟩
    show (D (candidateKey c.2) node.value c.1).isOk = true
    rw [hwinner]
    exact h
  · rintro ⟨b, hb, hok⟩
    obtain ⟨c, hc, rfl⟩ := List.mem_map.mp hb
    have hmem : D (candidateKey c.2) node.value c.1 ∈
        allowed.zipIdx.map fun c => D (candidateKey c.2) node.value c.1 := List.mem_map_of_mem hc
    obtain ⟨winner, hwins, -⟩ := Report.exists_winner hmem hok
    show (node.choice _).isOk = true
    rw [node.choice_of_winner hwins]
    exact Report.winner?_isOk hwins

/-- A node has no errors exactly when its value and its children let it be. -/
theorem report_isOk_iff : (node.report ctx D schema).isOk = true ↔ node.Admits ctx D schema := by
  cases schema with
  | freeform => exact ⟨fun _ => trivial, fun _ => rfl⟩
  | boolean => exact boolean_isOk_iff
  | regex => exact regex_isOk_iff
  | number rules => exact number_isOk_iff
  | string rules => exact string_isOk_iff
  | list elements => exact list_isOk_iff
  | index elements validKeys => exact index_isOk_iff
  | args fields =>
    refine fieldsReport_isOk_iff.trans (and_congr_left fun _ => ?_)
    simp only [Bool.false_eq_true, false_implies, and_true]
  | object fields =>
    refine fieldsReport_isOk_iff.trans (and_congr_left fun _ => ?_)
    simp only [forall_const]
  | enum valueField metaField strict options => exact enum_isOk_iff
  | multi allowed => exact multi_isOk_iff

end Node

/-- A completed walk has no errors exactly when its first node has none, given the walks below
it. -/
theorem walk_isOk_iff {ctx : Context} {levels : Nat} {path : Path} {v : Value} {ref : SchemaRef}
    {schema : Schema} {r : Report} (h : walk ctx (levels + 1) path v ref = .ok r)
    (hschema : ctx.schemas.resolve? ref = some schema) :
    ∃ D : Reports,
      (∀ b ∈ v.represented.branches schema,
        walk ctx levels (path ++ [b.step]) b.value b.ref = .ok (b.report D)) ∧
      (r.isOk = true ↔ (nodeAt path v schema).Admits ctx D schema) := by
  obtain ⟨D, hD, rfl⟩ := walk_inv h hschema
  rw [Report.close_isOk]
  exact ⟨D, hD, Node.report_isOk_iff⟩

end Conform
