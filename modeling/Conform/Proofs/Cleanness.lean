import Conform.Proofs.Acceptance

/-!
# Cleanness — what it takes for a node to have nothing to say

A report is clean when it has neither errors nor warnings.  `Node.Exact` says, schema by schema,
which values a node takes without a remark, given which of its children are clean; nothing is said
there about what the sanitized value is.  A node is clean exactly then (`Node.report_clean_iff`).
-/

namespace Conform

def Report.Clean (r : Report) : Prop := r.errors = [] ∧ r.warnings = []

/-- Withholding the sanitized value of a report with errors does not make it clean. -/
theorem Report.close_clean_iff (r : Report) : r.close.Clean ↔ r.Clean := by
  unfold Clean close
  split <;> rfl

namespace Node

variable {node : Node} {ctx : Context} {D : Reports} {schema : Schema}

def CleanBelow (node : Node) (D : Reports) (schema : Schema) : Prop :=
  ∀ b ∈ node.value.branches schema, (b.report D).Clean

/-- The values that a node takes without a remark, given its children. -/
def Exact (node : Node) (ctx : Context) (D : Reports) : Schema → Prop
  | .freeform => True
  | .boolean => ∃ b, node.value = .bool b
  | .number rules => ∃ n, node.value = .number n ∧ rules.Meets n
  | .string rules => ∃ text, node.value = .string text ∧ rules.Meets ctx.root text
  | .regex => (∃ p, node.value = .regex p) ∨
      ∃ literal p, node.value = .string literal ∧ Pattern.ofLiteral literal = .ok p
  | .list elements => (∃ items, node.value = .list items) ∧ node.CleanBelow D (.list elements)
  -- Only a list without items is taken for a mapping in silence.
  | .index elements validKeys =>
    (node.value = .list [] ∨ ∃ entries, node.value = .map entries ∧
      ∀ e ∈ entries, ∀ p, validKeys = some p → p.isMatch e.1 = true) ∧
    node.CleanBelow D (.index elements validKeys)
  | .args fields =>
    (∃ entries : Entries Value, node.value.keyed? = some entries ∧
      ∀ e ∈ entries, ∃ ref, Entries.get? fields e.1 = some ref) ∧
    node.CleanBelow D (.args fields)
  | .object fields =>
    (∃ entries : Entries Value, node.value.keyed? = some entries ∧
      (∀ e ∈ entries, ∃ ref, Entries.get? fields e.1 = some ref) ∧
      ∀ key ∈ Entries.keys fields, entries.contains key = true) ∧
    node.CleanBelow D (.object fields)
  | .enum valueField metaField strict options =>
    (∃ (entries : Entries Value) (name : String) (fields : Fields),
      node.value.keyed? = some entries ∧ entries.get? valueField = some (.string name) ∧
      Entries.get? options name = some fields) ∧
    node.CleanBelow D (.enum valueField metaField strict options)
  | .multi allowed => ∃ b ∈ node.value.branches (.multi allowed), (b.report D).Clean

theorem not_clean_reject (node : Node) (f : Finding) : ¬(node.reject f).Clean :=
  fun h => List.cons_ne_nil _ _ h.1

theorem not_clean_coerce (node : Node) (v : Value) : ¬(node.coerce v).Clean :=
  fun h => List.cons_ne_nil _ _ h.2

/-- What is exact, unless it is a choice, is so below. -/
theorem cleanBelow_of_exact (h : node.Exact ctx D schema)
    (hmulti : ∀ allowed, schema ≠ .multi allowed) : node.CleanBelow D schema := by
  cases schema with
  | freeform | boolean | number | string | regex => exact fun b hb => absurd hb List.not_mem_nil
  | list | index | args | object | enum => exact h.2
  | multi allowed => exact absurd rfl (hmulti allowed)

/-! ## 1. Scalars -/

theorem boolean_clean_iff : node.boolean.Clean ↔ ∃ b, node.value = .bool b := by
  unfold boolean
  split
  · rename_i b hv
    exact ⟨fun _ => ⟨b, hv⟩, fun _ => ⟨rfl, rfl⟩⟩
  · rename_i hv
    simp only [not_clean_coerce, hv, reduceCtorEq, exists_false]
  · rename_i hv
    simp only [not_clean_coerce, hv, reduceCtorEq, exists_false]
  · rename_i hother _ _
    exact iff_of_false (node.not_clean_reject _) fun ⟨b, hb⟩ => hother b hb

/-- Numbers within the rules are clean, and nothing that is taken for one. -/
theorem number_clean_iff {rules : NumberRules} :
    (node.number rules).Clean ↔ ∃ n, node.value = .number n ∧ rules.Meets n := by
  constructor
  · intro h
    have hok := (Report.isOk_iff _).mpr h.1
    -- The ways of acceptance ask for a context, which numbers do not depend on.
    obtain ⟨s, ws, hreport, haccepts⟩ : node.Accepted ⟨.null, {}, {}⟩ (fun _ _ _ => {})
      (.number rules) (node.number rules) := number_accepted hok
    rw [hreport] at h
    cases haccepts with
    | number value meets =>
      exact ⟨_, eq_number_of_coerceNumber? value (coercionIf_eq_nil.mp h.2), meets⟩
  · rintro ⟨n, hv, meets⟩
    have hn : coerceNumber? node.value = some n := by
      rw [hv]
      exact coerceNumber?_number meets.finite
    rw [number_of_meets hn meets, hv]
    exact ⟨rfl, rfl⟩

/-- Strings within the rules are clean, and nothing that is taken for one. -/
theorem string_clean_iff {rules : StringRules} :
    (node.string ctx rules).Clean ↔
      ∃ text, node.value = .string text ∧ rules.Meets ctx.root text := by
  constructor
  · intro h
    have hok := (Report.isOk_iff _).mpr h.1
    obtain ⟨s, ws, hreport, haccepts⟩ : node.Accepted ctx (fun _ _ _ => {}) (.string rules)
      (node.string ctx rules) := string_accepted hok
    rw [hreport] at h
    cases haccepts with
    | string value meets =>
      -- The texts of numbers and booleans are warned of.
      obtain rfl := coercionIf_eq_nil.mp h.2
      exact ⟨_, eq_string_of_coerceString? value, meets⟩
  · rintro ⟨text, hv, meets⟩
    have hs : coerceString? node.value = some (text, false) := by
      rw [hv]
      rfl
    rw [string_of_meets hs meets]
    exact ⟨rfl, rfl⟩

theorem regex_clean_iff {options : Options} :
    (node.regex options).Clean ↔ (∃ p, node.value = .regex p) ∨
      ∃ literal p, node.value = .string literal ∧ Pattern.ofLiteral literal = .ok p := by
  unfold regex
  split
  · rename_i p hv
    exact ⟨fun _ => .inl ⟨p, hv⟩, fun _ => ⟨rfl, rfl⟩⟩
  · rename_i literal hv
    simp only [hv, reduceCtorEq, exists_false, false_or, Value.string.injEq]
    split
    · rename_i p hp
      exact ⟨fun _ => ⟨_, p, rfl, hp⟩, fun _ => ⟨rfl, rfl⟩⟩
    · rename_i error herror
      simp only [not_clean_reject, false_iff]
      rintro ⟨_, p, rfl, hp⟩
      rw [herror] at hp
      cases hp
  · rename_i hregex hstring
    refine iff_of_false (node.not_clean_reject _) ?_
    rintro (⟨p, hp⟩ | ⟨literal, p, hliteral, -⟩)
    · exact hregex p hp
    · exact hstring literal hliteral

/-! ## 2. Containers -/

/-- Clean children give nothing to collect. -/
theorem cleanBelow_iff : node.CleanBelow D schema ↔
    ((node.value.branches schema).flatMap fun b => (b.report D).errors) = [] ∧
      ((node.value.branches schema).flatMap fun b => (b.report D).warnings) = [] := by
  rw [List.flatMap_eq_nil_iff, List.flatMap_eq_nil_iff]
  exact ⟨fun h => ⟨fun b hb => (h b hb).1, fun b hb => (h b hb).2⟩,
    fun h b hb => ⟨h.1 b hb, h.2 b hb⟩⟩

theorem list_clean_iff {elements : SchemaRef} :
    (node.report ctx D (.list elements)).Clean ↔
      (∃ items, node.value = .list items) ∧ node.CleanBelow D (.list elements) := by
  rw [cleanBelow_iff]
  cases hv : node.value with
  | list items =>
    rw [report_list hv]
    simp only [Value.branches, List.flatMap_map]
    exact ⟨fun h => ⟨⟨items, rfl⟩, h⟩, fun h => h.2⟩
  | _ =>
    unfold report
    simp only [hv, not_clean_reject, reduceCtorEq, exists_false, false_and]

theorem listWarnings_eq_nil {entries : Entries Value} (h : node.value.keyed? = some entries) :
    node.listWarnings = [] ↔ node.value = .list [] ∨ node.value = .map entries := by
  cases hv : node.value with
  | list items =>
    cases items with
    | nil => exact ⟨fun _ => .inl rfl, fun _ => listWarnings_nil hv⟩
    | cons item rest =>
      rw [listWarnings_cons hv]
      constructor
      · exact fun hnil => absurd hnil (List.cons_ne_nil _ _)
      · rintro (hempty | hmap)
        · cases hempty
        · cases hmap
  | map given =>
    rw [hv] at h
    obtain rfl := Option.some.inj h
    exact ⟨fun _ => .inr rfl, fun _ => listWarnings_map hv⟩
  | _ =>
    rw [hv] at h
    cases h

/-- A list with items is not clean as a mapping, the empty one is. -/
theorem index_clean_iff {elements : SchemaRef} {validKeys : Option Pattern} :
    (node.report ctx D (.index elements validKeys)).Clean ↔
      (node.value = .list [] ∨ ∃ entries, node.value = .map entries ∧
        ∀ e ∈ entries, ∀ p, validKeys = some p → p.isMatch e.1 = true) ∧
      node.CleanBelow D (.index elements validKeys) := by
  cases hv : node.value.keyed? with
  | none =>
    -- What is neither a mapping nor a list is rejected.
    have hnone : (∀ entries, node.value ≠ .map entries) ∧ ∀ items, node.value ≠ .list items := by
      constructor
      · intro entries h
        rw [h] at hv
        cases hv
      · intro items h
        rw [h] at hv
        cases hv
    have hreport : node.report ctx D (.index elements validKeys) =
        node.reject .unableToCoerce := by
      unfold report
      rw [hv]
    rw [hreport]
    simp only [not_clean_reject, hnone.1, hnone.2, false_and, exists_false, or_self]
  | some entries =>
    -- The errors and warnings of the children stand among those of the keys.
    have hbelow : node.CleanBelow D (.index elements validKeys) ↔
        (∀ e ∈ entries, (D (.key e.1) e.2 elements).errors = []) ∧
          ∀ e ∈ entries, (D (.key e.1) e.2 elements).warnings = [] := by
      rw [cleanBelow_iff, branches_index hv, List.flatMap_map, List.flatMap_map,
        List.flatMap_eq_nil_iff, List.flatMap_eq_nil_iff]
      rfl
    rw [report_index hv, hbelow]
    unfold Report.Clean
    dsimp only
    rw [List.append_eq_nil_iff, listWarnings_eq_nil hv, List.flatMap_eq_nil_iff,
      List.flatMap_eq_nil_iff]
    simp only [entryErrors_eq_nil]
    constructor
    · rintro ⟨herrors, hvalue, hwarnings⟩
      refine ⟨?_, fun e he => (herrors e he).2, hwarnings⟩
      exact hvalue.imp id fun hmap => ⟨entries, hmap, fun e he => (herrors e he).1⟩
    · rintro ⟨hlist | ⟨given, hmap, keys⟩, herrors, hwarnings⟩
      · -- A list without items has no keys.
        obtain rfl : entries = [] := by
          rw [hlist] at hv
          cases hv
          rfl
        exact ⟨nofun, .inl hlist, hwarnings⟩
      · obtain rfl : given = entries := by
          rw [hmap] at hv
          cases hv
          rfl
        exact ⟨fun e he => ⟨keys e he, herrors e he⟩, .inr hmap, hwarnings⟩

/-- Nothing is said of the entries of declared fields when no entry is undeclared. -/
theorem entryWarnings_eq_nil {fields : Fields} {entries : Entries Value}
    (hv : node.value.keyed? = some entries) :
    node.entryWarnings D fields entries = [] ↔
      (∀ e ∈ entries, ∃ ref, fields.get? e.1 = some ref) ∧
        ∀ b ∈ node.value.branches (.args fields), (b.report D).warnings = [] := by
  unfold entryWarnings
  rw [List.flatMap_eq_nil_iff]
  constructor
  · intro h
    refine ⟨fun e he => ?_, fun b hb => ?_⟩
    · have hentry := h e he
      cases hfield : fields.get? e.1 with
      | none =>
        rw [hfield] at hentry
        exact absurd hentry (List.cons_ne_nil _ _)
      | some ref => exact ⟨ref, rfl⟩
    · rw [branches_args hv] at hb
      obtain ⟨e, he, hbranch⟩ := List.mem_filterMap.mp hb
      obtain ⟨ref, href, rfl⟩ := Option.map_eq_some_iff.1 hbranch
      have hentry := h e he
      rw [href] at hentry
      exact hentry
  · rintro ⟨declared, hbelow⟩ e he
    obtain ⟨ref, href⟩ := declared e he
    rw [href]
    exact hbelow _ (field_mem_branches hv he href)

/-- A mapping with declared fields is clean when it declares all its keys and has those required. -/
theorem fieldsReport_clean_iff {required : Bool} {fields : Fields} :
    (node.fieldsReport D required fields).Clean ↔
      (∃ entries, node.value.keyed? = some entries ∧
        (∀ e ∈ entries, ∃ ref, fields.get? e.1 = some ref) ∧
        (required = true → ∀ key ∈ fields.keys, entries.contains key = true)) ∧
      node.CleanBelow D (.args fields) := by
  cases hv : node.value.keyed? with
  | none =>
    unfold fieldsReport
    simp only [hv, not_clean_reject, reduceCtorEq, false_and, exists_false]
  | some entries =>
    rw [fieldsReport_eq hv]
    unfold Report.Clean
    dsimp only
    rw [List.append_eq_nil_iff, missing_eq_nil, entryWarnings_eq_nil hv, List.flatMap_eq_nil_iff]
    constructor
    · rintro ⟨⟨herrors, present⟩, declared, hwarnings⟩
      exact ⟨⟨entries, rfl, declared, present⟩, fun b hb => ⟨herrors b hb, hwarnings b hb⟩⟩
    · rintro ⟨⟨_, hentries, declared, present⟩, hbelow⟩
      cases hentries
      exact ⟨⟨fun b hb => (hbelow b hb).1, present⟩, declared, fun b hb => (hbelow b hb).2⟩

/-! ## 3. Choices -/

theorem enum_clean_iff {valueField metaField : String} {strict : Bool}
    {options : Entries Fields} :
    (node.report ctx D (.enum valueField metaField strict options)).Clean ↔
      (∃ (entries : Entries Value) (name : String) (fields : Fields),
        node.value.keyed? = some entries ∧ entries.get? valueField = some (.string name) ∧
        options.get? name = some fields) ∧
      node.CleanBelow D (.enum valueField metaField strict options) := by
  -- Where an option is selected, the node says what its payload says.
  have hselected {entries : Entries Value} {name : String} {fields : Fields}
      (hv : node.value.keyed? = some entries)
      (hname : entries.get? valueField = some (.string name))
      (hfields : options.get? name = some fields) :
      (node.report ctx D (.enum valueField metaField strict options)).Clean ↔
        node.CleanBelow D (.enum valueField metaField strict options) := by
    rw [CleanBelow, branches_enum hv hname hfields, List.forall_mem_singleton,
      report_selected hv hname hfields]
    rfl
  constructor
  · intro h
    obtain ⟨entries, name, fields, hv, hname, hfields⟩ := enum_selects ((Report.isOk_iff _).mpr h.1)
    exact ⟨⟨entries, name, fields, hv, hname, hfields⟩, (hselected hv hname hfields).mp h⟩
  · rintro ⟨⟨entries, name, fields, hv, hname, hfields⟩, hbelow⟩
    exact (hselected hv hname hfields).mpr hbelow

/-- A choice among candidates of which one is clean is clean. -/
theorem choice_clean {candidates : List Report} {r : Report} (hr : r ∈ candidates)
    (hclean : r.Clean) : (node.choice candidates).Clean := by
  obtain ⟨winner, hwins, hwarnings⟩ :=
    Report.exists_winner hr ((Report.isOk_iff r).mpr hclean.1)
  rw [hclean.2] at hwarnings
  rw [node.choice_of_winner hwins]
  exact ⟨(Report.isOk_iff winner).mp (Report.winner?_isOk hwins),
    List.eq_nil_of_length_eq_zero (Nat.le_zero.mp hwarnings)⟩

/-- A choice is clean when one candidate is, since a clean one wins. -/
theorem multi_clean_iff {allowed : List SchemaRef} :
    (node.report ctx D (.multi allowed)).Clean ↔
      ∃ b ∈ node.value.branches (.multi allowed), (b.report D).Clean := by
  constructor
  · intro h
    obtain ⟨c, hc, hwinner⟩ := List.mem_map.mp (node.choice_isOk ((Report.isOk_iff _).mpr h.1))
    refine ⟨_, candidate_mem_branches hc node.value, ?_⟩
    show (D (candidateKey c.2) node.value c.1).Clean
    rw [hwinner]
    exact h
  · rintro ⟨b, hb, hclean⟩
    obtain ⟨c, hc, rfl⟩ := List.mem_map.mp hb
    exact choice_clean (List.mem_map.mpr ⟨c, hc, rfl⟩) hclean

/-- A node is clean exactly when its value and its children let it be. -/
theorem report_clean_iff : (node.report ctx D schema).Clean ↔ node.Exact ctx D schema := by
  cases schema with
  | freeform => exact ⟨fun _ => trivial, fun _ => ⟨rfl, rfl⟩⟩
  | boolean => exact boolean_clean_iff
  | regex => exact regex_clean_iff
  | number rules => exact number_clean_iff
  | string rules => exact string_clean_iff
  | list elements => exact list_clean_iff
  | index elements validKeys => exact index_clean_iff
  | args fields =>
    refine fieldsReport_clean_iff.trans (and_congr_left fun _ => ?_)
    simp only [Bool.false_eq_true, false_implies, and_true]
  | object fields =>
    refine fieldsReport_clean_iff.trans (and_congr_left fun _ => ?_)
    simp only [forall_const]
  | enum valueField metaField strict options => exact enum_clean_iff
  | multi allowed => exact multi_clean_iff

end Node

/-- A completed walk is clean exactly when its first node is, given the walks below it. -/
theorem walk_clean_iff {ctx : Context} {levels : Nat} {path : Path} {v : Value} {ref : SchemaRef}
    {schema : Schema} {r : Report} (h : walk ctx (levels + 1) path v ref = .ok r)
    (hschema : ctx.schemas.resolve? ref = some schema) :
    ∃ D : Reports,
      (∀ b ∈ v.represented.branches schema,
        walk ctx levels (path ++ [b.step]) b.value b.ref = .ok (b.report D)) ∧
      (r.Clean ↔ (nodeAt path v schema).Exact ctx D schema) := by
  obtain ⟨D, hD, rfl⟩ := walk_inv h hschema
  exact ⟨D, hD, (Report.close_clean_iff _).trans Node.report_clean_iff⟩

end Conform
