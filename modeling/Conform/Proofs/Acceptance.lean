import Conform.Proofs.Descents
import Conform.Proofs.Reports

/-!
# Acceptance — what it takes for a node to have no errors

`Node.Accepts` lists, schema by schema, the only ways in which a node can be accepted, with the
value and the warnings that it then has.  Accepted walks are reasoned about by one induction over
these ways (`acceptance_induction`); no later file opens a handler again.
-/

namespace Conform

/-! ## 1. Rules of scalars -/

structure NumberRules.Meets (rules : NumberRules) (n : Number) : Prop where
  finite : n.isFinite = true
  integral : rules.integer = true → n.isIntegral = true
  notBelow : ∀ m, rules.min = some m → n.lt m = false
  notAbove : ∀ m, rules.max = some m → m.lt n = false

structure StringRules.Meets (rules : StringRules) (root : Value) (text : String) : Prop where
  notLonger : ∀ k, rules.maxLength = some k → text.length ≤ k
  notShorter : ∀ k, rules.minLength = some k → k ≤ text.length
  rootKey : rules.rootKey = true → root.hasKey text = true
  regex : ∀ p, rules.regex = some p → p.isMatch text = true

def StringRules.shown (rules : StringRules) (options : Options) (text : String) : String :=
  if rules.confidential && options.hidesConfidential then confidentialPlaceholder else text

theorem StringRules.shown_of_not_hides {options : Options} (h : options.hidesConfidential = false)
    (rules : StringRules) (text : String) : rules.shown options text = text := by
  rw [shown, h, Bool.and_false]
  rfl

/-- No text and no value is taken for an infinity or for NaN. -/
theorem coerceNumber?_isFinite {v : Value} {n : Number} (h : coerceNumber? v = some n) :
    n.isFinite = true := by
  unfold coerceNumber? at h
  split at h
  · rename_i m
    by_cases hm : m.isFinite = true
    · rw [if_pos hm] at h
      cases h
      exact hm
    · rw [if_neg hm] at h
      cases h
  · unfold Number.ofLiteral? at h
    exact (Option.filter_eq_some_iff.1 h).2
  · cases h

theorem eq_number_of_coerceNumber? {v : Value} {n : Number} (h : coerceNumber? v = some n)
    (hnumber : v.number?.isNone = false) : v = .number n := by
  cases v with
  | number given =>
    change (if given.isFinite then some given else none) = some n at h
    split at h
    · rw [Option.some.inj h]
    · cases h
  | _ => cases hnumber

theorem eq_string_of_coerceString? {v : Value} {text : String}
    (h : coerceString? v = some (text, false)) : v = .string text := by
  cases v <;> cases h
  rfl

theorem coerceNumber?_number {n : Number} (h : n.isFinite = true) :
    coerceNumber? (.number n) = some n := if_pos h

namespace Node

variable {node : Node} {ctx : Context} {D : Reports} {schema : Schema} {r : Report}

/-- A check reports no error just when there was none before and every condition holds. -/
theorem check_errors (conditions : List (Bool × Finding)) (r : Report) :
    (node.check conditions r).errors = [] ↔
      r.errors = [] ∧ ∀ c ∈ conditions, c.1 = false := by
  unfold check
  simp only [List.append_eq_nil_iff, List.map_eq_nil_iff, List.filter_eq_nil_iff,
    Bool.not_eq_true]

theorem check_of_met {conditions : List (Bool × Finding)} (r : Report)
    (h : ∀ c ∈ conditions, c.1 = false) : node.check conditions r = r := by
  have hnone : conditions.filter Prod.fst = [] := by
    simpa only [List.filter_eq_nil_iff, Bool.not_eq_true] using h
  unfold check
  rw [hnone]
  simp only [List.map_nil, List.append_nil]

def coercionIf (node : Node) (coerced : Bool) : List Diagnostic :=
  if coerced then [node.diagnose .typeCoercion] else []

theorem coercionIf_eq_nil {coerced : Bool} : node.coercionIf coerced = [] ↔ coerced = false := by
  cases coerced with
  | false => exact ⟨fun _ => rfl, fun _ => rfl⟩
  | true => exact iff_of_false (List.cons_ne_nil _ _) nofun

/-- Where fields are required, none is reported when all are there. -/
theorem missing_eq_nil {required : Bool} {fields : Fields} {entries : Entries Value} :
    (if required then node.missingFields fields entries else []) = [] ↔
      (required = true → ∀ key ∈ fields.keys, entries.contains key = true) := by
  cases required with
  | false => exact ⟨fun _ => nofun, fun _ => rfl⟩
  | true =>
    unfold missingFields
    simp only [if_true, List.map_eq_nil_iff, List.filter_eq_nil_iff, Bool.not_eq_true,
      Bool.not_eq_false', forall_const]

/-! ## 2. The ways of acceptance -/

def keptFields (D : Reports) (fields : Fields) (entries : Entries Value) : Entries Value :=
  entries.filterMap fun e =>
    (fields.get? e.1).map fun ref => (e.1, (D (.key e.1) e.2 ref).placeholder)

theorem keptFields_declared {fields : Fields} {entries : Entries Value} :
    ∀ e ∈ keptFields D fields entries, ∃ ref, fields.get? e.1 = some ref := by
  intro e he
  rcases List.mem_filterMap.mp he with ⟨given, -, hkept⟩
  rcases Option.map_eq_some_iff.1 hkept with ⟨ref, href, rfl⟩
  exact ⟨ref, href⟩

/-- A declared field that is there is kept. -/
theorem keptFields_contains {fields : Fields} {entries : Entries Value} {key : String}
    (declared : key ∈ fields.keys) (there : entries.contains key = true) :
    (keptFields D fields entries).contains key = true := by
  rw [Entries.contains_iff] at there ⊢
  rcases List.mem_map.mp there with ⟨e, he, rfl⟩
  rcases Option.isSome_iff_exists.1 (Entries.get?_isSome_iff.2 declared) with ⟨field, hfield⟩
  have hkept : (e.1, (D (.key e.1) e.2 field).placeholder) ∈ keptFields D fields entries :=
    List.mem_filterMap.mpr ⟨e, he, by rw [hfield, Option.map_some]⟩
  exact List.mem_map.mpr ⟨_, hkept, rfl⟩

/-- What is kept under a key is what became of the entry that the key looks up. -/
theorem get?_keptFields {fields : Fields} {entries : Entries Value} {key : String}
    {ref : SchemaRef} (declared : fields.get? key = some ref) :
    (keptFields D fields entries).get? key =
      (entries.get? key).map fun v => (D (.key key) v ref).placeholder := by
  unfold keptFields
  induction entries with
  | nil => rfl
  | cons e rest ih =>
    rcases e with ⟨name, v⟩
    rw [Entries.get?_cons]
    by_cases hkey : key = name
    · subst hkey
      rw [List.filterMap_cons_some (by rw [declared]; rfl), Entries.get?_cons, if_pos rfl,
        if_pos rfl, Option.map_some]
    · rw [if_neg hkey, ← ih]
      cases hname : fields.get? name with
      | none => rw [List.filterMap_cons_none (by rw [hname]; rfl)]
      | some other =>
        rw [List.filterMap_cons_some (by rw [hname]; rfl), Entries.get?_cons, if_neg hkey]

def entryWarnings (node : Node) (D : Reports) (fields : Fields) (entries : Entries Value) :
    List Diagnostic :=
  entries.flatMap fun e =>
    node.fieldWarnings (e.1, (fields.get? e.1).map (D (.key e.1) e.2))

/-- The ways in which a node is accepted under a schema, with its sanitized value and its warnings.
Of a container all children are accepted, of a choice the winner is. -/
inductive Accepts (node : Node) (ctx : Context) (D : Reports) :
    Schema → Value → List Diagnostic → Prop
  | freeform : Accepts node ctx D .freeform node.value []
  | boolean {b : Bool} (value : node.value = .bool b) :
    Accepts node ctx D .boolean (.bool b) []
  | booleanName {b : Bool} (value : node.value = .string (if b then "true" else "false")) :
    Accepts node ctx D .boolean (.bool b) (node.coercionIf true)
  | number {rules : NumberRules} {n : Number} (value : coerceNumber? node.value = some n)
    (meets : rules.Meets n) :
    Accepts node ctx D (.number rules) (.number n) (node.coercionIf node.value.number?.isNone)
  | string {rules : StringRules} {text : String} {coerced : Bool}
    (value : coerceString? node.value = some (text, coerced))
    (meets : rules.Meets ctx.root text) :
    Accepts node ctx D (.string rules) (.string (rules.shown ctx.options text))
      (node.coercionIf coerced)
  | regex {p : Pattern} (value : node.value = .regex p) :
    Accepts node ctx D .regex (renderPattern ctx.options p) []
  | regexLiteral {literal : String} {p : Pattern} (value : node.value = .string literal)
    (compiles : Pattern.ofLiteral literal = .ok p) :
    Accepts node ctx D .regex (renderPattern ctx.options p) []
  | list {elements : SchemaRef} {items : List Value} (value : node.value = .list items)
    (children : ∀ b ∈ node.value.branches (.list elements), (b.report D).isOk = true) :
    Accepts node ctx D (.list elements)
      (.list (items.zipIdx.map fun c => (D (.index c.2) c.1 elements).placeholder))
      (items.zipIdx.flatMap fun c => (D (.index c.2) c.1 elements).warnings)
  | index {elements : SchemaRef} {validKeys : Option Pattern} {entries : Entries Value}
    (value : node.value.keyed? = some entries)
    (keys : ∀ e ∈ entries, ∀ p, validKeys = some p → p.isMatch e.1 = true)
    (children : ∀ b ∈ node.value.branches (.index elements validKeys),
      (b.report D).isOk = true) :
    Accepts node ctx D (.index elements validKeys)
      (.map (entries.map fun e => (e.1, (D (.key e.1) e.2 elements).placeholder)))
      (node.listWarnings ++ entries.flatMap fun e => (D (.key e.1) e.2 elements).warnings)
  | args {fields : Fields} {entries : Entries Value} (value : node.value.keyed? = some entries)
    (children : ∀ b ∈ node.value.branches (.args fields), (b.report D).isOk = true) :
    Accepts node ctx D (.args fields) (.map (keptFields D fields entries))
      (node.entryWarnings D fields entries)
  | object {fields : Fields} {entries : Entries Value} (value : node.value.keyed? = some entries)
    (present : ∀ key ∈ fields.keys, entries.contains key = true)
    (children : ∀ b ∈ node.value.branches (.object fields), (b.report D).isOk = true) :
    Accepts node ctx D (.object fields) (.map (keptFields D fields entries))
      (node.entryWarnings D fields entries)
  | enum {valueField metaField : String} {strict : Bool} {options : Entries Fields}
    {entries : Entries Value} {name : String} {fields : Fields}
    (value : node.value.keyed? = some entries)
    (discriminant : entries.get? valueField = some (.string name))
    (option : options.get? name = some fields) (distinct : valueField ≠ metaField)
    (children : ∀ b ∈ node.value.branches (.enum valueField metaField strict options),
      (b.report D).isOk = true) :
    Accepts node ctx D (.enum valueField metaField strict options)
      (.map [(valueField, .string name),
        (metaField, (D (.key metaField) (payloadOf entries metaField)
          (payloadRef strict fields)).placeholder)])
      (D (.key metaField) (payloadOf entries metaField) (payloadRef strict fields)).warnings
  | multi {allowed : List SchemaRef} {c : SchemaRef × Nat} (candidate : c ∈ allowed.zipIdx)
    (accepted : (D (candidateKey c.2) node.value c.1).isOk = true)
    (best : Report.best? (allowed.zipIdx.map fun c => D (candidateKey c.2) node.value c.1) =
      some (D (candidateKey c.2) node.value c.1)) :
    Accepts node ctx D (.multi allowed) (D (candidateKey c.2) node.value c.1).placeholder
      (D (candidateKey c.2) node.value c.1).warnings

def Accepted (node : Node) (ctx : Context) (D : Reports) (schema : Schema) (r : Report) : Prop :=
  ∃ s ws, r = ⟨some s, [], ws⟩ ∧ node.Accepts ctx D schema s ws

theorem boolean_accepted (h : node.boolean.isOk = true) :
    node.Accepted ctx D .boolean node.boolean := by
  unfold boolean at h ⊢
  split at h
  · rename_i b hv
    exact ⟨_, _, rfl, .boolean hv⟩
  · rename_i hv
    exact ⟨_, _, rfl, .booleanName hv⟩
  · rename_i hv
    exact ⟨_, _, rfl, .booleanName hv⟩
  · cases h

/-- A number within the rules is taken, with a warning if it was no number before. -/
theorem number_of_meets {rules : NumberRules} {n : Number}
    (hn : coerceNumber? node.value = some n) (meets : rules.Meets n) :
    node.number rules = ⟨some (.number n), [], node.coercionIf node.value.number?.isNone⟩ := by
  have hw : (if node.value.number?.isSome then [] else [node.diagnose .typeCoercion]) =
      node.coercionIf node.value.number?.isNone := by
    cases node.value.number? <;> rfl
  unfold number
  rw [hn, hw]
  apply check_of_met
  have hi := meets.integral
  simp only [List.forall_mem_cons, Option.any_eq_false, Bool.and_eq_false_imp, Bool.not_eq_false']
  exact ⟨hi, meets.notBelow, meets.notAbove, fun _ hc => absurd hc List.not_mem_nil⟩

theorem number_accepted {rules : NumberRules} (h : (node.number rules).isOk = true) :
    node.Accepted ctx D (.number rules) (node.number rules) := by
  rw [Report.isOk_iff] at h
  cases hn : coerceNumber? node.value with
  | none =>
    unfold number at h
    rw [hn] at h
    cases h
  | some n =>
    have meets : rules.Meets n := by
      unfold number at h
      rw [hn, check_errors] at h
      simp only [List.forall_mem_cons, Option.any_eq_false, Bool.and_eq_false_imp,
        Bool.not_eq_false'] at h
      rcases h with ⟨-, hi, hmin, hmax, -⟩
      exact ⟨coerceNumber?_isFinite hn, hi, hmin, hmax⟩
    exact ⟨_, _, number_of_meets hn meets, .number hn meets⟩

/-- A text within the rules is taken and shown, with a warning if it was no string before. -/
theorem string_of_meets {rules : StringRules} {text : String} {coerced : Bool}
    (hs : coerceString? node.value = some (text, coerced)) (meets : rules.Meets ctx.root text) :
    node.string ctx rules =
      ⟨some (.string (rules.shown ctx.options text)), [], node.coercionIf coerced⟩ := by
  unfold string
  rw [hs]
  dsimp only
  rw [check_of_met]
  · cases coerced <;> rfl
  · have hkey := meets.rootKey
    have hregex := meets.regex
    have hlong := meets.notLonger
    have hshort := meets.notShorter
    simp only [List.forall_mem_cons, Option.any_eq_false, Bool.and_eq_false_imp,
      Bool.not_eq_false', decide_eq_false_iff_not, Nat.not_lt]
    exact ⟨hlong, hshort, hkey, hregex, fun _ hc => absurd hc List.not_mem_nil⟩

theorem string_accepted {rules : StringRules} (h : (node.string ctx rules).isOk = true) :
    node.Accepted ctx D (.string rules) (node.string ctx rules) := by
  rw [Report.isOk_iff] at h
  cases hs : coerceString? node.value with
  | none =>
    unfold string at h
    rw [hs] at h
    cases h
  | some found =>
    rcases found with ⟨text, coerced⟩
    have meets : rules.Meets ctx.root text := by
      unfold string at h
      rw [hs] at h
      dsimp only at h
      rw [check_errors] at h
      simp only [List.forall_mem_cons, Option.any_eq_false, Bool.and_eq_false_imp,
        Bool.not_eq_false', decide_eq_false_iff_not, Nat.not_lt] at h
      rcases h with ⟨-, hlong, hshort, hkey, hregex, -⟩
      exact ⟨hlong, hshort, hkey, hregex⟩
    exact ⟨_, _, string_of_meets hs meets, .string hs meets⟩

theorem regex_accepted (h : (node.regex ctx.options).isOk = true) :
    node.Accepted ctx D .regex (node.regex ctx.options) := by
  unfold regex at h ⊢
  split at h
  · rename_i p hv
    exact ⟨_, _, rfl, .regex hv⟩
  · rename_i literal hv
    split at h
    · rename_i p hp
      exact ⟨_, _, rfl, .regexLiteral hv hp⟩
    · cases h
  · cases h

theorem report_list {elements : SchemaRef} {items : List Value} (hv : node.value = .list items) :
    node.report ctx D (.list elements) =
      { sanitized :=
          some (.list (items.zipIdx.map fun c => (D (.index c.2) c.1 elements).placeholder))
        errors := items.zipIdx.flatMap fun c => (D (.index c.2) c.1 elements).errors
        warnings := items.zipIdx.flatMap fun c => (D (.index c.2) c.1 elements).warnings } := by
  unfold report
  rw [hv]
  simp only [List.map_map, List.flatMap_map, Function.comp_def]

theorem list_accepted {elements : SchemaRef}
    (h : (node.report ctx D (.list elements)).isOk = true) :
    node.Accepted ctx D (.list elements) (node.report ctx D (.list elements)) := by
  cases hv : node.value with
  | list items =>
    rw [report_list hv, Report.isOk_iff, List.flatMap_eq_nil_iff] at h
    have children : ∀ b ∈ node.value.branches (.list elements), (b.report D).isOk = true := by
      rw [hv]
      intro b hb
      rcases List.mem_map.mp hb with ⟨c, hc, rfl⟩
      exact (Report.isOk_iff _).mpr (h c hc)
    refine ⟨_, _, ?_, .list hv children⟩
    rw [report_list hv, List.flatMap_eq_nil_iff.2 h]
  | _ =>
    unfold report at h
    rw [hv] at h
    cases h

theorem report_index {elements : SchemaRef} {validKeys : Option Pattern} {entries : Entries Value}
    (hv : node.value.keyed? = some entries) :
    node.report ctx D (.index elements validKeys) =
      { sanitized :=
          some (.map (entries.map fun e => (e.1, (D (.key e.1) e.2 elements).placeholder)))
        errors := entries.flatMap fun e =>
          node.entryErrors validKeys (e.1, D (.key e.1) e.2 elements)
        warnings := node.listWarnings ++
          entries.flatMap fun e => (D (.key e.1) e.2 elements).warnings } := by
  unfold report
  rw [hv]
  simp only [List.map_map, List.flatMap_map, Function.comp_def]

theorem listWarnings_map {entries : Entries Value} (h : node.value = .map entries) :
    node.listWarnings = [] := by
  unfold listWarnings
  rw [h]

theorem listWarnings_nil (h : node.value = .list []) : node.listWarnings = [] := by
  unfold listWarnings
  rw [h]

theorem listWarnings_cons {item : Value} {rest : List Value}
    (h : node.value = .list (item :: rest)) : node.listWarnings = node.coercionIf true := by
  unfold listWarnings
  rw [h]
  rfl

/-- An entry has no errors when its key may be there and its value has none. -/
theorem entryErrors_eq_nil {validKeys : Option Pattern} {key : String} :
    node.entryErrors validKeys (key, r) = [] ↔
      (∀ p, validKeys = some p → p.isMatch key = true) ∧ r.errors = [] := by
  have hkey : (validKeys.any fun p => !p.isMatch key) = false ↔
      ∀ p, validKeys = some p → p.isMatch key = true := by
    simp only [Option.any_eq_false, Bool.not_eq_false']
  unfold entryErrors
  by_cases h : (validKeys.any fun p => !p.isMatch key) = true
  · rw [if_pos h]
    have hnot : ¬∀ p, validKeys = some p → p.isMatch key = true := by
      rw [← hkey, h]
      decide
    exact ⟨fun hnil => absurd hnil (List.cons_ne_nil _ _), fun hboth => absurd hboth.1 hnot⟩
  · rw [if_neg h]
    rw [Bool.not_eq_true, hkey] at h
    exact ⟨fun hnil => ⟨h, hnil⟩, fun hboth => hboth.2⟩

theorem index_accepted {elements : SchemaRef} {validKeys : Option Pattern}
    (h : (node.report ctx D (.index elements validKeys)).isOk = true) :
    node.Accepted ctx D (.index elements validKeys)
      (node.report ctx D (.index elements validKeys)) := by
  cases hv : node.value.keyed? with
  | none =>
    unfold report at h
    rw [hv] at h
    cases h
  | some entries =>
    rw [report_index hv, Report.isOk_iff, List.flatMap_eq_nil_iff] at h
    have children :
        ∀ b ∈ node.value.branches (.index elements validKeys), (b.report D).isOk = true := by
      rw [branches_index hv]
      intro b hb
      rcases List.mem_map.mp hb with ⟨e, he, rfl⟩
      exact (Report.isOk_iff _).mpr (entryErrors_eq_nil.mp (h e he)).2
    refine ⟨_, _, ?_, .index hv (fun e he => (entryErrors_eq_nil.mp (h e he)).1) children⟩
    rw [report_index hv, List.flatMap_eq_nil_iff.2 h]

/-- The report of a mapping with declared fields, entry by entry. -/
theorem fieldsReport_eq {entries : Entries Value} (hv : node.value.keyed? = some entries)
    (required : Bool) (fields : Fields) :
    node.fieldsReport D required fields =
      { sanitized := some (.map (keptFields D fields entries))
        errors := ((node.value.branches (.args fields)).flatMap fun b => (b.report D).errors) ++
          if required then node.missingFields fields entries else []
        warnings := node.entryWarnings D fields entries } := by
  have hkept : (entries.map fun e => (e.1, (fields.get? e.1).map (D (.key e.1) e.2))).filterMap
      (fun c => c.2.map fun r => (c.1, r.placeholder)) = keptFields D fields entries := by
    unfold keptFields
    rw [List.filterMap_map]
    congr 1
    funext e
    dsimp only [Function.comp]
    cases fields.get? e.1 <;> rfl
  have herrors : (entries.map fun e => (e.1, (fields.get? e.1).map (D (.key e.1) e.2))).flatMap
      (fun c => (c.2.map Report.errors).getD []) =
        (node.value.branches (.args fields)).flatMap fun b => (b.report D).errors := by
    rw [branches_args hv]
    -- The branches leave out what has no field, so the two lists are compared entry by entry.
    clear hkept hv
    induction entries with
    | nil => rfl
    | cons e rest ih =>
      rw [List.map_cons, List.flatMap_cons, ih, List.filterMap_cons]
      cases fields.get? e.1 <;> rfl
  unfold fieldsReport entryWarnings
  rw [hv]
  dsimp only
  rw [hkept, herrors, List.flatMap_map]

/-- A mapping with declared fields has no errors only if all that is required is there and no
declared child has errors. -/
theorem fieldsReport_isOk {required : Bool} {fields : Fields}
    (h : (node.fieldsReport D required fields).isOk = true) :
    ∃ entries, node.value.keyed? = some entries ∧
      (required = true → ∀ key ∈ fields.keys, entries.contains key = true) ∧
      (∀ b ∈ node.value.branches (.args fields), (b.report D).isOk = true) ∧
      node.fieldsReport D required fields =
        ⟨some (.map (keptFields D fields entries)), [], node.entryWarnings D fields entries⟩ := by
  cases hv : node.value.keyed? with
  | none =>
    unfold fieldsReport at h
    rw [hv] at h
    cases h
  | some entries =>
    have hreport := node.fieldsReport_eq (D := D) hv required fields
    rw [hreport, Report.isOk_iff, List.append_eq_nil_iff] at h
    rcases h with ⟨hnone, hmissing⟩
    have hchildren := List.flatMap_eq_nil_iff.1 hnone
    refine ⟨entries, rfl, missing_eq_nil.mp hmissing,
      fun b hb => (Report.isOk_iff _).mpr (hchildren b hb), ?_⟩
    rw [hreport, hnone, hmissing, List.append_nil]

/-- An enum has no errors only where its discriminant names an option. -/
theorem enum_selects {valueField metaField : String} {strict : Bool} {options : Entries Fields}
    (h : (node.report ctx D (.enum valueField metaField strict options)).isOk = true) :
    ∃ entries name fields, node.value.keyed? = some entries ∧
      entries.get? valueField = some (.string name) ∧ options.get? name = some fields := by
  rw [report] at h
  split at h
  · cases h
  · rename_i entries hv
    split at h
    · cases h
    · rename_i discriminant hd
      split at h
      · cases h
      · rename_i name fields hs
        rcases selection?_eq_some.mp hs with ⟨rfl, hfields⟩
        exact ⟨entries, name, fields, hv, hd, hfields⟩

/-- An enum in which an option is selected has the diagnostics of its payload. -/
theorem report_selected {valueField metaField name : String} {options : Entries Fields}
    {entries : Entries Value} {fields : Fields} (hv : node.value.keyed? = some entries)
    (hname : entries.get? valueField = some (.string name))
    (hfields : options.get? name = some fields) (strict : Bool) :
    node.report ctx D (.enum valueField metaField strict options) =
      { D (.key metaField) (payloadOf entries metaField) (payloadRef strict fields) with
        sanitized := some (.map (Entries.ofList [(valueField, .string name),
          (metaField, (D (.key metaField) (payloadOf entries metaField)
            (payloadRef strict fields)).placeholder)])) } := by
  have hs : selection? options (.string name) = some (name, fields) :=
    selection?_eq_some.mpr ⟨rfl, hfields⟩
  unfold report
  rw [hv]
  dsimp only
  rw [hname]
  dsimp only
  rw [hs]

theorem report_enum {valueField metaField name : String} {strict : Bool}
    {options : Entries Fields} {entries : Entries Value} {fields : Fields}
    (hv : node.value.keyed? = some entries)
    (hname : entries.get? valueField = some (.string name))
    (hfields : options.get? name = some fields) (distinct : valueField ≠ metaField) :
    node.report ctx D (.enum valueField metaField strict options) =
      { D (.key metaField) (payloadOf entries metaField) (payloadRef strict fields) with
        sanitized := some (.map [(valueField, .string name),
          (metaField, (D (.key metaField) (payloadOf entries metaField)
            (payloadRef strict fields)).placeholder)]) } := by
  rw [report_selected hv hname hfields, Entries.ofList_pair distinct]

/-- The payload of an enum is never accepted where a string is in its place, so the fields of an
accepted enum are distinct. -/
theorem enum_accepted {valueField metaField : String} {strict : Bool} {options : Entries Fields}
    (strings : ∀ b ∈ node.value.branches (.enum valueField metaField strict options),
      ∀ text fields, b.value = .string text → b.ref = payloadRef strict fields →
        (b.report D).isOk = false)
    (h : (node.report ctx D (.enum valueField metaField strict options)).isOk = true) :
    node.Accepted ctx D (.enum valueField metaField strict options)
      (node.report ctx D (.enum valueField metaField strict options)) := by
  rcases enum_selects h with ⟨entries, name, fields, hv, hname, hfields⟩
  have hbranches : node.value.branches (.enum valueField metaField strict options) =
      [⟨.key metaField, payloadOf entries metaField, payloadRef strict fields⟩] :=
    branches_enum hv hname hfields
  have herrors : (D (.key metaField) (payloadOf entries metaField)
      (payloadRef strict fields)).isOk = true := by
    rw [report_selected hv hname hfields] at h
    exact h
  have distinct : valueField ≠ metaField := by
    -- With one field for both, the payload would be the discriminant, which is a string.
    intro hsame
    have hpayload : payloadOf entries metaField = .string name := by
      unfold payloadOf
      rw [← hsame, hname, Option.getD_some]
    have hmem := payload_mem_branches hv hname hfields metaField strict
    have hstring := strings _ hmem name fields hpayload rfl
    change (D _ _ _).isOk = false at hstring
    rw [hstring] at herrors
    cases herrors
  have children : ∀ b ∈ node.value.branches (.enum valueField metaField strict options),
      (b.report D).isOk = true := by
    rw [hbranches]
    intro b hb
    rw [List.mem_singleton.mp hb]
    exact herrors
  refine ⟨_, _, ?_, .enum hv hname hfields distinct children⟩
  rw [report_enum hv hname hfields distinct]
  dsimp only
  rw [(Report.isOk_iff _).mp herrors]

theorem choice_of_winner {candidates : List Report} {winner : Report}
    (h : Report.winner? candidates = some winner) : node.choice candidates = winner := by
  unfold choice
  rw [Report.best?_filter_isOk, h]

/-- An accepted choice is the winner among its candidates. -/
theorem choice_wins {candidates : List Report} (h : (node.choice candidates).isOk = true) :
    Report.winner? candidates = some (node.choice candidates) := by
  cases hwinner : Report.winner? candidates with
  | none =>
    unfold choice at h
    rw [Report.best?_filter_isOk, hwinner] at h
    cases h
  | some winner => rw [node.choice_of_winner hwinner]

/-- A choice without errors gives the report of one of its candidates. -/
theorem choice_isOk {candidates : List Report} (h : (node.choice candidates).isOk = true) :
    node.choice candidates ∈ candidates := Report.winner?_mem (node.choice_wins h)

/-- The winner is the best of all candidates. -/
theorem choice_best {candidates : List Report} (h : (node.choice candidates).isOk = true) :
    Report.best? candidates = some (node.choice candidates) := by
  have hwins := node.choice_wins h
  rw [← Report.best?_filter_isOk] at hwins
  exact (Option.filter_eq_some_iff.1 hwins).1

theorem multi_accepted {allowed : List SchemaRef}
    (closed : ∀ b ∈ node.value.branches (.multi allowed),
      (b.report D).isOk = true → (b.report D).sanitized.isSome = true)
    (h : (node.report ctx D (.multi allowed)).isOk = true) :
    node.Accepted ctx D (.multi allowed) (node.report ctx D (.multi allowed)) := by
  rcases List.mem_map.mp (node.choice_isOk h) with ⟨c, hc, hwinner⟩
  have hbest := node.choice_best h
  rw [← hwinner] at hbest
  change D (candidateKey c.2) node.value c.1 = node.report ctx D (.multi allowed) at hwinner
  -- The winner is given back as it is, so its own sanitized value has to be there.
  rw [← hwinner] at h ⊢
  refine ⟨_, _, ?_, .multi hc h hbest⟩
  have hsome := closed ⟨candidateKey c.2, node.value, c.1⟩ (List.mem_map_of_mem hc) h
  rcases Option.isSome_iff_exists.1 hsome with ⟨s, hs⟩
  change (D (candidateKey c.2) node.value c.1).sanitized = some s at hs
  have herrors := (Report.isOk_iff _).mp h
  have hplaceholder : (D (candidateKey c.2) node.value c.1).placeholder = s := by
    unfold Report.placeholder
    rw [hs, Option.getD_some]
  rw [hplaceholder, ← hs, ← herrors]

/-- A report without errors comes about in one of the ways of acceptance. -/
theorem accepted_of_isOk
    (closed : ∀ b ∈ node.value.branches schema,
      (b.report D).isOk = true → (b.report D).sanitized.isSome = true)
    (strings : ∀ b ∈ node.value.branches schema, ∀ text strict fields,
      b.value = .string text → b.ref = payloadRef strict fields → (b.report D).isOk = false)
    (h : (node.report ctx D schema).isOk = true) :
    node.Accepted ctx D schema (node.report ctx D schema) := by
  cases schema with
  | freeform => exact ⟨_, _, rfl, .freeform⟩
  | boolean => exact boolean_accepted h
  | regex => exact regex_accepted h
  | number rules => exact number_accepted h
  | string rules => exact string_accepted h
  | list elements => exact list_accepted h
  | index elements validKeys => exact index_accepted h
  | args fields =>
    rcases fieldsReport_isOk h with ⟨entries, hv, -, children, hreport⟩
    exact ⟨_, _, hreport, .args hv children⟩
  | object fields =>
    rcases fieldsReport_isOk h with ⟨entries, hv, present, children, hreport⟩
    exact ⟨_, _, hreport, .object hv (present rfl) children⟩
  | enum valueField metaField strict options =>
    exact enum_accepted (fun b hb text fields => strings b hb text strict fields) h
  | multi allowed => exact multi_accepted closed h

end Node

/-! ## 3. Accepted walks -/

variable {ctx : Context} {levels : Nat} {path : Path} {v : Value} {ref : SchemaRef}
  {schema : Schema} {r : Report}

/-- No string is a mapping with declared fields. -/
theorem payload_rejects_string {strict : Bool} {fields : Fields} {text : String}
    (h : ctx.schemas.resolve? (payloadRef strict fields) = some schema) (D : Reports) :
    ((nodeAt path (.string text) schema).report ctx D schema).isOk = false := by
  change some (if strict then Schema.object fields else .args fields) = some schema at h
  cases strict <;> cases h <;> rfl

/-- A completed walk has a sanitized value exactly when it has no errors. -/
theorem walk_sanitized :
    ∀ levels path v ref r, walk ctx levels path v ref = .ok r → r.sanitized.isSome = r.isOk := by
  -- The discriminant of an enum could be its own payload, were it not for the rejection of strings.
  suffices hwalk : ∀ levels path v ref r, walk ctx levels path v ref = .ok r →
      r.sanitized.isSome = r.isOk ∧ ∀ text strict fields, v = .string text →
        ref = payloadRef strict fields → r.isOk = false from
    fun levels path v ref r h => (hwalk levels path v ref r h).1
  refine walk_induction (fun _ _ _ _ _ => ⟨rfl, fun _ _ _ _ _ => rfl⟩) ?_
  intro levels path v ref schema D hschema ih
  constructor
  · cases hok : ((nodeAt path v schema).report ctx D schema).isOk with
    | false =>
      rw [Report.close_isOk, hok, Report.close_of_not_isOk hok]
      rfl
    | true =>
      have closed : ∀ b ∈ v.represented.branches schema,
          (b.report D).isOk = true → (b.report D).sanitized.isSome = true := by
        intro b hb hb'
        rw [(ih b hb).1, hb']
      rcases Node.accepted_of_isOk closed (fun b hb => (ih b hb).2) hok with ⟨s, ws, hreport, -⟩
      rw [Report.close_of_isOk hok, hok, hreport]
      rfl
  · rintro text strict fields rfl rfl
    rw [Report.close_isOk]
    exact payload_rejects_string hschema D

/-- A walk without errors has a sanitized value, which its parent takes over. -/
theorem walk_eq_of_isOk (h : walk ctx levels path v ref = .ok r) (hok : r.isOk = true) :
    r = ⟨some r.placeholder, [], r.warnings⟩ := by
  have hsome := walk_sanitized levels path v ref r h
  rw [hok] at hsome
  rcases Option.isSome_iff_exists.1 hsome with ⟨s, hs⟩
  have herrors := (Report.isOk_iff r).mp hok
  rcases r with ⟨sanitized, errors, warnings⟩
  cases hs
  cases herrors
  rfl

/-- No payload of an enum is a string. -/
theorem walk_rejects_string_payload {strict : Bool} {fields : Fields} {text : String}
    (h : walk ctx levels path (.string text) (payloadRef strict fields) = .ok r) :
    r.isOk = false := by
  cases levels with
  | zero => cases h
  | succ levels =>
    have hschema : ctx.schemas.resolve? (payloadRef strict fields) =
      some (if strict then Schema.object fields else .args fields) := rfl
    rcases walk_inv h hschema with ⟨D, -, rfl⟩
    rw [Report.close_isOk]
    exact payload_rejects_string hschema D

/-- An accepted walk has accepted its first node, of whose branches it has completed all. -/
theorem walk_accepts (h : walk ctx (levels + 1) path v ref = .ok r) (hok : r.isOk = true) :
    ∃ schema D, ctx.schemas.resolve? ref = some schema ∧
      (∀ b ∈ v.represented.branches schema,
        walk ctx levels (path ++ [b.step]) b.value b.ref = .ok (b.report D)) ∧
      (nodeAt path v schema).Accepts ctx D schema r.placeholder r.warnings := by
  cases hschema : ctx.schemas.resolve? ref with
  | none =>
    rw [walk_of_unresolved hschema] at h
    cases h
    cases hok
  | some schema =>
    rcases walk_inv h hschema with ⟨D, hD, rfl⟩
    rw [Report.close_isOk] at hok
    rw [Report.close_of_isOk hok]
    have closed : ∀ b ∈ v.represented.branches schema,
        (b.report D).isOk = true → (b.report D).sanitized.isSome = true := by
      intro b hb hb'
      rw [walk_sanitized _ _ _ _ _ (hD b hb), hb']
    -- The sanitized value of an accepted enum has two fields only if they are distinct.
    have strings : ∀ b ∈ v.represented.branches schema, ∀ text strict fields,
        b.value = .string text → b.ref = payloadRef strict fields →
          (b.report D).isOk = false := by
      intro b hb text strict fields hvalue href
      have hb' := hD b hb
      rw [hvalue, href] at hb'
      exact walk_rejects_string_payload hb'
    rcases Node.accepted_of_isOk closed strings hok with ⟨s, ws, hreport, haccepts⟩
    refine ⟨schema, D, rfl, hD, ?_⟩
    rw [hreport]
    exact haccepts

/-- The report of an accepted node is what its handler makes of the completed walks below it. -/
theorem report_of_walks {D : Reports} (h : walk ctx (levels + 1) path v ref = .ok r)
    (hok : r.isOk = true) (hschema : ctx.schemas.resolve? ref = some schema)
    (hD : ∀ b ∈ v.represented.branches schema,
      walk ctx levels (path ++ [b.step]) b.value b.ref = .ok (b.report D)) :
    (nodeAt path v schema).report ctx D schema = r := by
  obtain rfl := Except.ok.inj (h.symm.trans (walk_of_below hschema hD))
  rw [Report.close_isOk] at hok
  rw [Report.close_of_isOk hok]

/-- What holds of an accepted node when it holds of its accepted branches holds of every accepted
walk. -/
theorem acceptance_induction
    {P : Nat → Path → Value → SchemaRef → Value → List Diagnostic → Prop}
    (step : ∀ levels path v ref schema D s ws, ctx.schemas.resolve? ref = some schema →
      (nodeAt path v schema).Accepts ctx D schema s ws →
      (∀ b ∈ v.represented.branches schema,
        walk ctx levels (path ++ [b.step]) b.value b.ref = .ok (b.report D)) →
      (∀ b ∈ v.represented.branches schema, (b.report D).isOk = true →
        P levels (path ++ [b.step]) b.value b.ref (b.report D).placeholder
          (b.report D).warnings) →
      P (levels + 1) path v ref s ws) :
    ∀ levels path v ref r, walk ctx levels path v ref = .ok r → r.isOk = true →
      P levels path v ref r.placeholder r.warnings := by
  -- Which children are accepted is not said by `walk_induction`, so the levels come in again.
  intro levels
  induction levels with
  | zero => intro path v ref r h; cases h
  | succ levels ih =>
    intro path v ref r h hok
    rcases walk_accepts h hok with ⟨schema, D, hschema, hD, haccepts⟩
    exact step levels path v ref schema D _ _ hschema haccepts hD fun b hb hb' =>
      ih _ _ _ _ (hD b hb) hb'

end Conform
