import Conform.Proofs.Admittance
import Conform.Proofs.Digits
import Conform.Proofs.Keys

/-!
# Lookups — a list by its positions

A list is looked up by the decimal texts of its positions, and taken for a mapping under the same
texts (`Value.hasKey_iff`).  So a string that must be a key of the root is accepted just where the
root, read as a mapping by the schemas for mappings, has that key (`hasKey_agrees`).
-/

namespace Conform

/-! ## 1. Texts of positions -/

/-- The decimal text of a natural number: digits without a sign, none of them a superfluous zero. -/
structure Number.IsDecimalText (text : String) (n : Nat) : Prop where
  nonempty : text.toList ≠ []
  spelled : Spells 10 text.toList n
  canonical : ∀ d more, text.toList ≠ '0' :: d :: more

theorem Number.isDecimalText_toString (n : Nat) : IsDecimalText (toString n) n := by
  have htext : (toString n).toList = Nat.toDigits 10 n := Nat.toList_repr
  refine ⟨?_, ?_, fun d more => ?_⟩ <;> rw [htext]
  · exact Nat.toDigits_ne_nil
  · exact spells_toDigits (by decide) n
  · exact toDigits_ne_zero_cons

namespace Value

variable {v : Value} {items : List Value} {key : String}

/-- The entries of a list are its items in order, each under the text of its position. -/
theorem getElem?_entriesOfList (items : List Value) (i : Nat) :
    (entriesOfList items)[i]? = items[i]?.map fun item => (toString i, item) := by
  unfold entriesOfList
  rw [List.getElem?_map, List.getElem?_zipIdx, Option.map_map, Nat.zero_add]
  rfl

theorem length_entriesOfList (items : List Value) :
    (entriesOfList items).length = items.length := by
  unfold entriesOfList
  rw [List.length_map, List.length_zipIdx]

/-- The keys of a list are the decimal texts of its positions. -/
theorem contains_entriesOfList :
    (entriesOfList items).contains key = true ↔ ∃ i < items.length, toString i = key := by
  rw [Entries.contains_iff, keys_entriesOfList, List.mem_map]
  simp only [List.mem_range]

/-- A key of a list is read as a number and written again: it must be the text of a position. -/
theorem hasKey_list : (list items).hasKey key = true ↔ ∃ i < items.length, toString i = key := by
  unfold hasKey
  constructor
  · intro h
    dsimp only at h
    split at h
    · rename_i position _
      rw [Bool.and_eq_true, decide_eq_true_eq, beq_iff_eq] at h
      exact ⟨position, h⟩
    · cases h
  · rintro ⟨i, hi, rfl⟩
    have htext := Number.isDecimalText_toString i
    have hread := Number.radixNat?_of_spells (by decide) htext.nonempty htext.spelled
    dsimp only
    rw [hread, Bool.and_eq_true, decide_eq_true_eq, beq_iff_eq]
    exact ⟨hi, rfl⟩

/-- A value has just the keys of the mapping that it is taken for. -/
theorem hasKey_iff : v.hasKey key = true ↔
    ∃ entries : Entries Value, v.keyed? = some entries ∧ entries.contains key = true := by
  cases v with
  | map entries => exact ⟨fun h => ⟨entries, rfl, h⟩, fun ⟨_, hv, h⟩ => Option.some.inj hv ▸ h⟩
  | list items =>
    rw [hasKey_list, ← contains_entriesOfList]
    exact ⟨fun h => ⟨_, rfl, h⟩, fun ⟨_, hv, h⟩ => Option.some.inj hv ▸ h⟩
  | _ => exact ⟨nofun, fun ⟨_, hv, _⟩ => nomatch hv⟩

end Value

/-! ## 2. Lists under schemas for mappings -/

def Schema.isKeyed : Schema → Bool
  | .index .. | .args _ | .object _ | .enum .. => true
  | _ => false

/-- The sanitized value of a report, and what its errors tell beside the values at their nodes. -/
def Report.ruling (r : Report) : Option Value × List (SchemaRef × Path × Finding) :=
  (r.sanitized, r.errors.map fun d => (d.schema, d.path, d.finding))

theorem Report.ruling_close {r s : Report} (h : r.ruling = s.ruling) :
    r.close.ruling = s.close.ruling := by
  obtain ⟨hsanitized, herrors⟩ := Prod.mk.inj h
  have hok : r.isOk = s.isOk := by
    unfold isOk
    rw [← List.isEmpty_map, herrors, List.isEmpty_map]
  cases hs : s.isOk with
  | true => rw [close_of_isOk hs, close_of_isOk (hok.trans hs), h]
  | false =>
    rw [close_of_not_isOk hs, close_of_not_isOk (hok.trans hs)]
    exact congrArg (none, ·) herrors

section Keyed

variable {v w : Value} {schema : Schema}

/-- Schemas of mappings see the keyed view of a value and nothing else. -/
theorem branches_of_keyed (keyed : schema.isKeyed = true) (h : v.keyed? = w.keyed?) :
    v.branches schema = w.branches schema := by
  cases schema with
  | index | args | object | enum =>
    unfold Value.branches
    rw [h]
  | _ => cases keyed

namespace Node

variable {ctx : Context} {D : Reports} {ref : SchemaRef} {path : Path}

/-- Declared fields are judged by the keyed view. -/
theorem fieldsReport_of_keyed (h : v.keyed? = w.keyed?) (required : Bool) (fields : Fields) :
    (fieldsReport ⟨v, ref, path⟩ D required fields).ruling =
      (fieldsReport ⟨w, ref, path⟩ D required fields).ruling := by
  unfold fieldsReport
  dsimp only
  rw [h]
  cases w.keyed? with
  | none => rfl
  | some entries =>
    unfold Report.ruling
    dsimp only
    rw [List.map_append, List.map_append]
    cases required with
    | false => rfl
    | true =>
      unfold missingFields
      rw [if_pos rfl, if_pos rfl, List.map_map, List.map_map]
      rfl

/-- A mapping is judged by the keyed view. -/
theorem index_of_keyed (h : v.keyed? = w.keyed?) (elements : SchemaRef)
    (validKeys : Option Pattern) :
    (report ⟨v, ref, path⟩ ctx D (.index elements validKeys)).ruling =
      (report ⟨w, ref, path⟩ ctx D (.index elements validKeys)).ruling := by
  have hentry (e : String × Report) :
      (entryErrors ⟨v, ref, path⟩ validKeys e).map (fun d => (d.schema, d.path, d.finding)) =
        (entryErrors ⟨w, ref, path⟩ validKeys e).map fun d => (d.schema, d.path, d.finding) := by
    unfold entryErrors
    split <;> rfl
  unfold report
  dsimp only
  rw [h]
  cases w.keyed? with
  | none => rfl
  | some entries =>
    unfold Report.ruling
    dsimp only
    rw [List.map_flatMap, List.map_flatMap]
    simp only [hentry]

/-- An enum is judged by the keyed view. -/
theorem enum_of_keyed (h : v.keyed? = w.keyed?) (valueField metaField : String) (strict : Bool)
    (options : Entries Fields) :
    (report ⟨v, ref, path⟩ ctx D (.enum valueField metaField strict options)).ruling =
      (report ⟨w, ref, path⟩ ctx D (.enum valueField metaField strict options)).ruling := by
  unfold report
  dsimp only
  rw [h]
  cases w.keyed? with
  | none => rfl
  | some entries =>
    dsimp only
    cases entries.get? valueField with
    | none => rfl
    | some discriminant =>
      dsimp only
      cases selection? options discriminant <;> rfl

/-- A schema for mappings judges a value by the mapping that it is taken for. -/
theorem report_of_keyed (keyed : schema.isKeyed = true) (h : v.keyed? = w.keyed?) :
    (report ⟨v, ref, path⟩ ctx D schema).ruling = (report ⟨w, ref, path⟩ ctx D schema).ruling := by
  cases schema with
  | index elements validKeys => exact index_of_keyed h elements validKeys
  | args fields => exact fieldsReport_of_keyed h false fields
  | object fields => exact fieldsReport_of_keyed h true fields
  | enum valueField metaField strict options =>
    exact enum_of_keyed h valueField metaField strict options
  | _ => cases keyed

end Node

/-- Two values that are taken for the same mapping are judged alike, and too deep alike. -/
theorem walk_of_keyed {ctx : Context} {ref : SchemaRef} (levels : Nat) (path : Path)
    (hschema : ctx.schemas.resolve? ref = some schema) (keyed : schema.isKeyed = true)
    (h : v.represented.keyed? = w.represented.keyed?) :
    (walk ctx levels path v ref).map Report.ruling =
      (walk ctx levels path w ref).map Report.ruling := by
  cases levels with
  | zero => rfl
  | succ levels =>
    rw [walk_of_resolved hschema, walk_of_resolved hschema, branches_of_keyed keyed h]
    cases (w.represented.branches schema).mapM (follow (below ctx levels path)) with
    | error e => rfl
    | ok reports =>
      exact congrArg Except.ok (Report.ruling_close (Node.report_of_keyed keyed h))

end Keyed

/-! ## 3. Keys of the root -/

/-- The rule of a root key is one more rule beside the others. -/
theorem StringRules.meets_rootKey {rules : StringRules} {root : Value} {text : String}
    (rooted : rules.rootKey = true) : rules.Meets root text ↔
      StringRules.Meets { rules with rootKey := false } root text ∧ root.hasKey text = true := by
  constructor
  · rintro ⟨hlong, hshort, hkey, hregex⟩
    exact ⟨⟨hlong, hshort, nofun, hregex⟩, hkey rooted⟩
  · rintro ⟨⟨hlong, hshort, -, hregex⟩, hkey⟩
    exact ⟨hlong, hshort, fun _ => hkey, hregex⟩

/-- A string schema accepts what it can take for a text that meets its rules. -/
theorem validate_string {ctx : Context} {ref : SchemaRef} {rules : StringRules}
    (hschema : ctx.schemas.resolve? ref = some (.string rules)) (v : Value) :
    ∃ r, validate ctx v ref = .ok r ∧ (r.isOk = true ↔
      ∃ text coerced, coerceString? v.represented = some (text, coerced) ∧
        rules.Meets ctx.root text) := by
  -- A string has no children that could be too deep.
  obtain ⟨r, hr⟩ : ∃ r, walk ctx (ctx.options.depthLimit + 1) [] v ref = .ok r :=
    (walk_completes_iff hschema).mpr fun b hb => absurd hb List.not_mem_nil
  obtain ⟨D, -, hok⟩ := walk_isOk_iff hr hschema
  exact ⟨r, hr, hok⟩

/-- Looking up a key and viewing as a mapping agree.  A value has a key just if it can be taken for
a mapping, and that mapping contains the key.  The mapping of a list has an entry for each item, in
order and under the decimal text of its position, no key twice, so that it is the same when it is
inserted entry by entry; every schema for mappings judges the list like that mapping.  A string
that must be a key of a root which is a list is accepted, the other rules aside, just if the mapping
of the list contains it. -/
theorem hasKey_agrees :
    (∀ (v : Value) (key : String), v.hasKey key = true ↔
      ∃ entries : Entries Value, v.keyed? = some entries ∧ entries.contains key = true) ∧
    (∀ items : List Value, (Value.list items).keyed? = some (Value.entriesOfList items) ∧
      (Value.entriesOfList items).length = items.length ∧
      Entries.ofList (Value.entriesOfList items) = Value.entriesOfList items ∧
      ∀ (i : Nat) (item : Value), items[i]? = some item →
        ∃ text, (Value.entriesOfList items)[i]? = some (text, item) ∧
          Number.IsDecimalText text i) ∧
    ∀ (ctx : Context) (items : List Value) (ref : SchemaRef),
      (∀ schema, ctx.schemas.resolve? ref = some schema → schema.isKeyed = true →
        (validate ctx (.list items) ref).map Report.ruling =
          (validate ctx (.map (Value.entriesOfList items)) ref).map Report.ruling) ∧
      ∀ rules, ctx.schemas.resolve? ref = some (.string rules) → rules.rootKey = true →
        ctx.root = .list items → ∀ v, ∃ r, validate ctx v ref = .ok r ∧ (r.isOk = true ↔
          ∃ text coerced, coerceString? v.represented = some (text, coerced) ∧
            StringRules.Meets { rules with rootKey := false } ctx.root text ∧
            (Value.entriesOfList items).contains text = true) := by
  refine ⟨fun v key => Value.hasKey_iff, fun items => ⟨rfl, Value.length_entriesOfList items,
    Entries.ofList_eq_self (Value.keys_entriesOfList_nodup items), fun i item hitem => ?_⟩,
    fun ctx items ref => ⟨fun schema hschema keyed => ?_, fun rules hschema rooted hroot v => ?_⟩⟩
  · refine ⟨toString i, ?_, Number.isDecimalText_toString i⟩
    rw [Value.getElem?_entriesOfList, hitem, Option.map_some]
  · exact walk_of_keyed _ _ hschema keyed rfl
  · obtain ⟨r, hr, hok⟩ := validate_string hschema v
    refine ⟨r, hr, hok.trans ?_⟩
    simp only [StringRules.meets_rootKey rooted, hroot, Value.hasKey_list,
      Value.contains_entriesOfList]

/-- Of a list of three, `2` is a key and `02`, `+2` and `3` are none. -/
theorem hasKey_agrees_three :
    let ctx : Context := ⟨.list [.null, .null, .null], {}, {}⟩
    let ref : SchemaRef := .inline (.string { rootKey := true })
    (∃ r, validate ctx (.string "2") ref = .ok r ∧ r.isOk = true) ∧
    ∀ text ∈ ["02", "+2", "3"], ∃ r, validate ctx (.string text) ref = .ok r ∧ r.isOk = false := by
  intro ctx ref
  obtain ⟨-, hroot⟩ := hasKey_agrees.2.2 ctx [.null, .null, .null] ref
  have hstring := hroot { rootKey := true } rfl rfl rfl
  refine ⟨?_, fun text htext => ?_⟩
  · obtain ⟨r, hr, hok⟩ := hstring (.string "2")
    exact ⟨r, hr, hok.mpr ⟨"2", false, rfl, ⟨nofun, nofun, nofun, nofun⟩, by decide⟩⟩
  · obtain ⟨r, hr, hok⟩ := hstring (.string text)
    refine ⟨r, hr, Bool.eq_false_iff.mpr fun h => ?_⟩
    obtain ⟨found, coerced, hfound, -, hcontains⟩ := hok.mp h
    cases hfound
    have hnone : ∀ text ∈ ["02", "+2", "3"],
        (Value.entriesOfList [.null, .null, .null]).contains text = false := by decide
    exact Bool.false_ne_true ((hnone text htext).symm.trans hcontains)

end Conform
