import Conform.Proofs.Findings
import Conform.Proofs.Keys

/-!
# Addresses — where diagnostics point

The path of a diagnostic is a list of steps that can be taken again from the root: through the
value, and through the schemas in step with it.  They lead to the very value and schema that the
diagnostic is about (`validate_addresses`), though a key of a mapping can look like the step to a
candidate of a choice.
-/

namespace Conform

/-! ## 1. Taking a path again -/

def Value.child? (v : Value) : Schema → PathSegment → Option (Value × SchemaRef)
  | .list elements, .index position => (v.list?.bind (·[position]?)).map (·, elements)
  | .index elements _, .key name => (v.keyed?.bind (Entries.get? · name)).map (·, elements)
  | .args fields, .key name | .object fields, .key name =>
    (v.keyed?.bind (Entries.get? · name)).bind fun child =>
      (Entries.get? fields name).map (child, ·)
  | .enum valueField metaField strict options, .key name =>
    -- The payload may be absent: then the step leads to the empty mapping.
    if name = metaField then
      v.keyed?.bind fun entries =>
        ((entries.get? valueField).bind (selection? options)).map fun option =>
          (payloadOf entries metaField, payloadRef strict option.2)
    else none
  | .multi allowed, step =>
    (allowed.zipIdx.find? fun c => candidateKey c.2 = step).map fun c => (v, c.1)
  | _, _ => none

/-- The schema that a reference means, in place; an unknown name stays a name. -/
def SchemaSet.target (set : SchemaSet) (ref : SchemaRef) : SchemaRef :=
  match set.resolve? ref with
  | some schema => .inline schema
  | none => ref

/-- Takes the steps of a path from a value and a reference: an external value gives way to its
representation, and the reference to what it means, at every place on the way. -/
def SchemaSet.replay? (set : SchemaSet) : Path → Value → SchemaRef → Option (Value × SchemaRef)
  | [], v, ref => some (v.represented, set.target ref)
  | step :: rest, v, ref =>
    (set.resolve? ref).bind fun schema =>
      (v.represented.child? schema step).bind fun child => set.replay? rest child.1 child.2

/-! ## 2. Steps to the children -/

/-- The steps to two candidates are two steps. -/
theorem candidateKey_injective : Function.Injective candidateKey := by
  intro m n h
  unfold candidateKey at h
  rw [PathSegment.key.injEq, String.append_left_inj, String.append_right_inj] at h
  exact Value.positionText_injective h

/-- The step to a candidate tells which candidate it is. -/
theorem find?_candidate {allowed : List SchemaRef} {c : SchemaRef × Nat}
    (hc : c ∈ allowed.zipIdx) :
    (allowed.zipIdx.find? fun c' => candidateKey c'.2 = candidateKey c.2) = some c := by
  cases hfind : allowed.zipIdx.find? fun c' => candidateKey c'.2 = candidateKey c.2 with
  | none => exact absurd (decide_eq_true rfl) (List.find?_eq_none.mp hfind c hc)
  | some c' =>
    obtain ⟨hkey, -⟩ := List.find?_eq_some_iff_append.mp hfind
    have hposition : c'.2 = c.2 := candidateKey_injective (of_decide_eq_true hkey)
    have hc' := List.mem_zipIdx_iff_getElem?.mp (List.mem_of_find?_eq_some hfind)
    rw [hposition, List.mem_zipIdx_iff_getElem?.mp hc, Option.some.injEq] at hc'
    rw [Prod.ext hc'.symm hposition]

/-- The step of a branch leads to its value and its reference. -/
theorem Value.Distinct.child? {v : Value} {schema : Schema} {b : Branch} (h : v.Distinct)
    (hb : b ∈ v.branches schema) : v.child? schema b.step = some (b.value, b.ref) := by
  have hget {entries : Entries Value} {e : String × Value} (value : v.keyed? = some entries)
      (mem : e ∈ entries) : v.keyed?.bind (Entries.get? · e.1) = some e.2 := by
    rw [value, Option.bind_some]
    exact Entries.get?_of_mem (h.keyed? value) mem
  cases hasChild_of_mem hb with
  | item value mem =>
    have hitem := List.mem_zipIdx_iff_getElem?.mp mem
    rw [Value.child?, value, Value.list?, Option.bind_some, hitem, Option.map_some]
  | entry value mem => rw [Value.child?, hget value mem, Option.map_some]
  | argument value mem field =>
    rw [Value.child?, hget value mem, Option.bind_some, field, Option.map_some]
  | field value mem field =>
    rw [Value.child?, hget value mem, Option.bind_some, field, Option.map_some]
  | payload value discriminant option =>
    have hselect := selection?_eq_some.mpr ⟨rfl, option⟩
    rw [Value.child?, if_pos rfl, value, Option.bind_some, discriminant, Option.bind_some,
      hselect, Option.map_some]
  | candidate mem => rw [Value.child?, find?_candidate mem, Option.map_some]

/-! ## 3. The addresses of a walk -/

/-- All that a walk says lies below the path at which it starts, and is about the place to which
the rest of the path leads. -/
theorem walk_addresses {ctx : Context} :
    ∀ levels path v ref r, walk ctx levels path v ref = .ok r → v.Distinct →
      r.Says fun d => ∃ rest, d.path = path ++ rest ∧
        ctx.schemas.replay? rest v ref = some (d.value, d.schema) := by
  refine walk_induction ?_ ?_
  · intro levels path v ref hnone _
    refine ⟨fun d hd => ?_, fun d hd => absurd hd List.not_mem_nil⟩
    rw [List.mem_singleton.mp hd]
    refine ⟨[], (List.append_nil path).symm, ?_⟩
    unfold SchemaSet.replay? SchemaSet.target
    rw [hnone]
    rfl
  · intro levels path v ref schema D hschema ih hv
    refine (Node.says_report ?_ ?_).close
    · intro f _
      refine ⟨[], (List.append_nil path).symm, ?_⟩
      unfold SchemaSet.replay? SchemaSet.target
      rw [hschema]
      rfl
    · intro b hb
      have hstep : v.represented.child? schema b.step = some (b.value, b.ref) :=
        hv.represented.child? hb
      -- What is said of the child is addressed from there: its step goes before that address.
      have hbelow (d : Diagnostic) : (∃ rest, d.path = path ++ [b.step] ++ rest ∧
            ctx.schemas.replay? rest b.value b.ref = some (d.value, d.schema)) →
          ∃ rest, d.path = path ++ rest ∧
            ctx.schemas.replay? rest v ref = some (d.value, d.schema) := by
        rintro ⟨rest, hpath, hreplay⟩
        refine ⟨b.step :: rest, hpath.trans (List.append_assoc ..), ?_⟩
        unfold SchemaSet.replay?
        rw [hschema, Option.bind_some, hstep, Option.bind_some]
        exact hreplay
      obtain ⟨herrors, hwarnings⟩ := ih b hb (hv.represented.branch hb)
      exact ⟨fun d hd => hbelow d (herrors d hd), fun d hd => hbelow d (hwarnings d hd)⟩

/-- The path of an error or a warning leads from the root to the value and the schema that it is
about: the steps can all be taken, and the place they end at is the place of the diagnostic. -/
theorem validate_addresses {ctx : Context} {v : Value} {ref : SchemaRef} {r : Report}
    (hv : v.Distinct) (h : validate ctx v ref = .ok r) :
    ∀ d ∈ r.errors ++ r.warnings,
      ctx.schemas.replay? d.path v ref = some (d.value, d.schema) := by
  obtain ⟨herrors, hwarnings⟩ := walk_addresses _ [] v ref r h hv
  have haddress : ∀ d : Diagnostic, (∃ rest, d.path = [] ++ rest ∧
      ctx.schemas.replay? rest v ref = some (d.value, d.schema)) →
        ctx.schemas.replay? d.path v ref = some (d.value, d.schema) := by
    rintro d ⟨rest, hpath, hreplay⟩
    rw [hpath]
    exact hreplay
  intro d hd
  rcases List.mem_append.mp hd with hd | hd
  · exact haddress d (herrors d hd)
  · exact haddress d (hwarnings d hd)

def settingSet : SchemaSet where
  schemas :=
    [("settings", .index (.named "setting") none),
      ("setting", .multi [.named "boolean", .inline (.list (.named "number"))])]

def lookalike : Value := .map [("(multi: 0)", .external 7 (.list [.null]))]

theorem distinct_lookalike : lookalike.Distinct := by
  have hnull : Value.null.Distinct := fun entries h => nomatch h
  refine Value.distinct_map.mpr ⟨List.nodup_singleton _, fun e he => ?_⟩
  rw [List.mem_singleton.mp he]
  refine Value.distinct_external (Value.distinct_list.mpr fun item hitem => ?_)
  rw [List.mem_singleton.mp hitem]
  exact hnull

/-- Of the two steps of the same text in the second path, the first leads to an entry and the second
to a candidate. -/
theorem validate_addresses_lookalike :
    ∃ r, validate ⟨lookalike, settingSet, {}⟩ lookalike (.named "settings") = .ok r ∧
      r.errors.map Diagnostic.path =
        [[.key "(multi: 0)"], [.key "(multi: 0)", candidateKey 0],
          [.key "(multi: 0)", candidateKey 1, .index 0]] ∧
      ∀ d ∈ r.errors ++ r.warnings,
        settingSet.replay? d.path lookalike (.named "settings") = some (d.value, d.schema) := by
  obtain ⟨r, hr, hpaths⟩ :
      ∃ r, validate ⟨lookalike, settingSet, {}⟩ lookalike (.named "settings") = .ok r ∧
        r.errors.map Diagnostic.path =
          [[.key "(multi: 0)"], [.key "(multi: 0)", candidateKey 0],
            [.key "(multi: 0)", candidateKey 1, .index 0]] := ⟨_, rfl, rfl⟩
  exact ⟨r, hr, hpaths, validate_addresses distinct_lookalike hr⟩

end Conform
