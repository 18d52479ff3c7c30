import Conform.Proofs.References

/-!
# Completion — how deep a walk can go

Below every node but a choice the walk comes to smaller values (`Value.branch_lt`), and a choice
hands its own value on to its candidates.  So a walk can go on for ever only from choice to choice:
where no chain of choices is endless, every value is walked through at some depth
(`SchemaSet.Productive.completes`), and that depth depends on the schemas alone.
-/

namespace Conform

/-! ## 1. Sizes -/

namespace Value

variable {v : Value} {entries : Entries Value}

theorem sizeOf_entry_lt {e : String × Value} (h : e ∈ entries) :
    sizeOf e.2 < sizeOf (Value.map entries) := by
  have hentry := List.sizeOf_lt_of_mem h
  -- The size of a pair is unfolded by hand, as `omega` takes it for an atom.
  have hvalue : sizeOf e = 1 + sizeOf e.1 + sizeOf e.2 := rfl
  have hmap := Value.map.sizeOf_spec entries
  omega

theorem sizeOf_item_lt {items : List Value} (h : v ∈ items) :
    sizeOf v < sizeOf (Value.list items) := by
  have hitem := List.sizeOf_lt_of_mem h
  have hlist := Value.list.sizeOf_spec items
  omega

theorem represented_le (v : Value) : sizeOf v.represented ≤ sizeOf v := by
  cases v with
  | external handle representation =>
    have hsize := Value.external.sizeOf_spec handle representation
    show sizeOf representation ≤ _
    omega
  | _ => exact Nat.le_refl _

/-- The entries of a keyed value are smaller than it, also those of a list. -/
theorem keyed?_lt (h : v.keyed? = some entries) {e : String × Value} (he : e ∈ entries) :
    sizeOf e.2 < sizeOf v := by
  cases v with
  | map given =>
    cases h
    exact sizeOf_entry_lt he
  | list items =>
    cases h
    obtain ⟨c, hc, rfl⟩ := List.mem_map.mp he
    exact sizeOf_item_lt (List.fst_mem_of_mem_zipIdx hc)
  | _ => cases h

/-- Every child is smaller than its parent, but for the candidates of a choice. -/
theorem branch_lt {schema : Schema} {b : Branch} (h : b ∈ v.branches schema)
    (hmulti : ∀ allowed, schema ≠ .multi allowed) : sizeOf b.value < sizeOf v := by
  cases hasChild_of_mem h with
  | item value mem =>
    rw [value]
    exact sizeOf_item_lt (List.fst_mem_of_mem_zipIdx mem)
  | entry value mem => exact keyed?_lt value mem
  | argument value mem => exact keyed?_lt value mem
  | field value mem => exact keyed?_lt value mem
  | @payload _ metaField name _ _ _ entries value discriminant option =>
    show sizeOf (payloadOf entries metaField) < sizeOf v
    cases hpayload : entries.get? metaField with
    | some payload =>
      rw [payloadOf, hpayload, Option.getD_some]
      exact keyed?_lt value (Entries.mem_of_get? hpayload)
    | none =>
      -- The empty payload is no larger than the discriminant, which is there.
      have hname : sizeOf (Value.string name) < sizeOf v :=
        keyed?_lt value (Entries.mem_of_get? discriminant)
      have hstring := Value.string.sizeOf_spec name
      have hempty : sizeOf (Value.map []) = 2 := rfl
      have htext : 1 ≤ sizeOf name := by
        cases name
        simp only [String.ofByteArray.sizeOf_spec]
        omega
      rw [payloadOf, hpayload, Option.getD_none]
      omega
  | candidate => exact absurd rfl (hmulti _)

end Value

/-! ## 2. Depths that suffice -/

namespace SchemaSet

variable {set : SchemaSet} {ref : SchemaRef} {schema : Schema} {v : Value}

/-- From some depth on, the walk over a value completes, whatever else the context holds. -/
def Completes (set : SchemaSet) (v : Value) (ref : SchemaRef) : Prop :=
  ∃ depth, ∀ ctx : Context, ctx.schemas = set → ∀ levels, depth ≤ levels →
    ∀ path, ∃ r, walk ctx levels path v ref = .ok r

/-- What holds of each member from some bound on holds of all members from a common bound on. -/
theorem exists_common_bound {α : Type} {P : α → Nat → Prop} (l : List α)
    (h : ∀ x ∈ l, ∃ bound, ∀ n, bound ≤ n → P x n) :
    ∃ bound, ∀ x ∈ l, ∀ n, bound ≤ n → P x n := by
  induction l with
  | nil => exact ⟨0, fun x hx => absurd hx List.not_mem_nil⟩
  | cons y rest ih =>
    rw [List.forall_mem_cons] at h
    obtain ⟨m, hm⟩ := h.1
    obtain ⟨k, hk⟩ := ih h.2
    refine ⟨max m k, List.forall_mem_cons.mpr ⟨fun n hn => hm n (by omega), ?_⟩⟩
    exact fun x hx n hn => hk x hx n (by omega)

/-- A reference that means nothing is reported at once. -/
theorem completes_of_unresolved (h : set.resolve? ref = none) : set.Completes v ref := by
  refine ⟨1, fun ctx hctx levels hlevels path => ?_⟩
  obtain ⟨levels, rfl⟩ : ∃ n, levels = n + 1 := ⟨levels - 1, by omega⟩
  exact ⟨_, walk_of_unresolved (hctx ▸ h)⟩

/-- A node is one level above its children. -/
theorem completes_of_branches (h : set.resolve? ref = some schema)
    (below : ∀ b ∈ v.represented.branches schema, set.Completes b.value b.ref) :
    set.Completes v ref := by
  have hbound : ∃ depth, ∀ b ∈ v.represented.branches schema, ∀ n, depth ≤ n →
      ∀ ctx : Context, ctx.schemas = set → ∀ path, ∃ r, walk ctx n path b.value b.ref = .ok r := by
    refine exists_common_bound _ fun b hb => ?_
    obtain ⟨depth, hdepth⟩ := below b hb
    exact ⟨depth, fun n hn ctx hctx path => hdepth ctx hctx n hn path⟩
  obtain ⟨depth, hdepth⟩ := hbound
  refine ⟨depth + 1, fun ctx hctx levels hlevels path => ?_⟩
  obtain ⟨levels, rfl⟩ : ∃ n, levels = n + 1 := ⟨levels - 1, by omega⟩
  have hschema : ctx.schemas.resolve? ref = some schema := hctx ▸ h
  exact (walk_completes_iff hschema).mpr fun b hb => hdepth b hb levels (by omega) ctx hctx _

/-! ## 3. Productive references -/

def Offers (set : SchemaSet) (candidate choice : Schema) : Prop :=
  ∃ allowed ref, choice = .multi allowed ∧ ref ∈ allowed ∧ set.resolve? ref = some candidate

/-- No chain from choices to candidates, among the schemas that can be led to, is endless. -/
def Productive (set : SchemaSet) (ref : SchemaRef) : Prop :=
  ∀ schema, set.Reaches ref schema → Acc set.Offers schema

/-- The parts of what is productive are productive. -/
theorem Productive.part {part : SchemaRef} (h : set.Productive ref)
    (hschema : set.resolve? ref = some schema) (hpart : part ∈ schema.parts) :
    set.Productive part :=
  fun target hreaches => h target (.part hschema hpart hreaches)

/-- A productive reference has a depth for every value. -/
theorem Productive.completes (h : set.Productive ref) (v : Value) : set.Completes v ref := by
  -- The outer induction is on the size of the value, the inner one follows a chain of choices,
  -- along which the value is the same.
  induction hsize : sizeOf v using Nat.strongRecOn generalizing v ref with
  | ind size smaller =>
    have hchain : ∀ schema, Acc set.Offers schema → ∀ w ref, sizeOf w ≤ size →
        set.resolve? ref = some schema → set.Productive ref → set.Completes w ref := by
      intro schema hacc
      induction hacc with
      | intro schema _ ih =>
        intro w ref hw hschema hproductive
        refine completes_of_branches hschema fun b hb => ?_
        have hpart : set.Productive b.ref := hproductive.part hschema (branch_ref_mem_parts hb)
        have hrepresented := w.represented_le
        by_cases hmulti : ∃ allowed, schema = .multi allowed
        · obtain ⟨allowed, rfl⟩ := hmulti
          cases hasChild_of_mem hb with
          | candidate mem =>
            have hmem := List.fst_mem_of_mem_zipIdx mem
            cases hresolve : set.resolve? _ with
            | none => exact completes_of_unresolved hresolve
            | some offered =>
              exact ih offered ⟨allowed, _, rfl, hmem, hresolve⟩ _ _
                (Nat.le_trans hrepresented hw) hresolve hpart
        · have hlt := Value.branch_lt hb fun allowed heq => hmulti ⟨allowed, heq⟩
          exact smaller _ (show sizeOf b.value < size by omega) hpart b.value rfl
    cases hschema : set.resolve? ref with
    | none => exact completes_of_unresolved hschema
    | some schema =>
      exact hchain schema (h schema (.here hschema)) v ref (Nat.le_of_eq hsize) hschema h

end SchemaSet
end Conform
