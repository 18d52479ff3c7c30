import Conform.Proofs.Findings

/-!
# References — what a walk can be led to

The children of a node are held against parts of its schema (`branch_ref_mem_parts`).  So a set in
which every mentioned name has a meaning leads a walk to schemas that have one, however long it
goes on (`Visits.resolves`).
-/

namespace Conform

/-! ## 1. Parts of schemas -/

def Schema.parts : Schema → List SchemaRef
  | .index elements _ => [elements]
  | .list elements => [elements]
  | .args fields | .object fields => fields.map Prod.snd
  | .enum _ _ strict options => options.map fun option => payloadRef strict option.2
  | .multi allowed => allowed
  | .freeform | .boolean | .regex | .number _ | .string _ => []

inductive SchemaRef.Mentions : SchemaRef → String → Prop
  | named (name : String) : Mentions (.named name) name
  | inline {schema : Schema} {part : SchemaRef} {name : String} (mem : part ∈ schema.parts)
    (mentions : part.Mentions name) : Mentions (.inline schema) name

inductive SchemaRef.Contains : SchemaRef → Schema → Prop
  | here (schema : Schema) : Contains (.inline schema) schema
  | part {schema target : Schema} {part : SchemaRef} (mem : part ∈ schema.parts)
    (contains : part.Contains target) : Contains (.inline schema) target

def Number.IsLength (n : Nat) : Prop := (Number.ofNat n).toLength = n

def Schema.Expressible : Schema → Prop
  | .number rules =>
    (∀ n, rules.min = some n → n.isFinite = true) ∧ ∀ n, rules.max = some n → n.isFinite = true
  | .string rules =>
    (∀ n, rules.maxLength = some n → Number.IsLength n) ∧
      ∀ n, rules.minLength = some n → Number.IsLength n
  | _ => True

/-- The names that occur in a reference are allowed, and the schemas in it can be written. -/
structure SchemaRef.Regular (allowed : String → Prop) (ref : SchemaRef) : Prop where
  names : ∀ name, ref.Mentions name → allowed name
  schemas : ∀ schema, ref.Contains schema → schema.Expressible

namespace SchemaRef

variable {allowed other : String → Prop} {ref inner : SchemaRef} {schema : Schema}
  {name : String}

theorem regular_named (h : allowed name) : (SchemaRef.named name).Regular allowed := by
  constructor
  · intro mentioned hname
    cases hname
    exact h
  · intro schema hschema
    cases hschema

/-- A schema in place is as regular as its parts. -/
theorem regular_inline (hschema : schema.Expressible)
    (hparts : ∀ part ∈ schema.parts, part.Regular allowed) :
    (SchemaRef.inline schema).Regular allowed := by
  constructor
  · intro name hname
    cases hname with
    | inline mem mentions => exact (hparts _ mem).names name mentions
  · intro target htarget
    cases htarget with
    | here => exact hschema
    | part mem contains => exact (hparts _ mem).schemas target contains

/-- The parts of a regular schema are regular. -/
theorem Regular.part (h : (SchemaRef.inline schema).Regular allowed)
    (hinner : inner ∈ schema.parts) : inner.Regular allowed :=
  ⟨fun name hname => h.names name (.inline hinner hname),
    fun target htarget => h.schemas target (.part hinner htarget)⟩

/-- The payload of an enum has the fields for its parts, whether all are required or not. -/
theorem Regular.payload {strict : Bool} {fields : Fields}
    (h : (payloadRef strict fields).Regular allowed) (hinner : inner ∈ fields.map Prod.snd) :
    inner.Regular allowed := by
  unfold payloadRef at h
  cases strict with
  | true => exact h.part hinner
  | false => exact h.part hinner

/-- More names may be allowed. -/
theorem Regular.imp (h : ref.Regular allowed) (himp : ∀ name, allowed name → other name) :
    ref.Regular other :=
  ⟨fun name hname => himp name (h.names name hname), h.schemas⟩

end SchemaRef

namespace SchemaSet

def Knows (set : SchemaSet) (name : String) : Prop :=
  set.contains name = true ∨ (PrimitiveKind.ofName? name).isSome = true

/-- Every name that occurs in a schema of the set means a schema. -/
def Closed (set : SchemaSet) : Prop :=
  ∀ e ∈ set.schemas, ∀ name, (SchemaRef.inline e.2).Mentions name → set.Knows name

/-- A schema that can be led to: that of the reference, or one that a part of it leads to. -/
inductive Reaches (set : SchemaSet) : SchemaRef → Schema → Prop
  | here {ref : SchemaRef} {schema : Schema} (resolved : set.resolve? ref = some schema) :
    Reaches set ref schema
  | part {ref part : SchemaRef} {schema target : Schema}
    (resolved : set.resolve? ref = some schema) (mem : part ∈ schema.parts)
    (reaches : Reaches set part target) : Reaches set ref target

/-- The places of a walk: the one it starts from, and those below each of its branches. -/
inductive Visits (set : SchemaSet) : Value → SchemaRef → Value → SchemaRef → Prop
  | here (v : Value) (ref : SchemaRef) : Visits set v ref v ref
  | child {v w : Value} {ref target : SchemaRef} {schema : Schema} {b : Branch}
    (resolved : set.resolve? ref = some schema) (mem : b ∈ v.represented.branches schema)
    (visits : Visits set b.value b.ref w target) : Visits set v ref w target

end SchemaSet

/-- The children of a node are held against parts of its schema. -/
theorem branch_ref_mem_parts {v : Value} {schema : Schema} {b : Branch}
    (h : b ∈ v.branches schema) : b.ref ∈ schema.parts := by
  cases hasChild_of_mem h with
  | item => exact List.mem_singleton_self _
  | entry => exact List.mem_singleton_self _
  | argument value mem field =>
    exact List.mem_map.mpr ⟨_, Entries.mem_of_get? field, rfl⟩
  | field value mem field =>
    exact List.mem_map.mpr ⟨_, Entries.mem_of_get? field, rfl⟩
  | payload value discriminant option =>
    exact List.mem_map.mpr ⟨_, Entries.mem_of_get? option, rfl⟩
  | candidate mem => exact List.fst_mem_of_mem_zipIdx mem

/-! ## 2. Closed sets -/

namespace SchemaSet

variable {set : SchemaSet} {ref target : SchemaRef} {schema : Schema} {v w : Value}

/-- A name means something just when the set knows it. -/
theorem resolve?_isSome_iff (name : String) :
    (set.resolve? (.named name)).isSome = true ↔ set.Knows name := by
  change ((set.get? name).orElse fun _ => (PrimitiveKind.ofName? name).map Schema.bare).isSome =
    true ↔ (set.get? name).isSome = true ∨ (PrimitiveKind.ofName? name).isSome = true
  cases set.get? name with
  | none =>
    change ((PrimitiveKind.ofName? name).map Schema.bare).isSome = true ↔ _
    rw [Option.isSome_map, Option.isSome_none]
    exact ⟨.inr, fun h => h.resolve_left Bool.false_ne_true⟩
  | some schema => exact ⟨fun _ => .inl rfl, fun _ => rfl⟩

/-- A primitive mentions no name, or that of the default elements, which is a primitive. -/
theorem bare_mentions {kind : PrimitiveKind} {name : String}
    (h : (SchemaRef.inline (.bare kind)).Mentions name) : set.Knows name := by
  cases h with
  | inline mem mentions =>
    cases kind with
    -- The elements that are not given are those of the default.
    | list | index =>
      rw [List.mem_singleton.mp mem] at mentions
      cases mentions
      exact .inr (by decide)
    | _ => cases mem

/-- In a closed set, the schema of a reference whose names are known mentions known names. -/
theorem Closed.resolve? (hset : set.Closed) (href : ∀ name, ref.Mentions name → set.Knows name)
    (h : set.resolve? ref = some schema) (name : String)
    (hname : (SchemaRef.inline schema).Mentions name) : set.Knows name := by
  cases ref with
  | inline s =>
    cases h
    exact href name hname
  | named n =>
    change ((set.get? n).orElse fun _ => (PrimitiveKind.ofName? n).map Schema.bare) = some schema
      at h
    -- A schema of the set goes before the primitive of the same name.
    cases hget : set.get? n with
    | some s =>
      rw [hget] at h
      cases h
      exact hset _ (Entries.mem_of_get? hget) name hname
    | none =>
      rw [hget] at h
      rcases Option.map_eq_some_iff.1 h with ⟨kind, -, rfl⟩
      exact bare_mentions hname

/-- In a closed set, all that a walk is led to has a meaning. -/
theorem Visits.resolves (hset : set.Closed) (h : set.Visits v ref w target)
    (href : ∀ name, ref.Mentions name → set.Knows name) :
    (set.resolve? target).isSome = true := by
  induction h with
  | here v ref =>
    cases ref with
    | inline schema => rfl
    | named name => exact (resolve?_isSome_iff name).mpr (href name (.named name))
  | child resolved mem visits ih =>
    apply ih
    intro name hname
    exact hset.resolve? href resolved name (.inline (branch_ref_mem_parts mem) hname)

end SchemaSet

/-! ## 3. What is found in closed sets -/

/-- In a closed set, no walk from a known name finds a reference that means nothing. -/
theorem walk_knows {ctx : Context} (hset : ctx.schemas.Closed) :
    ∀ levels path v ref r, walk ctx levels path v ref = .ok r →
      (∀ name, ref.Mentions name → ctx.schemas.Knows name) →
        r.Says fun d => d.finding.isKnown = true := by
  refine walk_induction ?_ ?_
  · intro levels path v ref hnone href
    cases ref with
    | inline schema => cases hnone
    | named name =>
      -- A known name means something, so that no walk from one is unresolved.
      have hknown := (SchemaSet.resolve?_isSome_iff name).mpr (href name (.named name))
      rw [hnone] at hknown
      cases hknown
  · intro levels path v ref schema D hschema ih href
    refine (Node.says_report (fun f hf => hf) fun b hb => ih b hb fun name hname => ?_).close
    exact hset.resolve? href hschema name (.inline (branch_ref_mem_parts hb) hname)

end Conform
