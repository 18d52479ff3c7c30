import Conform.Proofs.Keys
import Conform.Proofs.Relocation

/-!
# Inlining — names, and what stands in their place

A name can give way to the schema that it means, in any places of a reference and of the schemas of
a set.  The validation does the same steps as before: it fails at the same node or gives the same
report, but for the schemas that the diagnostics carry (`validate_inlines`).
-/

namespace Conform

/-! ## 1. Inlining -/

mutual

/-- Some names in a schema give way to the schemas that they mean in a set. -/
inductive Schema.Inlines (set : SchemaSet) : Schema → Schema → Prop
  | same (schema : Schema) : Schema.Inlines set schema schema
  | index {elements elements' : SchemaRef} {validKeys : Option Pattern}
    (each : SchemaRef.Inlines set elements elements') :
    Schema.Inlines set (.index elements validKeys) (.index elements' validKeys)
  | list {elements elements' : SchemaRef} (each : SchemaRef.Inlines set elements elements') :
    Schema.Inlines set (.list elements) (.list elements')
  | args {fields fields' : Fields}
    (each : List.Forall₂ (Entry.Related (SchemaRef.Inlines set)) fields fields') :
    Schema.Inlines set (.args fields) (.args fields')
  | object {fields fields' : Fields}
    (each : List.Forall₂ (Entry.Related (SchemaRef.Inlines set)) fields fields') :
    Schema.Inlines set (.object fields) (.object fields')
  | enum {valueField metaField : String} {strict : Bool} {options options' : Entries Fields}
    (each : List.Forall₂ (Entry.Related (List.Forall₂ (Entry.Related (SchemaRef.Inlines set))))
      options options') :
    Schema.Inlines set (.enum valueField metaField strict options)
      (.enum valueField metaField strict options')
  | multi {allowed allowed' : List SchemaRef}
    (each : List.Forall₂ (SchemaRef.Inlines set) allowed allowed') :
    Schema.Inlines set (.multi allowed) (.multi allowed')

/-- A reference stays, or is a name that gives way, or a schema in place in which some names do. -/
inductive SchemaRef.Inlines (set : SchemaSet) : SchemaRef → SchemaRef → Prop
  | same (ref : SchemaRef) : SchemaRef.Inlines set ref ref
  | named {name : String} {schema schema' : Schema}
    (resolved : set.resolve? (.named name) = some schema)
    (each : Schema.Inlines set schema schema') :
    SchemaRef.Inlines set (.named name) (.inline schema')
  | inline {schema schema' : Schema} (each : Schema.Inlines set schema schema') :
    SchemaRef.Inlines set (.inline schema) (.inline schema')

end

abbrev FieldsInlined (set : SchemaSet) : Fields → Fields → Prop :=
  List.Forall₂ (Entry.Related (SchemaRef.Inlines set))

/-- Some names in the schemas of a set give way to the schemas that they mean in this set. -/
def SchemaSet.Inlines (set set' : SchemaSet) : Prop :=
  List.Forall₂ (Entry.Related (Schema.Inlines set)) set.schemas set'.schemas

section Meaning

variable {set set' : SchemaSet} {ref ref' : SchemaRef} {fields fields' : Fields}

/-- What the references mean has the same names inlined, if they mean anything. -/
theorem SchemaRef.Inlines.resolve? (hset : set.Inlines set')
    (h : ref.Inlines set ref') :
    Option.Rel (Schema.Inlines set) (set.resolve? ref) (set'.resolve? ref') := by
  cases h with
  | inline each => exact .some each
  | named resolved each =>
    rw [resolved]
    exact .some each
  | same =>
    cases ref with
    | inline schema => exact .some (.same schema)
    | named name =>
      have hget := get?_of_related hset name
      unfold SchemaSet.resolve? SchemaSet.get?
      dsimp only
      generalize set.schemas.get? name = found at hget ⊢
      generalize set'.schemas.get? name = found' at hget ⊢
      cases hget with
      | some each => exact .some each
      | none =>
        -- The name of a primitive means the same in both sets.
        cases (PrimitiveKind.ofName? name).map Schema.bare with
        | none => exact .none
        | some schema => exact .some (.same schema)

/-- The payload of an enum is held against the same fields with names inlined. -/
theorem payloadRef_inlines (strict : Bool)
    (each : FieldsInlined set fields fields') :
    SchemaRef.Inlines set (payloadRef strict fields) (payloadRef strict fields') := by
  cases strict with
  | true => exact .inline (.object each)
  | false => exact .inline (.args each)

/-- The same option is selected. -/
theorem selection?_inlines {options options' : Entries Fields}
    (each : List.Forall₂ (Entry.Related (FieldsInlined set)) options options')
    (discriminant : Value) :
    Option.Rel
      (fun s s' => s'.1 = s.1 ∧ FieldsInlined set s.2 s'.2)
      (selection? options discriminant) (selection? options' discriminant) := by
  unfold selection?
  cases discriminant with
  | string name => exact rel_optionMap (get?_of_related each name) fun _ _ fields => ⟨rfl, fields⟩
  | _ => exact .none

end Meaning

/-! ## 2. The steps of a walk -/

structure Branch.Inlines (set : SchemaSet) (b b' : Branch) : Prop where
  step : b'.step = b.step
  value : b'.value = b.value
  ref : b.ref.Inlines set b'.ref

section Steps

variable {set : SchemaSet} {schema schema' : Schema} {fields fields' : Fields}

/-- Inlined fields have the same children, with names inlined. -/
theorem args_inlines (each : FieldsInlined set fields fields') (v : Value) :
    List.Forall₂ (Branch.Inlines set) (v.branches (.args fields)) (v.branches (.args fields')) := by
  refine List.rel_filterMap (fun e e' he => ?_) (List.forall₂_same.mpr fun e _ => rfl)
  obtain rfl : e = e' := he
  exact rel_optionMap (get?_of_related each e.1) fun _ _ ref => ⟨rfl, rfl, ref⟩

/-- A value has the same children, with names inlined in their references. -/
theorem Schema.Inlines.branches (h : schema.Inlines set schema') (v : Value) :
    List.Forall₂ (Branch.Inlines set) (v.branches schema) (v.branches schema') := by
  cases h with
  -- Steps and values are the same in all cases; only the references may differ.
  | same => exact List.forall₂_same.mpr fun b _ => ⟨rfl, rfl, .same b.ref⟩
  | index each =>
    refine List.rel_map (fun e e' he => ?_) (List.forall₂_same.mpr fun e _ => rfl)
    obtain rfl : e = e' := he
    exact ⟨rfl, rfl, each⟩
  | list each =>
    unfold Value.branches
    cases v with
    | list items =>
      refine List.rel_map (fun c c' hc => ?_) (List.forall₂_same.mpr fun c _ => rfl)
      obtain rfl : c = c' := hc
      exact ⟨rfl, rfl, each⟩
    | _ => exact .nil
  | args each => exact args_inlines each v
  | object each => exact args_inlines each v
  | @enum valueField _ _ options options' each =>
    unfold Value.branches
    cases v.keyed? with
    | none => exact .nil
    | some entries =>
      dsimp only
      cases entries.get? valueField with
      | none => exact .nil
      | some discriminant =>
        have hselect := selection?_inlines each discriminant
        dsimp only [Option.bind_some]
        generalize selection? options discriminant = found at hselect ⊢
        generalize selection? options' discriminant = found' at hselect ⊢
        cases hselect with
        | none => exact .nil
        | some option => exact .cons ⟨rfl, rfl, payloadRef_inlines _ option.2⟩ .nil
  | multi each =>
    exact List.rel_map (fun c c' hc => ⟨congrArg candidateKey hc.1, rfl, hc.2⟩)
      (forall₂_zipIdx each 0)

end Steps

/-! ## 3. Reports without schemas -/

def Diagnostic.schemaless (d : Diagnostic) : Diagnostic := { d with schema := .named "" }

def Report.schemaless (r : Report) : Report :=
  { r with
    errors := r.errors.map Diagnostic.schemaless
    warnings := r.warnings.map Diagnostic.schemaless }

def Node.schemaless (node : Node) : Node := { node with schema := .named "" }

def Reports.schemaless (D : Reports) : Reports := fun step v ref => (D step v ref).schemaless

section Schemaless

variable {node : Node} {ctx : Context} {D : Reports}

def withoutSchemas : Relabelling := ⟨fun _ => .named "", id⟩

theorem Report.schemaless_close (r : Report) : r.close.schemaless = r.schemaless.close :=
  r.relabel_close withoutSchemas

/-- The schema of a node has no part in its report but in the diagnostics. -/
theorem Node.schemaless_report (schema : Schema) :
    (node.report ctx D schema).schemaless = node.schemaless.report ctx D.schemaless schema :=
  Node.report_relabel withoutSchemas schema

theorem schemaless_reportsOf (descend : Descent) (step : PathSegment) (v : Value)
    (ref : SchemaRef) :
    (reportsOf descend).schemaless step v ref =
      match (descend step v ref).map Report.schemaless with
      | .ok r => r
      | .error _ => {} :=
  reportsOf_relabel withoutSchemas descend step v ref

end Schemaless

/-! ## 4. Walks with names inlined -/

section Walks

variable {set set' : SchemaSet} {node : Node} {ctx ctx' : Context} {D D' : Reports}
  {schema schema' : Schema} {ref ref' : SchemaRef} {fields fields' : Fields}

/-- The report of declared fields does not depend on how their schemas are told. -/
theorem Node.fieldsReport_inlines (required : Bool)
    (each : FieldsInlined set fields fields')
    (below : ∀ step v ref ref', ref.Inlines set ref' → D' step v ref' = D step v ref) :
    node.fieldsReport D' required fields' = node.fieldsReport D required fields := by
  have hchild (e : String × Value) : (fields'.get? e.1).map (D' (.key e.1) e.2) =
      (fields.get? e.1).map (D (.key e.1) e.2) := by
    have hget := get?_of_related each e.1
    generalize fields.get? e.1 = found at hget ⊢
    generalize fields'.get? e.1 = found' at hget ⊢
    cases hget with
    | none => rfl
    | some ref => exact congrArg some (below _ _ _ _ ref)
  unfold fieldsReport missingFields
  simp only [hchild, keys_of_related each]

/-- What a node makes of the same reports below it is the same with names inlined. -/
theorem Node.report_inlines (hroot : ctx'.root = ctx.root) (hoptions : ctx'.options = ctx.options)
    (h : schema.Inlines set schema')
    (below : ∀ step v ref ref', ref.Inlines set ref' → D' step v ref' = D step v ref) :
    node.report ctx' D' schema' = node.report ctx D schema := by
  cases h with
  | same =>
    have hsame : D' = D := by
      funext step v ref
      exact below step v ref ref (.same ref)
    rw [hsame]
    unfold report string
    rw [hroot, hoptions]
  | index each =>
    unfold report
    simp only [below _ _ _ _ each]
  | list each =>
    unfold report
    simp only [below _ _ _ _ each]
  | args each => exact fieldsReport_inlines false each below
  | object each => exact fieldsReport_inlines true each below
  | @enum valueField _ _ options options' each =>
    unfold report
    cases node.value.keyed? with
    | none => rfl
    | some entries =>
      dsimp only
      cases entries.get? valueField with
      | none => rfl
      | some discriminant =>
        have hselect := selection?_inlines each discriminant
        dsimp only
        generalize selection? options discriminant = found at hselect ⊢
        generalize selection? options' discriminant = found' at hselect ⊢
        cases hselect with
        | none => rfl
        | @some option option' hoption =>
          -- The name of the option stays in the output; only its fields have names inlined.
          dsimp only
          rw [hoption.1, below _ _ _ _ (payloadRef_inlines _ hoption.2)]
  | @multi allowed allowed' each =>
    have hcandidates : List.Forall₂ Eq
        (allowed.zipIdx.map fun c => D (candidateKey c.2) node.value c.1)
        (allowed'.zipIdx.map fun c => D' (candidateKey c.2) node.value c.1) := by
      refine List.rel_map (fun c c' hc => ?_) (forall₂_zipIdx each 0)
      rw [hc.1]
      exact (below _ _ _ _ hc.2).symm
    rw [List.forall₂_eq_eq_eq] at hcandidates
    exact congrArg node.choice hcandidates.symm

/-- Of two descents that fail alike at every child, the children fail alike as a whole. -/
theorem Schema.Inlines.failure? {descend descend' : Descent} (h : schema.Inlines set schema')
    (v : Value)
    (below : ∀ step v ref ref', ref.Inlines set ref' →
      Conform.failure? (descend' step v ref') = Conform.failure? (descend step v ref)) :
    Conform.failure? ((v.branches schema').mapM (follow descend')) =
      Conform.failure? ((v.branches schema).mapM (follow descend)) := by
  -- The children come in the same order, so the first that fails is the same.
  have hfailures : List.Forall₂ Eq
      ((v.branches schema).map fun b => Conform.failure? (follow descend b))
      ((v.branches schema').map fun b => Conform.failure? (follow descend' b)) := by
    refine List.rel_map (fun b b' hb => ?_) (h.branches v)
    unfold follow
    rw [hb.step, hb.value]
    exact (below _ _ _ _ hb.ref).symm
  rw [List.forall₂_eq_eq_eq] at hfailures
  rw [failure?_mapM, failure?_mapM]
  have hfirst := congrArg (List.findSome? id) hfailures
  rw [List.findSome?_map, List.findSome?_map] at hfirst
  exact hfirst.symm

/-- Computations that fail alike are the same but for their results. -/
theorem map_of_failure? {ε α β γ : Type} {x : Except ε α} {y : Except ε β}
    (h : failure? x = failure? y) (c : γ) : (x.map fun _ => c) = y.map fun _ => c := by
  cases x with
  | error e =>
    cases y with
    | error e' => exact congrArg Except.error (Option.some.inj h)
    | ok b => cases h
  | ok a =>
    cases y with
    | error e' => cases h
    | ok b => rfl

/-- Without the schemas of diagnostics, a walk is made of walks without them. -/
theorem walk_schemaless {levels : Nat} {path : Path} {v : Value}
    (h : ctx.schemas.resolve? ref = some schema) :
    (walk ctx (levels + 1) path v ref).map Report.schemaless =
      ((v.represented.branches schema).mapM (follow (below ctx levels path))).map fun _ =>
        ((nodeAt path v schema).schemaless.report ctx
          (reportsOf (below ctx levels path)).schemaless schema).close := by
  rw [walk_of_resolved h, ← Node.schemaless_report, ← Report.schemaless_close]
  cases (v.represented.branches schema).mapM (follow (below ctx levels path)) <;> rfl

/-- With names inlined a walk fails at the same node, or has the same report without schemas. -/
theorem walk_inlines (hset : ctx.schemas.Inlines ctx'.schemas)
    (hroot : ctx'.root = ctx.root) (hoptions : ctx'.options = ctx.options) (levels : Nat) :
    ∀ path v ref ref', ref.Inlines ctx.schemas ref' →
      (walk ctx' levels path v ref').map Report.schemaless =
        (walk ctx levels path v ref).map Report.schemaless := by
  -- A name that gives way is no step of the walk: both have the same levels left.
  induction levels with
  | zero =>
    intro path v ref ref' _
    unfold walk
    rw [hoptions]
  | succ levels ih =>
    intro path v ref ref' href
    have hmeaning := href.resolve? hset
    cases hschema : ctx.schemas.resolve? ref with
    | none =>
      -- What means nothing is a name, and stays.
      cases href with
      | inline each => cases hschema
      | named resolved each => cases hschema.symm.trans resolved
      | same =>
        rw [hschema] at hmeaning
        generalize hschema' : ctx'.schemas.resolve? ref = found at hmeaning
        cases hmeaning
        rw [walk_of_unresolved hschema, walk_of_unresolved hschema']
    | some schema =>
      rw [hschema] at hmeaning
      generalize hschema' : ctx'.schemas.resolve? ref' = found at hmeaning
      cases hmeaning with
      | some hinlines =>
        have hbelow (step : PathSegment) (v : Value) (ref ref' : SchemaRef)
            (href : ref.Inlines ctx.schemas ref') :
            (below ctx' levels path step v ref').map Report.schemaless =
              (below ctx levels path step v ref).map Report.schemaless := ih _ _ _ _ href
        rw [walk_schemaless hschema, walk_schemaless hschema',
          Node.report_inlines hroot hoptions hinlines]
        · refine map_of_failure? (hinlines.failure? _ fun step v ref ref' href => ?_) _
          rw [← failure?_map _ Report.schemaless, hbelow step v ref ref' href, failure?_map]
        · intro step v ref ref' href
          rw [schemaless_reportsOf, schemaless_reportsOf, hbelow step v ref ref' href]

end Walks

/-- Naming a schema and inlining it mean the same: where names give way to what they mean, in a
reference and in the schemas of its set, a validation aborts with the same limit and path, or gives
the same sanitized value and the same errors and warnings, but for the schemas that these carry. -/
theorem validate_inlines (set set' : SchemaSet) (ref ref' : SchemaRef)
    (hset : set.Inlines set') (href : ref.Inlines set ref') (root v : Value)
    (options : Options) :
    (validate ⟨root, set', options⟩ v ref').map Report.schemaless =
      (validate ⟨root, set, options⟩ v ref).map Report.schemaless :=
  @walk_inlines ⟨root, set, options⟩ ⟨root, set', options⟩ hset rfl rfl _ [] v ref ref' href

def flagSet : SchemaSet where
  schemas :=
    [("object", .boolean), ("rows", .list (.named "list")), ("tree", .list (.named "tree"))]

def flagSetInlined : SchemaSet where
  schemas :=
    [("object", .boolean), ("rows", .list (.inline (.list (.inline .boolean)))),
      ("tree", .list (.inline (.list (.named "tree"))))]

theorem flagSet_inlines : flagSet.Inlines flagSetInlined := by
  have hflag : SchemaRef.Inlines flagSet (.named "object") (.inline .boolean) :=
    .named rfl (.same .boolean)
  have hrow : SchemaRef.Inlines flagSet (.named "list") (.inline (.list (.inline .boolean))) :=
    .named rfl (.list hflag)
  have htree : SchemaRef.Inlines flagSet (.named "tree") (.inline (.list (.named "tree"))) :=
    .named rfl (.same _)
  exact .cons ⟨.same .boolean⟩ (.cons ⟨.list hrow⟩ (.cons ⟨.list htree⟩ .nil))

/-- Rows that end in something else than a flag are rejected there, whether the elements of a list
have their name from the set or stand in place. -/
theorem validate_inlines_flagSet :
    ((validate ⟨.null, flagSet, {}⟩ (.list [.list [.bool true], .list [.null]])
        (.named "rows")).toOption.map fun r => r.errors.map fun d => (d.path, d.finding)) =
      some [([.index 1, .index 0], .unableToCoerce)] ∧
    (validate ⟨.null, flagSetInlined, {}⟩ (.list [.list [.bool true], .list [.null]])
        (.inline (.list (.named "list")))).map Report.schemaless =
      (validate ⟨.null, flagSet, {}⟩ (.list [.list [.bool true], .list [.null]])
        (.named "rows")).map Report.schemaless := by
  have hrows : SchemaRef.Inlines flagSet (.named "rows") (.inline (.list (.named "list"))) :=
    .named rfl (.same _)
  exact ⟨rfl, validate_inlines flagSet flagSetInlined _ _ flagSet_inlines hrows .null _ {}⟩

end Conform
