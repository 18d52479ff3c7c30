import Conform.Proofs.Entries
import Conform.Validation

/-!
# Descents — a visit as a function of the reports below it

A handler hands a fixed list of children to the walk and assembles what comes back.  This file
makes that list explicit (`Node.branches`) and shows that a visit fails as the first of its
children that fails, and otherwise is a function of their reports (`Node.visit_eq`).  What the
walk preserves is then proved by one induction over completed walks (`walk_induction`).
-/

namespace Conform

/-! ## 1. The children of a node -/

structure Branch where
  step : PathSegment
  value : Value
  ref : SchemaRef

def payloadRef (strict : Bool) (fields : Fields) : SchemaRef :=
  .inline (if strict then .object fields else .args fields)

def selection? (options : Entries Fields) (discriminant : Value) : Option (String × Fields) :=
  discriminant.string?.bind fun name => (options.get? name).map ((name, ·))

def payloadOf (entries : Entries Value) (metaField : String) : Value :=
  (entries.get? metaField).getD (.map [])

/-- The children that a value has under a schema, in the order in which they are visited. -/
def Value.branches (v : Value) : Schema → List Branch
  | .list elements =>
    match v with
    | .list items => items.zipIdx.map fun c => ⟨.index c.2, c.1, elements⟩
    | _ => []
  | .index elements _ => (v.keyed?.getD []).map fun e => ⟨.key e.1, e.2, elements⟩
  | .args fields | .object fields =>
    (v.keyed?.getD []).filterMap fun e =>
      (Entries.get? fields e.1).map fun ref => ⟨.key e.1, e.2, ref⟩
  | .enum valueField metaField strict options =>
    match v.keyed? with
    | none => []
    | some entries =>
      match (entries.get? valueField).bind (selection? options) with
      | none => []
      | some (_, fields) =>
        [⟨.key metaField, payloadOf entries metaField, payloadRef strict fields⟩]
  -- Every candidate is visited, whichever of them wins.
  | .multi allowed => allowed.zipIdx.map fun c => ⟨candidateKey c.2, v, c.1⟩
  | _ => []

section Branches

variable {v : Value} {entries : Entries Value}

/-- A discriminant names an option only as a string. -/
theorem selection?_eq_some {options : Entries Fields} {discriminant : Value} {name : String}
    {fields : Fields} :
    selection? options discriminant = some (name, fields) ↔
      discriminant = .string name ∧ options.get? name = some fields := by
  unfold selection?
  cases discriminant with
  | string text =>
    change (options.get? text).map ((text, ·)) = some (name, fields) ↔ _
    simp only [Option.map_eq_some_iff, Prod.mk.injEq, Value.string.injEq]
    constructor
    · rintro ⟨_, hget, rfl, rfl⟩
      exact ⟨rfl, hget⟩
    · rintro ⟨rfl, hget⟩
      exact ⟨fields, hget, rfl, rfl⟩
  | _ => exact ⟨fun h => absurd h nofun, fun h => absurd h.1 nofun⟩

theorem branches_index (h : v.keyed? = some entries) (elements : SchemaRef)
    (validKeys : Option Pattern) :
    v.branches (.index elements validKeys) = entries.map fun e => ⟨.key e.1, e.2, elements⟩ := by
  unfold Value.branches
  rw [h, Option.getD_some]

theorem branches_args (h : v.keyed? = some entries) (fields : Fields) :
    v.branches (.args fields) =
      entries.filterMap fun e => (fields.get? e.1).map fun ref => ⟨.key e.1, e.2, ref⟩ := by
  unfold Value.branches
  rw [h, Option.getD_some]

/-- The only child of an enum is its payload, held against the fields of the option. -/
theorem branches_enum {valueField metaField name : String} {strict : Bool}
    {options : Entries Fields} {fields : Fields} (h : v.keyed? = some entries)
    (hname : entries.get? valueField = some (.string name))
    (hfields : options.get? name = some fields) :
    v.branches (.enum valueField metaField strict options) =
      [⟨.key metaField, payloadOf entries metaField, payloadRef strict fields⟩] := by
  have hselect : selection? options (.string name) = some (name, fields) :=
    selection?_eq_some.mpr ⟨rfl, hfields⟩
  unfold Value.branches
  rw [h]
  dsimp only
  rw [hname, Option.bind_some, hselect]

theorem item_mem_branches {items : List Value} {c : Value × Nat} (h : v = .list items)
    (hc : c ∈ items.zipIdx) (elements : SchemaRef) :
    ⟨.index c.2, c.1, elements⟩ ∈ v.branches (.list elements) := by
  rw [h]
  exact List.mem_map_of_mem hc

theorem entry_mem_branches {e : String × Value} (h : v.keyed? = some entries) (he : e ∈ entries)
    (elements : SchemaRef) (validKeys : Option Pattern) :
    ⟨.key e.1, e.2, elements⟩ ∈ v.branches (.index elements validKeys) := by
  rw [branches_index h]
  exact List.mem_map_of_mem he

theorem field_mem_branches {fields : Fields} {e : String × Value} {ref : SchemaRef}
    (h : v.keyed? = some entries) (he : e ∈ entries) (href : fields.get? e.1 = some ref) :
    ⟨.key e.1, e.2, ref⟩ ∈ v.branches (.args fields) := by
  rw [branches_args h]
  exact List.mem_filterMap.mpr ⟨e, he, by rw [href, Option.map_some]⟩

theorem payload_mem_branches {valueField name : String} {options : Entries Fields}
    {fields : Fields} (h : v.keyed? = some entries)
    (hname : entries.get? valueField = some (.string name))
    (hfields : options.get? name = some fields) (metaField : String) (strict : Bool) :
    ⟨.key metaField, payloadOf entries metaField, payloadRef strict fields⟩ ∈
      v.branches (.enum valueField metaField strict options) := by
  rw [branches_enum h hname hfields]
  exact List.mem_cons_self

theorem candidate_mem_branches {allowed : List SchemaRef} {c : SchemaRef × Nat}
    (hc : c ∈ allowed.zipIdx) (v : Value) :
    ⟨candidateKey c.2, v, c.1⟩ ∈ v.branches (.multi allowed) :=
  List.mem_map_of_mem hc

inductive Value.HasChild (v : Value) : Schema → Branch → Prop
  | item {elements : SchemaRef} {items : List Value} {c : Value × Nat} (value : v = .list items)
    (mem : c ∈ items.zipIdx) : HasChild v (.list elements) ⟨.index c.2, c.1, elements⟩
  | entry {elements : SchemaRef} {validKeys : Option Pattern} {entries : Entries Value}
    {e : String × Value} (value : v.keyed? = some entries) (mem : e ∈ entries) :
    HasChild v (.index elements validKeys) ⟨.key e.1, e.2, elements⟩
  | argument {fields : Fields} {ref : SchemaRef} {entries : Entries Value} {e : String × Value}
    (value : v.keyed? = some entries) (mem : e ∈ entries) (field : fields.get? e.1 = some ref) :
    HasChild v (.args fields) ⟨.key e.1, e.2, ref⟩
  | field {fields : Fields} {ref : SchemaRef} {entries : Entries Value} {e : String × Value}
    (value : v.keyed? = some entries) (mem : e ∈ entries) (field : fields.get? e.1 = some ref) :
    HasChild v (.object fields) ⟨.key e.1, e.2, ref⟩
  | payload {valueField metaField name : String} {strict : Bool} {options : Entries Fields}
    {fields : Fields} {entries : Entries Value} (value : v.keyed? = some entries)
    (discriminant : entries.get? valueField = some (.string name))
    (option : options.get? name = some fields) :
    HasChild v (.enum valueField metaField strict options)
      ⟨.key metaField, payloadOf entries metaField, payloadRef strict fields⟩
  | candidate {allowed : List SchemaRef} {c : SchemaRef × Nat} (mem : c ∈ allowed.zipIdx) :
    HasChild v (.multi allowed) ⟨candidateKey c.2, v, c.1⟩

/-- The children of a value have no other forms. -/
theorem hasChild_of_mem {schema : Schema} {b : Branch} (h : b ∈ v.branches schema) :
    v.HasChild schema b := by
  -- The children are listed by the schema, and come with what they were found by.
  cases schema with
  | freeform | boolean | regex | number | string => cases h
  | list elements =>
    cases v with
    | list items =>
      rcases List.mem_map.mp h with ⟨c, hc, rfl⟩
      exact .item rfl hc
    | _ => exact absurd h List.not_mem_nil
  | index elements validKeys =>
    rcases List.mem_map.mp h with ⟨e, he, rfl⟩
    cases hv : v.keyed? with
    | none => rw [hv] at he; cases he
    | some entries => rw [hv] at he; exact .entry hv he
  | args fields =>
    rcases List.mem_filterMap.mp h with ⟨e, he, hmap⟩
    rcases Option.map_eq_some_iff.1 hmap with ⟨ref, href, rfl⟩
    cases hv : v.keyed? with
    | none => rw [hv] at he; cases he
    | some entries => rw [hv] at he; exact .argument hv he href
  | object fields =>
    rcases List.mem_filterMap.mp h with ⟨e, he, hmap⟩
    rcases Option.map_eq_some_iff.1 hmap with ⟨ref, href, rfl⟩
    cases hv : v.keyed? with
    | none => rw [hv] at he; cases he
    | some entries => rw [hv] at he; exact .field hv he href
  | enum valueField metaField strict options =>
    rw [Value.branches] at h
    split at h
    · exact absurd h List.not_mem_nil
    · rename_i entries hv
      split at h
      · exact absurd h List.not_mem_nil
      · rename_i name fields hselect
        rcases Option.bind_eq_some_iff.1 hselect with ⟨discriminant, hd, hoption⟩
        rcases selection?_eq_some.mp hoption with ⟨rfl, hfields⟩
        rw [List.mem_singleton.mp h]
        exact .payload hv hd hfields
  | multi allowed =>
    rcases List.mem_map.mp h with ⟨c, hc, rfl⟩
    exact .candidate hc

end Branches

/-- The reports of all children, whether they are asked for or not. -/
abbrev Reports := PathSegment → Value → SchemaRef → Report

def reportsOf (descend : Descent) : Reports := fun step v ref =>
  match descend step v ref with
  | .ok r => r
  | .error _ => {}

def follow (descend : Descent) (b : Branch) : Except DepthExceeded Report :=
  descend b.step b.value b.ref

def Branch.report (b : Branch) (D : Reports) : Report := D b.step b.value b.ref

theorem descend_eq_map (descend : Descent) (step : PathSegment) (v : Value) (ref : SchemaRef) :
    descend step v ref = (descend step v ref).map fun _ => reportsOf descend step v ref := by
  unfold reportsOf
  cases descend step v ref <;> rfl

theorem reportsOf_of_ok {descend : Descent} {step : PathSegment} {v : Value} {ref : SchemaRef}
    {r : Report} (h : descend step v ref = .ok r) : reportsOf descend step v ref = r := by
  unfold reportsOf
  rw [h]

/-! ## 2. The report of a node from those of its children -/

namespace Node

def fieldsReport (node : Node) (D : Reports) (required : Bool) (fields : Fields) : Report :=
  match node.value.keyed? with
  | none => node.reject .unableToCoerce
  | some entries =>
    let children : List (String × Option Report) := entries.map fun e =>
      (e.1, (fields.get? e.1).map (D (.key e.1) e.2))
    { sanitized := some <| .map <| children.filterMap fun (key, r) =>
        r.map fun r => (key, r.placeholder)
      errors :=
        (children.flatMap fun (_, r) => (r.map Report.errors).getD []) ++
          if required then node.missingFields fields entries else []
      warnings := children.flatMap node.fieldWarnings }

def choice (node : Node) (candidates : List Report) : Report :=
  -- The best one has the fewest errors: where it is rejected, all are.
  match (Report.best? candidates).filter Report.isOk with
  | some winner => winner
  | none =>
    { errors := node.diagnose .noOptionsMatched :: candidates.flatMap Report.errors
      warnings := candidates.flatMap Report.warnings }

def report (node : Node) (ctx : Context) (D : Reports) : Schema → Report
  | .freeform => node.accept node.value
  | .boolean => node.boolean
  | .regex => node.regex ctx.options
  | .number rules => node.number rules
  | .string rules => node.string ctx rules
  | .index elements validKeys =>
    match node.value.keyed? with
    | none => node.reject .unableToCoerce
    | some entries =>
      let children := entries.map fun e => (e.1, D (.key e.1) e.2 elements)
      { sanitized := some (.map (children.map fun (key, r) => (key, r.placeholder)))
        errors := children.flatMap (node.entryErrors validKeys)
        warnings := node.listWarnings ++ children.flatMap fun (_, r) => r.warnings }
  | .list elements =>
    match node.value with
    | .list items =>
      let children := items.zipIdx.map fun c => D (.index c.2) c.1 elements
      { sanitized := some (.list (children.map Report.placeholder))
        errors := children.flatMap Report.errors
        warnings := children.flatMap Report.warnings }
    | _ => node.reject .unableToCoerce
  | .args fields => node.fieldsReport D false fields
  | .object fields => node.fieldsReport D true fields
  | .enum valueField metaField strict options =>
    match node.value.keyed? with
    | none => node.reject .unableToCoerce
    | some entries =>
      match entries.get? valueField with
      | none => node.reject (.missingValueField valueField)
      | some discriminant =>
        match selection? options discriminant with
        | none => node.reject (.notAllowed discriminant.toText)
        | some (name, fields) =>
          let r := D (.key metaField) (payloadOf entries metaField) (payloadRef strict fields)
          { r with
            sanitized := some <| .map <|
              Entries.ofList [(valueField, .string name), (metaField, r.placeholder)] }
  | .multi allowed =>
    node.choice (allowed.zipIdx.map fun c => D (candidateKey c.2) node.value c.1)

/-- A list walks down its items and makes its report of theirs. -/
theorem list_eq (node : Node) (ctx : Context) (descend : Descent) (elements : SchemaRef) :
    node.list descend elements =
      ((node.value.branches (.list elements)).mapM (follow descend)).map fun _ =>
        node.report ctx (reportsOf descend) (.list elements) := by
  unfold Node.list Value.branches report
  cases node.value with
  | list items =>
    exact mapM_map_map items.zipIdx (fun c => descend (.index c.2) c.1 elements)
      (fun c => reportsOf descend (.index c.2) c.1 elements) _ _
      (fun c => descend_eq_map descend _ _ _) _
  | _ => rfl

theorem index_eq (node : Node) (ctx : Context) (descend : Descent) (elements : SchemaRef)
    (validKeys : Option Pattern) :
    node.index descend elements validKeys =
      ((node.value.branches (.index elements validKeys)).mapM (follow descend)).map fun _ =>
        node.report ctx (reportsOf descend) (.index elements validKeys) := by
  unfold Node.index Value.branches report
  cases node.value.keyed? with
  | none => rfl
  | some entries =>
    refine mapM_map_map entries (fun e => do .ok (e.1, ← descend (.key e.1) e.2 elements))
      (fun e => (e.1, reportsOf descend (.key e.1) e.2 elements)) _ _ ?_ _
    intro e
    unfold reportsOf follow
    cases descend (.key e.1) e.2 elements <;> rfl

/-- A mapping with declared fields walks down these only. -/
theorem fields_eq (node : Node) (descend : Descent) (required : Bool) (fields : Fields) :
    node.fields descend required fields =
      ((node.value.branches (.args fields)).mapM (follow descend)).map fun _ =>
        node.fieldsReport (reportsOf descend) required fields := by
  unfold Node.fields Value.branches fieldsReport
  cases node.value.keyed? with
  | none => rfl
  | some entries =>
    refine mapM_map_filterMap entries (visitField descend fields)
      (fun e => (e.1, (fields.get? e.1).map (reportsOf descend (.key e.1) e.2))) _ _ ?_ _
    intro e
    unfold visitField
    cases fields.get? e.1 with
    | none => rfl
    | some ref =>
      simp only [Option.map_some, follow]
      unfold reportsOf
      cases descend (.key e.1) e.2 ref <;> rfl

/-- An enum walks down its payload, if its discriminant names an option. -/
theorem enum_eq (node : Node) (ctx : Context) (descend : Descent) (valueField metaField : String)
    (strict : Bool) (options : Entries Fields) :
    node.enum descend valueField metaField strict options =
      ((node.value.branches (.enum valueField metaField strict options)).mapM
        (follow descend)).map fun _ =>
          node.report ctx (reportsOf descend) (.enum valueField metaField strict options) := by
  unfold Node.enum Value.branches report
  cases node.value.keyed? with
  | none => rfl
  | some entries =>
    dsimp only
    cases entries.get? valueField with
    | none => rfl
    | some discriminant =>
      dsimp only [Option.bind_some]
      unfold selection?
      cases discriminant.string?.bind fun name => (options.get? name).map ((name, ·)) with
      | none => rfl
      | some option =>
        rcases option with ⟨name, fields⟩
        -- An enum has one child at most, so both traversals come down to one descent.
        rw [List.mapM_cons, List.mapM_nil]
        unfold follow reportsOf
        dsimp only [payloadOf, payloadRef]
        cases descend _ _ _ <;> rfl

theorem multi_eq (node : Node) (ctx : Context) (descend : Descent) (allowed : List SchemaRef) :
    node.multi descend allowed =
      ((node.value.branches (.multi allowed)).mapM (follow descend)).map fun _ =>
        node.report ctx (reportsOf descend) (.multi allowed) := by
  have hmap := mapM_map_map allowed.zipIdx (fun c => descend (candidateKey c.2) node.value c.1)
    (fun c => reportsOf descend (candidateKey c.2) node.value c.1)
    (fun c => ⟨candidateKey c.2, node.value, c.1⟩) (follow descend)
    (fun c => descend_eq_map descend _ _ _) node.choice
  -- What is left is the choice itself, which `report` makes of the list as a whole.
  refine Eq.trans ?_ hmap
  unfold Node.multi choice
  cases allowed.zipIdx.mapM fun c => descend (candidateKey c.2) node.value c.1 with
  | error e => rfl
  | ok candidates =>
    dsimp only [bind, Except.bind, Except.map]
    cases (Report.best? candidates).filter Report.isOk <;> rfl

/-- A visit fails as the first of its children that fails, and otherwise is what the handler makes
of their reports. -/
theorem visit_eq (node : Node) (ctx : Context) (descend : Descent) (schema : Schema) :
    node.visit ctx descend schema =
      ((node.value.branches schema).mapM (follow descend)).map fun _ =>
        node.report ctx (reportsOf descend) schema := by
  cases schema with
  | list elements => exact node.list_eq ctx descend elements
  | index elements validKeys => exact node.index_eq ctx descend elements validKeys
  | args fields => exact node.fields_eq descend false fields
  | object fields => exact node.fields_eq descend true fields
  | enum valueField metaField strict options =>
    exact node.enum_eq ctx descend valueField metaField strict options
  | multi allowed => exact node.multi_eq ctx descend allowed
  | freeform | boolean | regex | number | string => rfl

theorem fieldsReport_congr {node : Node} {D D' : Reports} {fields : Fields} (required : Bool)
    (h : ∀ b ∈ node.value.branches (.args fields), b.report D = b.report D') :
    node.fieldsReport D required fields = node.fieldsReport D' required fields := by
  unfold fieldsReport
  cases hv : node.value.keyed? with
  | none => rfl
  | some entries =>
    have hchildren : (entries.map fun e => (e.1, (fields.get? e.1).map (D (.key e.1) e.2))) =
        entries.map fun e => (e.1, (fields.get? e.1).map (D' (.key e.1) e.2)) := by
      refine List.map_congr_left fun e he => ?_
      cases hfield : fields.get? e.1 with
      | none => rfl
      | some ref => exact congrArg (fun r => (e.1, some r)) (h _ (field_mem_branches hv he hfield))
    dsimp only
    rw [hchildren]

/-- Of the reports below it, those of its children alone count for a node. -/
theorem report_congr {node : Node} {D D' : Reports} {schema : Schema} (ctx : Context)
    (h : ∀ b ∈ node.value.branches schema, b.report D = b.report D') :
    node.report ctx D schema = node.report ctx D' schema := by
  -- Each handler asks for the reports of the children that the schema has, and for no others.
  cases schema with
  | freeform | boolean | regex | number | string => rfl
  | list elements =>
    unfold report
    cases hv : node.value with
    | list items =>
      have hchildren : (items.zipIdx.map fun c => D (.index c.2) c.1 elements) =
          items.zipIdx.map fun c => D' (.index c.2) c.1 elements :=
        List.map_congr_left fun c hc => h _ (item_mem_branches hv hc elements)
      dsimp only
      rw [hchildren]
    | _ => rfl
  | index elements validKeys =>
    unfold report
    cases hv : node.value.keyed? with
    | none => rfl
    | some entries =>
      have hchildren : (entries.map fun e => (e.1, D (.key e.1) e.2 elements)) =
          entries.map fun e => (e.1, D' (.key e.1) e.2 elements) :=
        List.map_congr_left fun e he =>
          congrArg (e.1, ·) (h _ (entry_mem_branches hv he elements validKeys))
      dsimp only
      rw [hchildren]
  | args fields => exact fieldsReport_congr false h
  | object fields => exact fieldsReport_congr true h
  | enum valueField metaField strict options =>
    unfold report
    cases hv : node.value.keyed? with
    | none => rfl
    | some entries =>
      dsimp only
      cases hd : entries.get? valueField with
      | none => rfl
      | some discriminant =>
        dsimp only
        cases hs : selection? options discriminant with
        | none => rfl
        | some option =>
          rcases option with ⟨name, fields⟩
          rcases selection?_eq_some.mp hs with ⟨rfl, hfields⟩
          have hchild : D (.key metaField) (payloadOf entries metaField)
              (payloadRef strict fields) = D' (.key metaField) (payloadOf entries metaField)
                (payloadRef strict fields) :=
            h _ (payload_mem_branches hv hd hfields metaField strict)
          dsimp only
          rw [hchild]
  | multi allowed =>
    have hcandidates : (allowed.zipIdx.map fun c => D (candidateKey c.2) node.value c.1) =
        allowed.zipIdx.map fun c => D' (candidateKey c.2) node.value c.1 :=
      List.map_congr_left fun c hc => h _ (candidate_mem_branches hc node.value)
    exact congrArg node.choice hcandidates

end Node

/-! ## 3. Completed walks -/

variable {ctx : Context} {levels : Nat} {path : Path} {v : Value} {ref : SchemaRef}
  {schema : Schema} {r : Report}

def below (ctx : Context) (levels : Nat) (path : Path) : Descent := fun step child ref =>
  walk ctx levels (path ++ [step]) child ref

def nodeAt (path : Path) (v : Value) (schema : Schema) : Node :=
  ⟨v.represented, .inline schema, path⟩

/-- A reference that means nothing is an error of the node. -/
theorem walk_of_unresolved (h : ctx.schemas.resolve? ref = none) :
    walk ctx (levels + 1) path v ref =
      .ok (Node.reject ⟨v.represented, ref, path⟩ (.unknownSchema ref.label)) := by
  unfold walk
  rw [h]

/-- A walk goes down the children of the represented value, and makes its report of theirs. -/
theorem walk_of_resolved (h : ctx.schemas.resolve? ref = some schema) :
    walk ctx (levels + 1) path v ref =
      ((v.represented.branches schema).mapM (follow (below ctx levels path))).map fun _ =>
        ((nodeAt path v schema).report ctx (reportsOf (below ctx levels path)) schema).close := by
  unfold walk
  rw [h]
  have hvisit := (nodeAt path v schema).visit_eq ctx (below ctx levels path) schema
  change ((nodeAt path v schema).visit ctx (below ctx levels path) schema).map Report.close = _
  rw [hvisit]
  change (((v.represented.branches schema).mapM (follow (below ctx levels path))).map _).map _ = _
  cases (v.represented.branches schema).mapM (follow (below ctx levels path)) <;> rfl

/-- A walk completes when it completes below every branch of its first node. -/
theorem walk_completes_iff (h : ctx.schemas.resolve? ref = some schema) :
    (∃ r, walk ctx (levels + 1) path v ref = .ok r) ↔
      ∀ b ∈ v.represented.branches schema,
        ∃ r, walk ctx levels (path ++ [b.step]) b.value b.ref = .ok r := by
  rw [walk_of_resolved h]
  refine Iff.trans ?_ (mapM_eq_ok_iff _ (follow (below ctx levels path)))
  cases (v.represented.branches schema).mapM (follow (below ctx levels path)) <;>
    simp [Except.map]

/-- The reports below a completed walk are those of completed walks. -/
theorem walk_below (h : walk ctx (levels + 1) path v ref = .ok r)
    (hschema : ctx.schemas.resolve? ref = some schema) :
    ∀ b ∈ v.represented.branches schema, walk ctx levels (path ++ [b.step]) b.value b.ref =
      .ok (b.report (reportsOf (below ctx levels path))) := by
  intro b hb
  rcases (walk_completes_iff hschema).mp ⟨r, h⟩ b hb with ⟨s, hs⟩
  have hr : b.report (reportsOf (below ctx levels path)) = s := reportsOf_of_ok hs
  rw [hr, hs]

/-- A completed walk is what the handler of its first node makes of completed walks below it. -/
theorem walk_inv (h : walk ctx (levels + 1) path v ref = .ok r)
    (hschema : ctx.schemas.resolve? ref = some schema) :
    ∃ D : Reports,
      (∀ b ∈ v.represented.branches schema,
        walk ctx levels (path ++ [b.step]) b.value b.ref = .ok (b.report D)) ∧
      r = ((nodeAt path v schema).report ctx D schema).close := by
  refine ⟨reportsOf (below ctx levels path), walk_below h hschema, ?_⟩
  rw [walk_of_resolved hschema] at h
  cases hm : (v.represented.branches schema).mapM (follow (below ctx levels path)) with
  | error e => rw [hm] at h; cases h
  | ok rs => rw [hm] at h; exact (Except.ok.inj h).symm

/-- Where the walks below a node complete, its own walk is what the handler makes of them. -/
theorem walk_of_below {D : Reports} (hschema : ctx.schemas.resolve? ref = some schema)
    (hD : ∀ b ∈ v.represented.branches schema,
      walk ctx levels (path ++ [b.step]) b.value b.ref = .ok (b.report D)) :
    walk ctx (levels + 1) path v ref = .ok ((nodeAt path v schema).report ctx D schema).close := by
  rcases (walk_completes_iff hschema).mpr fun b hb => ⟨_, hD b hb⟩ with ⟨r, hr⟩
  rcases walk_inv hr hschema with ⟨D', hD', rfl⟩
  have hbranches : ∀ b ∈ (nodeAt path v schema).value.branches schema, b.report D' = b.report D :=
    fun b hb => Except.ok.inj ((hD' b hb).symm.trans (hD b hb))
  rw [hr, Node.report_congr ctx hbranches]

/-- What holds of unknown schemas, and of a node when it holds of its branches, holds of every
completed walk. -/
theorem walk_induction {P : Nat → Path → Value → SchemaRef → Report → Prop}
    (unresolved : ∀ levels path v ref, ctx.schemas.resolve? ref = none →
      P (levels + 1) path v ref (Node.reject ⟨v.represented, ref, path⟩ (.unknownSchema ref.label)))
    (resolved : ∀ levels path v ref schema D, ctx.schemas.resolve? ref = some schema →
      (∀ b ∈ v.represented.branches schema,
        P levels (path ++ [b.step]) b.value b.ref (b.report D)) →
      P (levels + 1) path v ref ((nodeAt path v schema).report ctx D schema).close) :
    ∀ levels path v ref r, walk ctx levels path v ref = .ok r → P levels path v ref r := by
  -- The induction is on the levels that are left: a cyclic schema has no size to go by.
  intro levels
  induction levels with
  | zero => intro path v ref r h; cases h
  | succ levels ih =>
    intro path v ref r h
    cases hschema : ctx.schemas.resolve? ref with
    | none =>
      rw [walk_of_unresolved hschema] at h
      cases h
      exact unresolved levels path v ref hschema
    | some schema =>
      rcases walk_inv h hschema with ⟨D, hD, rfl⟩
      exact resolved levels path v ref schema D hschema fun b hb => ih _ _ _ _ (hD b hb)

end Conform
