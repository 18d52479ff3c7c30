import Conform.Proofs.Logs

/-!
# Relocation — the same validation at another place

Diagnostics tell the schema and the path of the node that they are about.  Neither has a part in
what a node reports beside that: with other schemas and paths told, a report is the same
(`Node.report_relabel`).  So a walk at the end of a longer path fails at the same node or gives the
same report, seen from further up (`walk_under`).
-/

namespace Conform

/-! ## 1. Relabelled reports -/

/-- Other schemas and paths for diagnostics to tell. -/
structure Relabelling where
  schema : SchemaRef → SchemaRef
  path : Path → Path

section Relabelled

variable (l : Relabelling) {node : Node} {ctx : Context} {D : Reports}

def Diagnostic.relabel (d : Diagnostic) : Diagnostic :=
  { d with schema := l.schema d.schema, path := l.path d.path }

def Report.relabel (r : Report) : Report :=
  { r with
    errors := r.errors.map (Diagnostic.relabel l)
    warnings := r.warnings.map (Diagnostic.relabel l) }

def Node.relabel (node : Node) : Node :=
  { node with schema := l.schema node.schema, path := l.path node.path }

def Reports.relabel (D : Reports) : Reports := fun step v ref => (D step v ref).relabel l

/-- Relabelling changes no verdict. -/
theorem Report.relabel_isOk (r : Report) : (r.relabel l).isOk = r.isOk := List.isEmpty_map

theorem Report.relabel_close (r : Report) : r.close.relabel l = (r.relabel l).close := by
  obtain ⟨sanitized, errors, warnings⟩ := r
  cases errors <;> rfl

theorem Node.relabel_value : (node.relabel l).value = node.value := rfl

theorem Node.relabel_check (conditions : List (Bool × Finding)) (r : Report) :
    (node.check conditions r).relabel l = (node.relabel l).check conditions (r.relabel l) := by
  unfold check Report.relabel
  dsimp only
  rw [List.map_append, List.map_map]
  rfl

theorem Node.relabel_boolean : node.boolean.relabel l = (node.relabel l).boolean := by
  unfold boolean
  dsimp only [relabel]
  split <;> rfl

theorem Node.relabel_regex (options : Options) :
    (node.regex options).relabel l = (node.relabel l).regex options := by
  unfold regex
  dsimp only [relabel]
  split
  · rfl
  · split <;> rfl
  · rfl

theorem Node.relabel_number (rules : NumberRules) :
    (node.number rules).relabel l = (node.relabel l).number rules := by
  have hwarnings : (if node.value.number?.isSome then [] else
      [node.diagnose .typeCoercion]).map (Diagnostic.relabel l) =
        if node.value.number?.isSome then [] else [(node.relabel l).diagnose .typeCoercion] := by
    split <;> rfl
  unfold number
  rw [relabel_value]
  cases coerceNumber? node.value with
  | none => exact congrArg (Report.mk none [_]) hwarnings
  | some n =>
    dsimp only
    rw [relabel_check]
    exact congrArg (fun ws => (node.relabel l).check _ (Report.mk _ [] ws)) hwarnings

theorem Node.relabel_string (rules : StringRules) :
    (node.string ctx rules).relabel l = (node.relabel l).string ctx rules := by
  unfold string
  rw [relabel_value]
  cases coerceString? node.value with
  | none => rfl
  | some found =>
    dsimp only
    rw [relabel_check]
    cases found.2 <;> rfl

theorem Node.relabel_list (elements : SchemaRef) :
    (node.report ctx D (.list elements)).relabel l =
      (node.relabel l).report ctx (D.relabel l) (.list elements) := by
  cases hv : node.value with
  | list items =>
    have hv' : (node.relabel l).value = .list items := hv
    rw [report_list hv, report_list hv']
    unfold Report.relabel
    dsimp only
    rw [List.map_flatMap, List.map_flatMap]
    rfl
  | _ =>
    unfold report
    rw [relabel_value, hv]
    rfl

theorem Node.relabel_index (elements : SchemaRef) (validKeys : Option Pattern) :
    (node.report ctx D (.index elements validKeys)).relabel l =
      (node.relabel l).report ctx (D.relabel l) (.index elements validKeys) := by
  have hlist : node.listWarnings.map (Diagnostic.relabel l) = (node.relabel l).listWarnings := by
    unfold listWarnings
    rw [relabel_value]
    split <;> rfl
  have hentry (e : String × Report) : (node.entryErrors validKeys e).map (Diagnostic.relabel l) =
      (node.relabel l).entryErrors validKeys (e.1, e.2.relabel l) := by
    unfold entryErrors
    split <;> rfl
  cases hv : node.value.keyed? with
  | none =>
    unfold report
    rw [relabel_value, hv]
    rfl
  | some entries =>
    have hv' : (node.relabel l).value.keyed? = some entries := hv
    rw [report_index hv, report_index hv']
    unfold Report.relabel
    dsimp only
    rw [List.map_append, List.map_flatMap, List.map_flatMap, hlist]
    simp only [hentry]
    rfl

/-- Declared fields are judged as before under other labels. -/
theorem Node.relabel_fieldsReport (required : Bool) (fields : Fields) :
    (node.fieldsReport D required fields).relabel l =
      (node.relabel l).fieldsReport (D.relabel l) required fields := by
  cases hv : node.value.keyed? with
  | none =>
    unfold fieldsReport
    rw [relabel_value, hv]
    rfl
  | some entries =>
    have hmissing : (if required then node.missingFields fields entries else []).map
        (Diagnostic.relabel l) =
          if required then (node.relabel l).missingFields fields entries else [] := by
      split
      · unfold missingFields
        rw [List.map_map]
        rfl
      · rfl
    have hkept : keptFields (D.relabel l) fields entries = keptFields D fields entries := rfl
    have hv' : (node.relabel l).value.keyed? = some entries := hv
    rw [fieldsReport_eq hv, fieldsReport_eq hv', hkept]
    unfold Report.relabel entryWarnings
    dsimp only
    rw [List.map_append, hmissing, List.map_flatMap, List.map_flatMap]
    congr 2
    funext e
    cases fields.get? e.1 <;> rfl

/-- An enum is judged as before under other labels. -/
theorem Node.relabel_enum (valueField metaField : String) (strict : Bool)
    (options : Entries Fields) :
    (node.report ctx D (.enum valueField metaField strict options)).relabel l =
      (node.relabel l).report ctx (D.relabel l) (.enum valueField metaField strict options) := by
  unfold report
  rw [relabel_value]
  cases node.value.keyed? with
  | none => rfl
  | some entries =>
    dsimp only
    cases entries.get? valueField with
    | none => rfl
    | some discriminant =>
      dsimp only
      cases selection? options discriminant <;> rfl

theorem Report.winner?_map_relabel (candidates : List Report) :
    winner? (candidates.map (relabel l)) = (winner? candidates).map (relabel l) := by
  have hok : isOk ∘ relabel l = isOk := by
    funext r
    exact r.relabel_isOk l
  unfold winner?
  rw [List.filter_map, minOn?_map, hok]
  simp only [relabel, List.length_map]

/-- A choice falls as before under other labels. -/
theorem Node.relabel_choice (candidates : List Report) :
    (node.choice candidates).relabel l =
      (node.relabel l).choice (candidates.map (Report.relabel l)) := by
  unfold choice
  rw [Report.best?_filter_isOk, Report.best?_filter_isOk, Report.winner?_map_relabel]
  cases Report.winner? candidates with
  | some winner => rfl
  | none =>
    dsimp only [Option.map_none]
    unfold Report.relabel
    dsimp only
    rw [List.map_cons, List.map_flatMap, List.map_flatMap, List.flatMap_map, List.flatMap_map]
    rfl

/-- The schema and the path of a node have no part in its report but in the diagnostics. -/
theorem Node.report_relabel (schema : Schema) :
    (node.report ctx D schema).relabel l =
      (node.relabel l).report ctx (D.relabel l) schema := by
  cases schema with
  | freeform => rfl
  | boolean => exact relabel_boolean l
  | regex => exact relabel_regex l ctx.options
  | number rules => exact relabel_number l rules
  | string rules => exact relabel_string l rules
  | list elements => exact relabel_list l elements
  | index elements validKeys => exact relabel_index l elements validKeys
  | args fields => exact relabel_fieldsReport l false fields
  | object fields => exact relabel_fieldsReport l true fields
  | enum valueField metaField strict options =>
    exact relabel_enum l valueField metaField strict options
  | multi allowed =>
    change (node.choice _).relabel l = _
    rw [relabel_choice, List.map_map]
    rfl

theorem reportsOf_relabel (descend : Descent) (step : PathSegment) (v : Value) (ref : SchemaRef) :
    (reportsOf descend).relabel l step v ref =
      match (descend step v ref).map (Report.relabel l) with
      | .ok r => r
      | .error _ => {} := by
  unfold Reports.relabel reportsOf
  cases descend step v ref <;> rfl

end Relabelled

/-! ## 2. Walks under a longer path -/

def Report.under (front : Path) : Report → Report := Report.relabel ⟨id, (front ++ ·)⟩

def DepthExceeded.under (front : Path) (e : DepthExceeded) : DepthExceeded :=
  { e with path := front ++ e.path }

def seenFrom (front : Path) (x : Except DepthExceeded Report) : Except DepthExceeded Report :=
  (x.map (Report.under front)).mapError (DepthExceeded.under front)

/-- Walks that agree from further up agree as a whole. -/
theorem mapM_seenFrom {α : Type} {front : Path} {f f' : α → Except DepthExceeded Report}
    (l : List α) (h : ∀ a, f' a = seenFrom front (f a)) {ρ : Type} (c : ρ) :
    ((l.mapM f').map fun _ => c) =
      ((l.mapM f).map fun _ => c).mapError (DepthExceeded.under front) := by
  induction l with
  | nil => rfl
  | cons a rest ih =>
    rw [List.mapM_cons, List.mapM_cons, h a]
    cases f a with
    | error e => rfl
    | ok r =>
      cases hf : rest.mapM f <;> cases hf' : rest.mapM f' <;> rw [hf, hf'] at ih
      · exact ih
      · cases ih
      · cases ih
      · rfl

/-- At the end of a longer path a walk fails at the same node or has the same report, seen from
further up. -/
theorem walk_under (ctx : Context) (levels : Nat) (front path : Path) (v : Value)
    (ref : SchemaRef) :
    walk ctx levels (front ++ path) v ref = seenFrom front (walk ctx levels path v ref) := by
  induction levels generalizing path v ref with
  | zero => rfl
  | succ levels ih =>
    cases hschema : ctx.schemas.resolve? ref with
    | none =>
      rw [walk_of_unresolved hschema, walk_of_unresolved hschema]
      rfl
    | some schema =>
      have hbelow (step : PathSegment) (v : Value) (ref : SchemaRef) :
          below ctx levels (front ++ path) step v ref =
            seenFrom front (below ctx levels path step v ref) := by
        unfold below
        rw [List.append_assoc, ih]
      have hreports : reportsOf (below ctx levels (front ++ path)) =
          (reportsOf (below ctx levels path)).relabel ⟨id, (front ++ ·)⟩ := by
        funext step v ref
        rw [reportsOf_relabel]
        unfold reportsOf
        rw [hbelow]
        cases below ctx levels path step v ref <;> rfl
      have hfollow (b : Branch) : follow (below ctx levels (front ++ path)) b =
          seenFrom front (follow (below ctx levels path) b) := hbelow b.step b.value b.ref
      have hnode : nodeAt (front ++ path) v schema =
          (nodeAt path v schema).relabel ⟨id, (front ++ ·)⟩ := rfl
      rw [walk_of_resolved hschema, walk_of_resolved hschema, hreports, hnode,
        ← Node.report_relabel, ← Report.relabel_close,
        mapM_seenFrom _ hfollow]
      cases (v.represented.branches schema).mapM (follow (below ctx levels path)) <;> rfl

/-- What completes at one place completes at every place, and reports the same but for the paths. -/
theorem walk_elsewhere {ctx : Context} {levels : Nat} {path : Path} {v : Value} {ref : SchemaRef}
    {r : Report} (h : walk ctx levels path v ref = .ok r) :
    ∃ s : Report, r = s.under path ∧
      ∀ other, walk ctx levels other v ref = .ok (s.under other) := by
  have hpath := walk_under ctx levels path [] v ref
  rw [List.append_nil, h] at hpath
  cases hroot : walk ctx levels [] v ref with
  | error e =>
    rw [hroot] at hpath
    cases hpath
  | ok s =>
    rw [hroot] at hpath
    refine ⟨s, Except.ok.inj hpath, fun other => ?_⟩
    have hother := walk_under ctx levels other [] v ref
    rw [List.append_nil, hroot] at hother
    exact hother

end Conform
