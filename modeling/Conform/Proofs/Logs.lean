import Conform.Proofs.Acceptance

/-!
# Logs — where the diagnostics of a report come from

Every node has an agenda: the diagnostics of its own and the children that it visits, in the order
in which they are reported.  The log of a place is its agenda with the logs of the children in their
places; only where a choice has a candidate without errors, the log is that of the winner.  The
errors and the warnings of a report are the log of its place, and nothing else is
(`validate_logs`).
-/

namespace Conform

/-! ## 1. Logs -/

/-- Errors and warnings, each in the order in which they are reported. -/
structure Log where
  errors : List Diagnostic
  warnings : List Diagnostic

def Report.log (r : Report) : Log := ⟨r.errors, r.warnings⟩

/-- Withholding the sanitized value does not change the log. -/
theorem Report.close_log (r : Report) : r.close.log = r.log := by
  unfold close
  split <;> rfl

def Log.winner? (logs : List Log) : Option Log :=
  (logs.filter (·.errors.isEmpty)).minOn? (·.warnings.length)

theorem minOn?_map {α β : Type} (f : α → β) (cost : β → Nat) (xs : List α) :
    (xs.map f).minOn? cost = (xs.minOn? fun a => cost (f a)).map f := by
  cases xs with
  | nil => rfl
  | cons x xs =>
    have hmin (a b : α) : minOn cost (f a) (f b) = f (minOn (fun a => cost (f a)) a b) := by
      unfold minOn
      exact (apply_ite f _ _ _).symm
    change some ((xs.map f).foldl (minOn cost) (f x)) = some (f (xs.foldl _ x))
    rw [List.foldl_map]
    exact congrArg some (List.foldl_hom f fun a b => hmin a b)

theorem Log.winner?_map_log (candidates : List Report) :
    winner? (candidates.map Report.log) = (Report.winner? candidates).map Report.log := by
  unfold winner? Report.winner?
  rw [List.filter_map, minOn?_map]
  rfl

/-! ## 2. Agendas -/

/-- What a node does for its log: it reports an error or a warning of its own or visits a child. -/
inductive Act where
  | error (d : Diagnostic)
  | warning (d : Diagnostic)
  | visit (b : Branch)

namespace Act

def branch? : Act → Option Branch
  | .visit b => some b
  | _ => none

def errors (logs : Branch → Log) : Act → List Diagnostic
  | .error d => [d]
  | .warning _ => []
  | .visit b => (logs b).errors

def warnings (logs : Branch → Log) : Act → List Diagnostic
  | .error _ => []
  | .warning d => [d]
  | .visit b => (logs b).warnings

end Act

def Log.ofActs (acts : List Act) (logs : Branch → Log) : Log :=
  ⟨acts.flatMap (Act.errors logs), acts.flatMap (Act.warnings logs)⟩

def Report.acts (r : Report) : List Act := r.errors.map .error ++ r.warnings.map .warning

namespace Node

def missingActs (node : Node) (fields : Fields) (entries : Entries Value) : List Act :=
  (fields.keys.filter fun key => !entries.contains key).map fun key =>
    .error (node.diagnose (.missingField key))

def coercionActs (node : Node) : List Act :=
  match node.value with
  | .list (_ :: _) => [.warning (node.diagnose .typeCoercion)]
  | _ => []

def fieldsAgenda (node : Node) (required : Bool) (fields : Fields) : List Act :=
  match node.value.keyed? with
  | none => [.error (node.diagnose .unableToCoerce)]
  | some entries =>
    (entries.map fun e =>
      match fields.get? e.1 with
      | some ref => .visit ⟨.key e.1, e.2, ref⟩
      | none => .warning (node.diagnose (.extraKey e.1))) ++
    if required then node.missingActs fields entries else []

/-- What a node does for its log, in order. Of a choice it is what is done when no candidate wins. -/
def agenda (node : Node) (ctx : Context) : Schema → List Act
  | .freeform => []
  | .boolean => node.boolean.acts
  | .regex => (node.regex ctx.options).acts
  | .number rules => (node.number rules).acts
  | .string rules => (node.string ctx rules).acts
  | .list elements =>
    match node.value with
    | .list items => items.zipIdx.map fun c => .visit ⟨.index c.2, c.1, elements⟩
    | _ => [.error (node.diagnose .unableToCoerce)]
  | .index elements validKeys =>
    match node.value.keyed? with
    | none => [.error (node.diagnose .unableToCoerce)]
    | some entries =>
      node.coercionActs ++ entries.flatMap fun e =>
        if validKeys.any fun p => !p.isMatch e.1 then
          [.error (node.diagnose (.invalidKey e.1)), .visit ⟨.key e.1, e.2, elements⟩]
        else [.visit ⟨.key e.1, e.2, elements⟩]
  | .args fields => node.fieldsAgenda false fields
  | .object fields => node.fieldsAgenda true fields
  | .enum valueField metaField strict options =>
    match node.value.keyed? with
    | none => [.error (node.diagnose .unableToCoerce)]
    | some entries =>
      match entries.get? valueField with
      | none => [.error (node.diagnose (.missingValueField valueField))]
      | some discriminant =>
        match selection? options discriminant with
        | none => [.error (node.diagnose (.notAllowed discriminant.toText))]
        | some (_, fields) =>
          [.visit ⟨.key metaField, payloadOf entries metaField, payloadRef strict fields⟩]
  | .multi allowed =>
    .error (node.diagnose .noOptionsMatched) ::
      allowed.zipIdx.map fun c => .visit ⟨candidateKey c.2, node.value, c.1⟩

/-! ## 3. The log of a report -/

section Acts

variable (logs : Branch → Log) (ds : List Diagnostic) (r : Report)

theorem flatMap_errors_error : (ds.map Act.error).flatMap (Act.errors logs) = ds := by
  rw [List.flatMap_map]
  exact List.flatMap_singleton' ds

theorem flatMap_errors_warning : (ds.map Act.warning).flatMap (Act.errors logs) = [] := by
  rw [List.flatMap_eq_nil_iff]
  exact List.forall_mem_map.mpr fun _ _ => rfl

theorem flatMap_warnings_error : (ds.map Act.error).flatMap (Act.warnings logs) = [] := by
  rw [List.flatMap_eq_nil_iff]
  exact List.forall_mem_map.mpr fun _ _ => rfl

theorem flatMap_warnings_warning : (ds.map Act.warning).flatMap (Act.warnings logs) = ds := by
  rw [List.flatMap_map]
  exact List.flatMap_singleton' ds

theorem filterMap_branch?_error : (ds.map Act.error).filterMap Act.branch? = [] := by
  rw [List.filterMap_map]
  exact List.filterMap_eq_nil_iff.mpr fun _ _ => rfl

theorem filterMap_branch?_warning : (ds.map Act.warning).filterMap Act.branch? = [] := by
  rw [List.filterMap_map]
  exact List.filterMap_eq_nil_iff.mpr fun _ _ => rfl

theorem filterMap_branch?_visit {α : Type} (xs : List α) (f : α → Branch) :
    (xs.map fun x => Act.visit (f x)).filterMap Act.branch? = xs.map f := by
  rw [List.filterMap_map]
  exact congrFun List.filterMap_eq_map' xs

theorem ofActs_acts : Log.ofActs r.acts logs = r.log := by
  unfold Log.ofActs Report.acts
  rw [List.flatMap_append, List.flatMap_append, flatMap_errors_error, flatMap_errors_warning,
    flatMap_warnings_error, flatMap_warnings_warning, List.append_nil, List.nil_append]
  rfl

theorem acts_branch? : r.acts.filterMap Act.branch? = [] := by
  unfold Report.acts
  rw [List.filterMap_append, filterMap_branch?_error, filterMap_branch?_warning, List.append_nil]

end Acts

section Children

variable {node : Node} {ctx : Context} {D : Reports} {schema : Schema}

/-- The missing fields are reported one by one. -/
theorem missingActs_eq (fields : Fields) (entries : Entries Value) :
    node.missingActs fields entries = (node.missingFields fields entries).map .error := by
  unfold missingActs missingFields
  rw [List.map_map]
  rfl

theorem coercionActs_eq : node.coercionActs = node.listWarnings.map .warning := by
  unfold coercionActs listWarnings
  cases node.value with
  | list items => cases items <;> rfl
  | _ => rfl

theorem fieldsAgenda_branch? (required : Bool) (fields : Fields) :
    (node.fieldsAgenda required fields).filterMap Act.branch? =
      node.value.branches (.args fields) := by
  unfold fieldsAgenda Value.branches
  cases node.value.keyed? with
  | none => rfl
  | some entries =>
    have hmissing :
        (if required then node.missingActs fields entries else []).filterMap Act.branch? = [] := by
      rw [missingActs_eq]
      split
      · exact filterMap_branch?_error _
      · rfl
    rw [List.filterMap_append, hmissing, List.append_nil, List.filterMap_map, Option.getD_some]
    congr 1
    funext e
    dsimp only [Function.comp]
    cases fields.get? e.1 <;> rfl

/-- The agenda of a node visits every child once, in their order. -/
theorem agenda_branch? (node : Node) (ctx : Context) (schema : Schema) :
    (node.agenda ctx schema).filterMap Act.branch? = node.value.branches schema := by
  -- A leaf visits nothing; other diagnostics than visits are passed over.
  cases schema with
  | freeform => rfl
  | boolean => exact acts_branch? _
  | regex => exact acts_branch? _
  | number rules => exact acts_branch? _
  | string rules => exact acts_branch? _
  | list elements =>
    unfold agenda Value.branches
    cases node.value with
    | list items => exact filterMap_branch?_visit items.zipIdx _
    | _ => rfl
  | index elements validKeys =>
    unfold agenda Value.branches
    cases node.value.keyed? with
    | none => rfl
    | some entries =>
      dsimp only
      rw [coercionActs_eq, List.filterMap_append, filterMap_branch?_warning, List.nil_append,
        List.filterMap_flatMap, List.map_eq_flatMap, Option.getD_some]
      congr 1
      funext e
      split <;> rfl
  | args fields => exact fieldsAgenda_branch? false fields
  | object fields => exact fieldsAgenda_branch? true fields
  | enum valueField metaField strict options =>
    unfold agenda Value.branches
    cases node.value.keyed? with
    | none => rfl
    | some entries =>
      dsimp only
      cases entries.get? valueField with
      | none => rfl
      | some discriminant =>
        dsimp only [Option.bind_some]
        cases selection? options discriminant <;> rfl
  | multi allowed => exact filterMap_branch?_visit allowed.zipIdx _

/-- The agenda visits all children of a node and nothing else. -/
theorem visit_mem_agenda {b : Branch} :
    Act.visit b ∈ node.agenda ctx schema ↔ b ∈ node.value.branches schema := by
  rw [← node.agenda_branch? ctx schema, List.mem_filterMap]
  constructor
  · exact fun h => ⟨_, h, rfl⟩
  · rintro ⟨act, hact, hb⟩
    cases act with
    | visit c => exact Option.some.inj hb ▸ hact
    | _ => cases hb

/-- A mapping with declared fields reports by its agenda. -/
theorem log_fieldsReport (required : Bool) (fields : Fields) :
    (node.fieldsReport D required fields).log =
      Log.ofActs (node.fieldsAgenda required fields) fun b => (b.report D).log := by
  unfold fieldsReport fieldsAgenda
  cases node.value.keyed? with
  | none => rfl
  | some entries =>
    have hmissing : (if required then node.missingActs fields entries else []) =
        (if required then node.missingFields fields entries else []).map Act.error := by
      rw [missingActs_eq]
      split <;> rfl
    unfold Log.ofActs Report.log
    dsimp only
    rw [hmissing, List.flatMap_append, List.flatMap_append, flatMap_errors_error,
      flatMap_warnings_error, List.append_nil, List.flatMap_map, List.flatMap_map, List.flatMap_map,
      List.flatMap_map]
    -- An entry has the errors and warnings of its child, or the one warning of the node.
    congr 3
    · funext e
      cases fields.get? e.1 <;> rfl
    · funext e
      cases fields.get? e.1 <;> rfl

theorem log_index (elements : SchemaRef) (validKeys : Option Pattern) :
    (node.report ctx D (.index elements validKeys)).log =
      Log.ofActs (node.agenda ctx (.index elements validKeys)) fun b => (b.report D).log := by
  cases hv : node.value.keyed? with
  | none =>
    unfold report agenda
    rw [hv]
    rfl
  | some entries =>
    rw [report_index hv]
    unfold agenda Log.ofActs Report.log
    rw [hv]
    dsimp only
    rw [coercionActs_eq, List.flatMap_append, List.flatMap_append, flatMap_errors_warning,
      flatMap_warnings_warning, List.nil_append, List.flatMap_assoc, List.flatMap_assoc]
    congr 2
    · funext e
      unfold entryErrors
      split
      · exact congrArg (_ :: ·) (List.append_nil _).symm
      · exact (List.append_nil _).symm
    · congr 1
      funext e
      split <;> exact (List.append_nil _).symm

theorem log_list (elements : SchemaRef) :
    (node.report ctx D (.list elements)).log =
      Log.ofActs (node.agenda ctx (.list elements)) fun b => (b.report D).log := by
  unfold report agenda Log.ofActs
  cases node.value with
  | list items =>
    dsimp only [Report.log]
    rw [List.flatMap_map, List.flatMap_map, List.flatMap_map, List.flatMap_map]
    rfl
  | _ => rfl

/-- An enum reports by its agenda. -/
theorem log_enum (valueField metaField : String) (strict : Bool) (options : Entries Fields) :
    (node.report ctx D (.enum valueField metaField strict options)).log =
      Log.ofActs (node.agenda ctx (.enum valueField metaField strict options)) fun b =>
        (b.report D).log := by
  unfold report agenda
  cases node.value.keyed? with
  | none => rfl
  | some entries =>
    dsimp only
    cases entries.get? valueField with
    | none => rfl
    | some discriminant =>
      dsimp only
      cases selection? options discriminant with
      | none => rfl
      | some option =>
        unfold Log.ofActs
        rw [List.flatMap_singleton, List.flatMap_singleton]
        rfl

def candidates (node : Node) (D : Reports) (allowed : List SchemaRef) : List Report :=
  allowed.zipIdx.map fun c => D (candidateKey c.2) node.value c.1

/-- A choice without a winner reports that, and all that its candidates report. -/
theorem log_choice {allowed : List SchemaRef}
    (h : Report.winner? (node.candidates D allowed) = none) :
    (node.report ctx D (.multi allowed)).log =
      Log.ofActs (node.agenda ctx (.multi allowed)) fun b => (b.report D).log := by
  change (node.choice (node.candidates D allowed)).log = _
  unfold choice
  rw [Report.best?_filter_isOk, h]
  unfold candidates agenda Log.ofActs Report.log
  dsimp only
  rw [List.flatMap_cons, List.flatMap_cons, List.flatMap_map, List.flatMap_map, List.flatMap_map,
    List.flatMap_map]
  rfl

/-- A choice with a winner is the winner. -/
theorem report_choice {allowed : List SchemaRef} {winner : Report}
    (h : Report.winner? (node.candidates D allowed) = some winner) :
    node.report ctx D (.multi allowed) = winner := node.choice_of_winner h

/-- But for choices, the log of a report is the agenda with the logs of the children. -/
theorem log_report (h : ∀ allowed, schema = .multi allowed →
      Report.winner? (node.candidates D allowed) = none) :
    (node.report ctx D schema).log =
      Log.ofActs (node.agenda ctx schema) fun b => (b.report D).log := by
  cases schema with
  | freeform => rfl
  | boolean => exact (ofActs_acts _ _).symm
  | regex => exact (ofActs_acts _ _).symm
  | number rules => exact (ofActs_acts _ _).symm
  | string rules => exact (ofActs_acts _ _).symm
  | list elements => exact log_list elements
  | index elements validKeys => exact log_index elements validKeys
  | args fields => exact log_fieldsReport false fields
  | object fields => exact log_fieldsReport true fields
  | enum valueField metaField strict options => exact log_enum valueField metaField strict options
  | multi allowed => exact log_choice (h allowed rfl)

end Children

end Node

/-! ## 4. The log of a place -/

def candidateLogs (v : Value) (allowed : List SchemaRef) (logs : Branch → Log) : List Log :=
  allowed.zipIdx.map fun c => logs ⟨candidateKey c.2, v, c.1⟩

/-- `Logs ctx path v ref log`: the log of the value `v` that is held against `ref` at `path`. Every
child that the agenda names has a log of its own, whatever comes of the others. -/
inductive Logs (ctx : Context) : Path → Value → SchemaRef → Log → Prop
  | unresolved {path : Path} {v : Value} {ref : SchemaRef}
    (unresolved : ctx.schemas.resolve? ref = none) :
    Logs ctx path v ref
      ⟨[Node.diagnose ⟨v.represented, ref, path⟩ (.unknownSchema ref.label)], []⟩
  | agenda {path : Path} {v : Value} {ref : SchemaRef} {schema : Schema} {logs : Branch → Log}
    (resolved : ctx.schemas.resolve? ref = some schema)
    (children : ∀ b, Act.visit b ∈ (nodeAt path v schema).agenda ctx schema →
      Logs ctx (path ++ [b.step]) b.value b.ref (logs b))
    (rejected : ∀ allowed, schema = .multi allowed →
      ∀ l ∈ candidateLogs v.represented allowed logs, l.errors ≠ []) :
    Logs ctx path v ref (.ofActs ((nodeAt path v schema).agenda ctx schema) logs)
  /-- All candidates have logs, but only that of the winner stays. -/
  | choice {path : Path} {v : Value} {ref : SchemaRef} {allowed : List SchemaRef}
    {logs : Branch → Log} {winner : Log}
    (resolved : ctx.schemas.resolve? ref = some (.multi allowed))
    (children : ∀ b, Act.visit b ∈ (nodeAt path v (.multi allowed)).agenda ctx (.multi allowed) →
      Logs ctx (path ++ [b.step]) b.value b.ref (logs b))
    (wins : Log.winner? (candidateLogs v.represented allowed logs) = some winner) :
    Logs ctx path v ref winner

theorem Log.winner?_eq_none {logs : List Log} :
    winner? logs = none ↔ ∀ l ∈ logs, l.errors ≠ [] := by
  unfold winner?
  rw [← Option.not_isSome_iff_eq_none, List.isSome_minOn?_iff, Decidable.not_not,
    List.filter_eq_nil_iff]
  simp only [List.isEmpty_iff, ne_eq]

theorem flatMap_congr_left {α β : Type} {xs : List α} {f g : α → List β}
    (h : ∀ x ∈ xs, f x = g x) : xs.flatMap f = xs.flatMap g := by
  rw [List.flatMap_def, List.flatMap_def, List.map_congr_left h]

section Unique

variable {ctx : Context} {path : Path} {v : Value} {ref : SchemaRef} {allowed : List SchemaRef}
  {log log' : Log} {logs logs' : Branch → Log}

/-- A log depends on the children that are visited only. -/
theorem Log.ofActs_congr {acts : List Act} (h : ∀ b, Act.visit b ∈ acts → logs b = logs' b) :
    ofActs acts logs = ofActs acts logs' := by
  have herrors : ∀ act ∈ acts, act.errors logs = act.errors logs' := by
    intro act hact
    cases act with
    | visit b => exact congrArg Log.errors (h b hact)
    | _ => rfl
  have hwarnings : ∀ act ∈ acts, act.warnings logs = act.warnings logs' := by
    intro act hact
    cases act with
    | visit b => exact congrArg Log.warnings (h b hact)
    | _ => rfl
  unfold ofActs
  rw [flatMap_congr_left herrors, flatMap_congr_left hwarnings]

theorem candidateLogs_congr
    (h : ∀ b, Act.visit b ∈ (nodeAt path v (.multi allowed)).agenda ctx (.multi allowed) →
      logs b = logs' b) :
    candidateLogs v.represented allowed logs = candidateLogs v.represented allowed logs' :=
  List.map_congr_left fun _ hc =>
    h _ (Node.visit_mem_agenda.mpr (candidate_mem_branches hc v.represented))

/-- A place has one log. -/
theorem Logs.unique (h : Logs ctx path v ref log) (h' : Logs ctx path v ref log') :
    log' = log := by
  induction h generalizing log' with
  | unresolved unresolved =>
    cases h' with
    | unresolved => rfl
    | agenda resolved => cases unresolved.symm.trans resolved
    | choice resolved => cases unresolved.symm.trans resolved
  | agenda resolved children rejected ih =>
    cases h' with
    | unresolved unresolved => cases unresolved.symm.trans resolved
    | agenda resolved' children' =>
      obtain rfl := Option.some.inj (resolved.symm.trans resolved')
      exact (Log.ofActs_congr fun b hb => (ih b hb (children' b hb)).symm).symm
    | choice resolved' children' wins =>
      obtain rfl := Option.some.inj (resolved.symm.trans resolved')
      -- The logs of the candidates are the same, and none of them is without errors.
      have hnone := Log.winner?_eq_none.mpr (rejected _ rfl)
      rw [← candidateLogs_congr fun b hb => ih b hb (children' b hb), wins] at hnone
      cases hnone
  | choice resolved children wins ih =>
    cases h' with
    | unresolved unresolved => cases unresolved.symm.trans resolved
    | agenda resolved' children' rejected =>
      obtain rfl := Option.some.inj (resolved.symm.trans resolved')
      have hnone := Log.winner?_eq_none.mpr (rejected _ rfl)
      rw [candidateLogs_congr fun b hb => ih b hb (children' b hb), wins] at hnone
      cases hnone
    | choice resolved' children' wins' =>
      cases Option.some.inj (resolved.symm.trans resolved')
      rw [candidateLogs_congr fun b hb => ih b hb (children' b hb), wins] at wins'
      exact (Option.some.inj wins').symm

end Unique

section Walk

variable {ctx : Context} {levels : Nat} {path : Path} {v : Value} {ref : SchemaRef}
  {schema : Schema} {D : Reports} {r : Report}

/-- The winner is told from the logs of the candidates as from their reports. -/
theorem winner?_candidateLogs (allowed : List SchemaRef) :
    Log.winner? (candidateLogs v.represented allowed fun b => (b.report D).log) =
      (Report.winner? ((nodeAt path v schema).candidates D allowed)).map Report.log := by
  rw [← Log.winner?_map_log, Node.candidates, List.map_map]
  rfl

/-- The log of a completed walk is the log of its place. -/
theorem logs_walk :
    ∀ levels path v ref r, walk ctx levels path v ref = .ok r → Logs ctx path v ref r.log := by
  refine walk_induction (fun _ _ _ _ unresolved => .unresolved unresolved) ?_
  intro levels path v ref schema D resolved below
  rw [Report.close_log]
  have children : ∀ b, Act.visit b ∈ (nodeAt path v schema).agenda ctx schema →
      Logs ctx (path ++ [b.step]) b.value b.ref (b.report D).log := fun b hb =>
    below b (Node.visit_mem_agenda.mp hb)
  by_cases h : ∃ allowed winner, schema = .multi allowed ∧
      Report.winner? ((nodeAt path v schema).candidates D allowed) = some winner
  · obtain ⟨allowed, winner, rfl, hwins⟩ := h
    rw [Node.report_choice hwins]
    refine .choice resolved children ?_
    rw [winner?_candidateLogs, hwins, Option.map_some]
  · have hnone : ∀ allowed, schema = .multi allowed →
        Report.winner? ((nodeAt path v schema).candidates D allowed) = none := by
      intro allowed hschema
      rw [← Option.not_isSome_iff_eq_none, Option.isSome_iff_exists]
      rintro ⟨winner, hwins⟩
      exact h ⟨allowed, winner, hschema, hwins⟩
    rw [Node.log_report hnone]
    refine .agenda resolved children fun allowed hschema => ?_
    rw [← Log.winner?_eq_none, winner?_candidateLogs, hnone allowed hschema, Option.map_none]

/-- The walk of a choice has walked every candidate; where one has no errors, it reports what the
winner does. -/
theorem walk_choice {allowed : List SchemaRef} (h : walk ctx (levels + 1) path v ref = .ok r)
    (resolved : ctx.schemas.resolve? ref = some (.multi allowed)) :
    ∃ candidates, (allowed.zipIdx.mapM fun c =>
        walk ctx levels (path ++ [candidateKey c.2]) v.represented c.1) = .ok candidates ∧
      ∀ c ∈ candidates, c.isOk = true → Report.winner? candidates = some r := by
  obtain ⟨D, hD, rfl⟩ := walk_inv h resolved
  refine ⟨(nodeAt path v (.multi allowed)).candidates D allowed, ?_, fun c hc hok => ?_⟩
  · exact mapM_eq_ok_map fun c hc => hD _ (candidate_mem_branches hc v.represented)
  · obtain ⟨winner, hwins, -⟩ := Report.exists_winner hc hok
    rw [Node.report_choice hwins, Report.close_of_isOk (Report.winner?_isOk hwins)]
    exact hwins

end Walk

/-! ## 5. The places of a walk -/

structure Stop where
  levels : Nat
  path : Path
  value : Value
  ref : SchemaRef

namespace Stop

def walk (ctx : Context) (stop : Stop) : Except DepthExceeded Report :=
  Conform.walk ctx stop.levels stop.path stop.value stop.ref

def child (stop : Stop) (b : Branch) : Stop :=
  ⟨stop.levels - 1, stop.path ++ [b.step], b.value, b.ref⟩

def first (ctx : Context) (v : Value) (ref : SchemaRef) : Stop :=
  ⟨ctx.options.depthLimit + 1, [], v, ref⟩

end Stop

/-- The places that a walk passes: the first one, and the children that the agenda of a place that
is passed visits. -/
inductive Passes (ctx : Context) (first : Stop) : Stop → Prop
  | first : Passes ctx first first
  | child {stop : Stop} {schema : Schema} {b : Branch} (passed : Passes ctx first stop)
    (resolved : ctx.schemas.resolve? stop.ref = some schema)
    (visit : Act.visit b ∈ (nodeAt stop.path stop.value schema).agenda ctx schema) :
    Passes ctx first (stop.child b)

/-- A completed walk has completed all places that it passes. -/
theorem passes_completed {ctx : Context} {first stop : Stop}
    (h : ∃ r, first.walk ctx = .ok r) (passes : Passes ctx first stop) :
    ∃ r, stop.walk ctx = .ok r := by
  induction passes with
  | first => exact h
  | @child stop schema b passed resolved visit ih =>
    obtain ⟨r, hr⟩ := ih
    obtain ⟨levels, path, v, ref⟩ := stop
    -- Where a walk completes there was a level left for it.
    cases levels with
    | zero => cases hr
    | succ levels =>
      obtain ⟨D, hD, -⟩ := walk_inv hr resolved
      exact ⟨_, hD b (Node.visit_mem_agenda.mp visit)⟩

/-- The errors and warnings of a validation that completes are the log of its first place. It has
completed all places that it passes; where a choice among them has a candidate without errors, the
report there is that of the winner. -/
theorem validate_logs (ctx : Context) (v : Value) (ref : SchemaRef) (r : Report)
    (h : validate ctx v ref = .ok r) :
    (∀ log, Logs ctx [] v ref log ↔ log = r.log) ∧
    ∀ stop, Passes ctx (.first ctx v ref) stop → ∃ report, stop.walk ctx = .ok report ∧
      ∀ allowed, ctx.schemas.resolve? stop.ref = some (.multi allowed) →
        ∃ candidates, (allowed.zipIdx.mapM fun c =>
            (stop.child ⟨candidateKey c.2, stop.value.represented, c.1⟩).walk ctx) =
              .ok candidates ∧
          ∀ c ∈ candidates, c.isOk = true → Report.winner? candidates = some report := by
  have hfirst : (Stop.first ctx v ref).walk ctx = .ok r := h
  have hlogs : Logs ctx [] v ref r.log := logs_walk _ _ _ _ _ h
  constructor
  · intro log
    exact ⟨fun hlog => hlogs.unique hlog, fun hlog => hlog ▸ hlogs⟩
  · intro stop passes
    obtain ⟨report, hreport⟩ := passes_completed ⟨r, hfirst⟩ passes
    refine ⟨report, hreport, fun allowed resolved => ?_⟩
    obtain ⟨levels, path, v, ref⟩ := stop
    cases levels with
    | zero => cases hreport
    | succ levels => exact walk_choice hreport resolved

def numberOrBoolean : List SchemaRef := [.inline (.number {}), .inline .boolean]

def twoTexts : Value := .list [.string "3", .string "x"]

/-- The boolean's complaint about the first text is gone, of the second text all complaints stay. -/
theorem validate_logs_twoTexts :
    ∃ r, validate ⟨twoTexts, {}, {}⟩ twoTexts (.inline (.list (.inline (.multi numberOrBoolean)))) =
        .ok r ∧
      r.errors.map Diagnostic.path =
        [[.index 1], [.index 1, candidateKey 0], [.index 1, candidateKey 1]] ∧
      (∀ log, Logs ⟨twoTexts, {}, {}⟩ [] twoTexts
        (.inline (.list (.inline (.multi numberOrBoolean)))) log ↔ log = r.log) ∧
      ∃ report candidates, candidates.map Report.isOk = [true, false] ∧
        Report.winner? candidates = some report ∧
        Stop.walk ⟨twoTexts, {}, {}⟩
          ⟨({} : Options).depthLimit, [.index 0], .string "3", .inline (.multi numberOrBoolean)⟩ =
            .ok report := by
  have hvalidate : ((validate ⟨twoTexts, {}, {}⟩ twoTexts
      (.inline (.list (.inline (.multi numberOrBoolean))))).toOption.map fun r =>
        r.errors.map Diagnostic.path) =
      some [[.index 1], [.index 1, candidateKey 0], [.index 1, candidateKey 1]] := by
    decide +kernel
  cases hr : validate ⟨twoTexts, {}, {}⟩ twoTexts
      (.inline (.list (.inline (.multi numberOrBoolean)))) with
  | error e =>
    rw [hr] at hvalidate
    cases hvalidate
  | ok r =>
    rw [hr] at hvalidate
    obtain ⟨hlogs, hstops⟩ := validate_logs ⟨twoTexts, {}, {}⟩ twoTexts
      (.inline (.list (.inline (.multi numberOrBoolean)))) r hr
    obtain ⟨report, hreport, hchoice⟩ := hstops _ (.child
      (b := ⟨.index 0, .string "3", .inline (.multi numberOrBoolean)⟩) .first rfl
      List.mem_cons_self)
    obtain ⟨candidates, hcandidates, hwinner⟩ := hchoice numberOrBoolean rfl
    have hmap : candidates.map Report.isOk = [true, false] := by
      have hverdicts : ((numberOrBoolean.zipIdx.mapM fun c => Stop.walk ⟨twoTexts, {}, {}⟩
          ⟨({} : Options).depthLimit - 1, [.index 0, candidateKey c.2], .string "3",
            c.1⟩).toOption.map fun candidates => candidates.map Report.isOk) =
          some [true, false] := by
        decide +kernel
      exact Option.some.inj
        ((congrArg (fun x => x.toOption.map (·.map Report.isOk)) hcandidates).symm.trans hverdicts)
    obtain ⟨c, hc, hok⟩ : ∃ c ∈ candidates, c.isOk = true := by
      rw [← List.mem_map, hmap]
      exact List.mem_cons_self
    exact ⟨r, rfl, Option.some.inj hvalidate, hlogs, report, candidates, hmap, hwinner c hc hok,
      hreport⟩

end Conform
