import Conform.Proofs.Findings
import Conform.Proofs.Logs

/-!
# Limits — how the limit of depth ends a walk

The nodes of a validation form a tree, which the walk goes through in depth-first order; the tree
can be endless, as schemas may be cyclic.  A walk fails at the first node that lies deeper than the
limit, and where there is none it does not depend on the limit at all (`validate_depthLimit`).
-/

namespace Conform

/-! ## 1. The nodes of a validation -/

/-- The paths of the nodes at a place and down to `depth` steps below it, in depth-first order. -/
def SchemaSet.depthFirst (set : SchemaSet) : Nat → Path → Value → SchemaRef → List Path
  | 0, path, _, _ => [path]
  | depth + 1, path, v, ref =>
    path :: match set.resolve? ref with
      | none => []
      | some schema => (v.represented.branches schema).flatMap fun b =>
          set.depthFirst depth (path ++ [b.step]) b.value b.ref

section DepthFirst

variable {set : SchemaSet} {ref : SchemaRef} {schema : Schema}

theorem depthFirst_of_unresolved (h : set.resolve? ref = none) (depth : Nat) (path : Path)
    (v : Value) : set.depthFirst depth path v ref = [path] := by
  cases depth with
  | zero => rfl
  | succ depth =>
    unfold SchemaSet.depthFirst
    rw [h]

/-- A place comes before the places below its children, in their order. -/
theorem depthFirst_of_resolved (h : set.resolve? ref = some schema) (depth : Nat) (path : Path)
    (v : Value) :
    set.depthFirst (depth + 1) path v ref =
      path :: (v.represented.branches schema).flatMap fun b =>
        set.depthFirst depth (path ++ [b.step]) b.value b.ref := by
  rw [SchemaSet.depthFirst, h]

/-- A node comes before all nodes below it. -/
theorem depthFirst_eq_cons (set : SchemaSet) (depth : Nat) (path : Path) (v : Value)
    (ref : SchemaRef) : ∃ rest, set.depthFirst depth path v ref = path :: rest := by
  cases depth with
  | zero => exact ⟨[], rfl⟩
  | succ depth => exact ⟨_, rfl⟩

/-- No place lies more steps below than were asked for. -/
theorem length_le_of_mem_depthFirst {depth : Nat} {path : Path} {v : Value} :
    ∀ p ∈ set.depthFirst depth path v ref, p.length ≤ path.length + depth := by
  induction depth generalizing path v ref with
  | zero =>
    intro p hp
    rw [List.mem_singleton.mp hp]
    exact Nat.le_refl _
  | succ depth ih =>
    intro p hp
    cases hschema : set.resolve? ref with
    | none =>
      rw [depthFirst_of_unresolved hschema] at hp
      rw [List.mem_singleton.mp hp]
      omega
    | some schema =>
      rw [depthFirst_of_resolved hschema] at hp
      rcases List.mem_cons.mp hp with hp | hp
      · rw [hp]
        omega
      · obtain ⟨b, -, hb⟩ := List.mem_flatMap.mp hp
        have hle := ih p hb
        rw [List.length_append, List.length_singleton] at hle
        omega

end DepthFirst

/-! ## 2. Where a walk fails -/

/-- A walk fails at the first node that lies below its levels, however far the nodes are listed. -/
theorem failure?_walk (ctx : Context) {levels depth : Nat} (hdepth : levels ≤ depth) (path : Path)
    (v : Value) (ref : SchemaRef) :
    failure? (walk ctx levels path v ref) =
      ((ctx.schemas.depthFirst depth path v ref).find? fun p =>
        path.length + levels ≤ p.length).map (⟨ctx.options.depthLimit, ·⟩) := by
  induction levels generalizing depth path v ref with
  | zero =>
    obtain ⟨rest, hrest⟩ := depthFirst_eq_cons ctx.schemas depth path v ref
    rw [hrest, List.find?_cons_of_pos (by simp)]
    rfl
  | succ levels ih =>
    obtain ⟨depth, rfl⟩ : ∃ n, depth = n + 1 := ⟨depth - 1, by omega⟩
    cases hschema : ctx.schemas.resolve? ref with
    | none =>
      rw [walk_of_unresolved hschema, depthFirst_of_unresolved hschema,
        List.find?_cons_of_neg (by simp)]
      rfl
    | some schema =>
      rw [walk_of_resolved hschema, failure?_map, failure?_mapM, depthFirst_of_resolved hschema,
        List.find?_cons_of_neg (by simp), List.find?_flatMap, List.map_findSome?]
      congr 1
      funext b
      -- A child has one level less, and its path is one step longer.
      have hchild := ih (show levels ≤ depth by omega) (path ++ [b.step]) b.value b.ref
      rw [List.length_append, List.length_singleton,
        show path.length + 1 + levels = path.length + (levels + 1) by omega] at hchild
      exact hchild

/-- A diagnostic is about a node that the walk had a level for. -/
theorem walk_says_path (ctx : Context) :
    ∀ levels path v ref r, walk ctx levels path v ref = .ok r →
      r.Says fun d => d.path.length < path.length + levels := by
  refine walk_induction ?_ ?_
  · intro levels path v ref _
    constructor
    · intro d hd
      rw [List.mem_singleton.mp hd]
      show path.length < path.length + (levels + 1)
      omega
    · exact fun d hd => absurd hd List.not_mem_nil
  · intro levels path v ref schema D _ below
    refine (Node.says_report (fun f _ => ?_) fun b hb => ?_).close
    · show path.length < path.length + (levels + 1)
      omega
    · have hchild := below b hb
      rw [List.length_append, List.length_singleton,
        show path.length + 1 + levels = path.length + (levels + 1) by omega] at hchild
      exact hchild

/-! ## 3. Other limits -/

/-- A completed walk is the same with more levels, in every context that makes the same of the
reports of children. -/
theorem walk_of_le (ctx ctx' : Context) (hschemas : ctx'.schemas = ctx.schemas)
    (hreport : ∀ (node : Node) D schema, node.report ctx' D schema = node.report ctx D schema) :
    ∀ levels path v ref r, walk ctx levels path v ref = .ok r →
      ∀ levels', levels ≤ levels' → walk ctx' levels' path v ref = .ok r := by
  refine walk_induction ?_ ?_
  · intro levels path v ref hnone levels' hle
    obtain ⟨levels', rfl⟩ : ∃ n, levels' = n + 1 := ⟨levels' - 1, by omega⟩
    exact walk_of_unresolved (hschemas ▸ hnone)
  · intro levels path v ref schema D hschema below levels' hle
    obtain ⟨levels', rfl⟩ : ∃ n, levels' = n + 1 := ⟨levels' - 1, by omega⟩
    rw [← hreport]
    exact walk_of_below (hschemas ▸ hschema) fun b hb => below b hb levels' (by omega)

def Context.limitedTo (ctx : Context) (limit : Nat) : Context :=
  { ctx with options := { ctx.options with maxDepth := some limit } }

/-- The limit does not count in the report of one node. -/
theorem report_limitedTo (ctx : Context) (limit : Nat) (node : Node) (D : Reports)
    (schema : Schema) : node.report (ctx.limitedTo limit) D schema = node.report ctx D schema := by
  cases schema <;> rfl

/-- Of all places that a walk passes, those at a depth of `limit + 1` have no level left. -/
theorem passes_levels {ctx : Context} {v : Value} {ref : SchemaRef} {stop : Stop}
    (h : Passes ctx (.first ctx v ref) stop) :
    stop.levels = ctx.options.depthLimit + 1 - stop.path.length := by
  induction h with
  | first => rfl
  | @child stop _ b passed resolved visit ih =>
    show stop.levels - 1 = ctx.options.depthLimit + 1 - (stop.path ++ [b.step]).length
    rw [List.length_append, List.length_singleton]
    omega

/-- Validation fails where the nodes in depth-first order first lie deeper than the limit. -/
theorem failure?_validate (ctx : Context) (v : Value) (ref : SchemaRef) {depth : Nat}
    (hdepth : ctx.options.depthLimit < depth) :
    failure? (validate ctx v ref) =
      ((ctx.schemas.depthFirst depth [] v ref).find?
        (ctx.options.depthLimit < ·.length)).map (⟨ctx.options.depthLimit, ·⟩) := by
  have hwalk := failure?_walk ctx (Nat.succ_le_of_lt hdepth) [] v ref
  rw [List.length_nil, Nat.zero_add] at hwalk
  exact hwalk

/-- A validation is too deep when the walk is at every limit that is as great. -/
theorem validate_error_iff (ctx : Context) (v : Value) (ref : SchemaRef) (cause : DepthExceeded) :
    validate ctx v ref = .error cause ↔
      cause.limit = ctx.options.depthLimit ∧
      ∀ depth, ctx.options.depthLimit < depth →
        (ctx.schemas.depthFirst depth [] v ref).find? (ctx.options.depthLimit < ·.length) =
          some cause.path := by
  rw [← failure?_eq_some_iff]
  constructor
  · intro h
    have hfound (depth : Nat) (hdepth : ctx.options.depthLimit < depth) :
        ∃ p, (ctx.schemas.depthFirst depth [] v ref).find? (ctx.options.depthLimit < ·.length) =
          some p ∧ ⟨ctx.options.depthLimit, p⟩ = cause := by
      rw [failure?_validate ctx v ref hdepth] at h
      exact Option.map_eq_some_iff.1 h
    constructor
    · obtain ⟨p, -, rfl⟩ := hfound _ (Nat.lt_succ_self _)
      rfl
    · intro depth hdepth
      obtain ⟨p, hp, rfl⟩ := hfound depth hdepth
      exact hp
  · rintro ⟨hlimit, hfind⟩
    rw [failure?_validate ctx v ref (Nat.lt_succ_self _), hfind _ (Nat.lt_succ_self _), ← hlimit]
    rfl

/-- The node that a validation fails at lies one step below the limit. -/
theorem length_of_validate_error {ctx : Context} {v : Value} {ref : SchemaRef}
    {cause : DepthExceeded} (h : validate ctx v ref = .error cause) :
    cause.path.length = ctx.options.depthLimit + 1 := by
  have hfind := ((validate_error_iff ctx v ref cause).mp h).2 _ (Nat.lt_succ_self _)
  have hle := length_le_of_mem_depthFirst _ (List.mem_of_find?_eq_some hfind)
  have hlt : ctx.options.depthLimit < cause.path.length := by
    simpa using List.find?_some hfind
  rw [List.length_nil] at hle
  omega

/-- The limit of depth ends a validation at the first node that lies deeper, and does nothing else.
The levels that are left at a place are what its depth leaves of the limit. -/
theorem validate_depthLimit (ctx : Context) (v : Value) (ref : SchemaRef) :
    (∀ stop, Passes ctx (.first ctx v ref) stop →
      stop.levels = ctx.options.depthLimit + 1 - stop.path.length ∧
      (stop.levels = 0 → stop.walk ctx = .error ⟨ctx.options.depthLimit, stop.path⟩)) ∧
    (∀ cause, validate ctx v ref = .error cause ↔
      cause.limit = ctx.options.depthLimit ∧
      ∀ depth, ctx.options.depthLimit < depth →
        (ctx.schemas.depthFirst depth [] v ref).find? (ctx.options.depthLimit < ·.length) =
          some cause.path) ∧
    (∀ cause, validate ctx v ref = .error cause →
      cause.path.length = ctx.options.depthLimit + 1 ∧
      cause.message = "maximum validation depth " ++ toString ctx.options.depthLimit ++
        " exceeded at " ++ cause.path.render ∧
      ∀ limit, limit ≤ ctx.options.depthLimit →
        ∃ cause', validate (ctx.limitedTo limit) v ref = .error cause') ∧
    (∀ r, validate ctx v ref = .ok r →
      (∀ d ∈ r.errors ++ r.warnings, d.path.length ≤ ctx.options.depthLimit) ∧
      ∀ limit, ctx.options.depthLimit ≤ limit → validate (ctx.limitedTo limit) v ref = .ok r) := by
  refine ⟨fun stop passes => ⟨passes_levels passes, fun hzero => ?_⟩, validate_error_iff ctx v ref,
    fun cause h => ⟨length_of_validate_error h, ?_, fun limit hle => ?_⟩, fun r h => ⟨?_, ?_⟩⟩
  · obtain ⟨levels, path, v, ref⟩ := stop
    cases hzero
    rfl
  · rw [← ((validate_error_iff ctx v ref cause).mp h).1]
    rfl
  · -- Under a smaller limit it cannot complete, as it would complete under this one, too.
    cases hlimited : validate (ctx.limitedTo limit) v ref with
    | error cause' => exact ⟨cause', rfl⟩
    | ok r =>
      have hsame := walk_of_le (ctx.limitedTo limit) ctx rfl
        (fun node D schema => (report_limitedTo ctx limit node D schema).symm) _ _ _ _ _ hlimited
        (ctx.options.depthLimit + 1) (Nat.succ_le_succ hle)
      rw [validate, hsame] at h
      cases h
  · intro d hd
    -- Every diagnostic is at a place of the walk.
    have hpaths := walk_says_path ctx _ _ _ _ _ h
    have hlt : d.path.length < 0 + (ctx.options.depthLimit + 1) :=
      (List.mem_append.mp hd).elim (hpaths.1 d) (hpaths.2 d)
    omega
  · intro limit hle
    exact walk_of_le ctx (ctx.limitedTo limit) rfl (report_limitedTo ctx limit) _ _ _ _ _ h
      (limit + 1) (Nat.succ_le_succ hle)

def deepLists : SchemaSet where
  schemas := [("deep", .multi [.named "number", .inline (.list (.named "deep"))])]

/-- Two lists lie three steps deep, as each of them is a candidate first. -/
theorem validate_depthLimit_deepLists :
    (∃ r, validate ⟨.null, deepLists, { maxDepth := some 3 }⟩ (.list [.list []]) (.named "deep") =
        .ok r ∧
      validate ⟨.null, deepLists, { maxDepth := some 9 }⟩ (.list [.list []]) (.named "deep") =
        .ok r) ∧
    ∃ cause cause', validate ⟨.null, deepLists, { maxDepth := some 2 }⟩ (.list [.list []])
        (.named "deep") = .error cause ∧
      cause.message = "maximum validation depth 2 exceeded at $.(multi: 1)[0].(multi: 0)" ∧
      cause.path.length = 3 ∧
      validate ⟨.null, deepLists, { maxDepth := some 0 }⟩ (.list [.list []]) (.named "deep") =
        .error cause' := by
  constructor
  · obtain ⟨-, -, -, hcompletes⟩ :=
      validate_depthLimit ⟨.null, deepLists, { maxDepth := some 3 }⟩ (.list [.list []])
        (.named "deep")
    exact ⟨⟨some (.list [.list []]), [], []⟩, rfl, (hcompletes _ rfl).2 9 (by decide)⟩
  · obtain ⟨-, -, hfails, -⟩ :=
      validate_depthLimit ⟨.null, deepLists, { maxDepth := some 2 }⟩ (.list [.list []])
        (.named "deep")
    have hcause : validate ⟨.null, deepLists, { maxDepth := some 2 }⟩ (.list [.list []])
        (.named "deep") = .error ⟨2, [candidateKey 1, .index 0, candidateKey 0]⟩ := rfl
    obtain ⟨hlength, hmessage, hsmaller⟩ := hfails _ hcause
    obtain ⟨cause', hcause'⟩ := hsmaller 0 (by decide)
    exact ⟨_, cause', hcause, by rw [hmessage]; decide, hlength, hcause'⟩

end Conform
