import Conform.Proofs.Limits
import Conform.Proofs.Renditions

/-!
# Verdicts — what rendering options leave alone

Two options decide how sanitized values are written.  They are read at the leaves, where nothing is
checked that was written under them, so the places of a validation have the same logs under all of
them, and every choice has the same winner.  What is left is a difference between sanitized values,
at the leaves that these options are about (`validate_renderings`).
-/

namespace Conform

def Context.rendering (ctx : Context) (regexAsString hideConfidential : Option Bool) : Context :=
  { ctx with options := { ctx.options with regexAsString, hideConfidential } }

/-! ## 1. Logs -/

section Logs

variable {ctx : Context} {levels : Nat} {path : Path} {v : Value} {ref : SchemaRef} {r : Report}

theorem string_acts_rendering (node : Node) (ctx : Context) (rules : StringRules)
    (regexAsString hideConfidential : Option Bool) :
    (node.string (ctx.rendering regexAsString hideConfidential) rules).acts =
      (node.string ctx rules).acts := by
  unfold Node.string
  cases coerceString? node.value with
  | none => rfl
  | some found =>
    obtain ⟨text, coerced⟩ := found
    -- The rules are about the text itself, whatever is shown of it.
    cases coerced <;> rfl

theorem regex_acts (node : Node) (options options' : Options) :
    (node.regex options').acts = (node.regex options).acts := by
  unfold Node.regex
  split
  · rfl
  · split <;> rfl
  · rfl

/-- What a node does for its log does not depend on the rendering. -/
theorem agenda_rendering (node : Node) (ctx : Context) (schema : Schema)
    (regexAsString hideConfidential : Option Bool) :
    node.agenda (ctx.rendering regexAsString hideConfidential) schema = node.agenda ctx schema := by
  cases schema with
  | string rules => exact string_acts_rendering node ctx rules regexAsString hideConfidential
  | regex => exact regex_acts node _ _
  | freeform | boolean | number | index | list | args | object | enum | multi => rfl

/-- A place has the same log under all options of rendering. -/
theorem Logs.rendering {log : Log} (h : Logs ctx path v ref log)
    (regexAsString hideConfidential : Option Bool) :
    Logs (ctx.rendering regexAsString hideConfidential) path v ref log := by
  induction h with
  | unresolved unresolved => exact .unresolved unresolved
  | agenda resolved children rejected ih =>
    rw [← agenda_rendering _ ctx _ regexAsString hideConfidential]
    refine .agenda resolved (fun b hb => ?_) rejected
    rw [agenda_rendering] at hb
    exact ih b hb
  | choice resolved children wins ih =>
    refine .choice resolved (fun b hb => ?_) wins
    rw [agenda_rendering] at hb
    exact ih b hb

/-- A walk that fails does so for the same cause under all options of rendering. -/
theorem walk_error_rendering {cause : DepthExceeded} (h : walk ctx levels path v ref = .error cause)
    (regexAsString hideConfidential : Option Bool) :
    walk (ctx.rendering regexAsString hideConfidential) levels path v ref = .error cause := by
  rw [← failure?_eq_some_iff, failure?_walk ctx (Nat.le_refl levels)] at h
  rw [← failure?_eq_some_iff, failure?_walk _ (Nat.le_refl levels)]
  exact h

/-- A walk that completes does so with the same errors and warnings. -/
theorem walk_ok_rendering (h : walk ctx levels path v ref = .ok r)
    (regexAsString hideConfidential : Option Bool) :
    ∃ r', walk (ctx.rendering regexAsString hideConfidential) levels path v ref = .ok r' ∧
      r'.log = r.log := by
  have hcompletes := failure?_eq_none_iff.mpr ⟨r, h⟩
  rw [failure?_walk ctx (Nat.le_refl levels)] at hcompletes
  obtain ⟨r', h'⟩ : ∃ r', walk (ctx.rendering regexAsString hideConfidential) levels path v ref =
      .ok r' := by
    rw [← failure?_eq_none_iff, failure?_walk _ (Nat.le_refl levels)]
    exact hcompletes
  have hlog := (logs_walk _ _ _ _ _ h).rendering regexAsString hideConfidential
  exact ⟨r', h', hlog.unique (logs_walk _ _ _ _ _ h')⟩

end Logs

/-! ## 2. Winners -/

def winnerOf (D : Reports) (candidates : List Branch) : Option Branch :=
  (candidates.filter fun b => (b.report D).isOk).minOn? fun b => (b.report D).warnings.length

theorem winnerOf_map_report (D : Reports) (candidates : List Branch) :
    (winnerOf D candidates).map (·.report D) = Report.winner? (candidates.map (·.report D)) := by
  unfold winnerOf Report.winner?
  rw [List.filter_map, minOn?_map]
  rfl

theorem winnerOf_mem {D : Reports} {candidates : List Branch} {b : Branch}
    (h : winnerOf D candidates = some b) : b ∈ candidates :=
  (List.mem_filter.mp (List.minOn?_mem h)).1

/-- Who wins is a matter of the logs. -/
theorem winnerOf_congr {D D' : Reports} (h : ∀ b : Branch, (b.report D').log = (b.report D).log)
    (candidates : List Branch) : winnerOf D' candidates = winnerOf D candidates := by
  have hok (b : Branch) : (b.report D').isOk = (b.report D).isOk :=
    congrArg (·.errors.isEmpty) (h b)
  have hwarnings (b : Branch) : (b.report D').warnings = (b.report D).warnings :=
    congrArg Log.warnings (h b)
  unfold winnerOf
  simp only [hok, hwarnings]

theorem candidates_eq (node : Node) (D : Reports) (allowed : List SchemaRef) :
    node.candidates D allowed = (node.value.branches (.multi allowed)).map (·.report D) := by
  unfold Node.candidates Value.branches
  rw [List.map_map]
  rfl

/-- An accepted choice has a winner, whose sanitized value it takes. -/
theorem walk_winner {ctx : Context} {levels : Nat} {path : Path} {v : Value} {ref : SchemaRef}
    {allowed : List SchemaRef} {r : Report} (h : walk ctx (levels + 1) path v ref = .ok r)
    (hok : r.isOk = true) (hschema : ctx.schemas.resolve? ref = some (.multi allowed)) :
    ∃ b, winnerOf (reportsOf (below ctx levels path)) (v.represented.branches (.multi allowed)) =
        some b ∧ walk ctx levels (path ++ [b.step]) b.value b.ref = .ok r := by
  have hbelow := walk_below h hschema
  have hreport := report_of_walks h hok hschema hbelow
  have hwinner : Report.winner?
      ((nodeAt path v (.multi allowed)).candidates (reportsOf (below ctx levels path)) allowed) =
        some r := by
    rw [← hreport] at hok ⊢
    exact Node.choice_wins hok
  rw [candidates_eq, ← winnerOf_map_report] at hwinner
  obtain ⟨b, hb, hsame⟩ := Option.map_eq_some_iff.1 hwinner
  exact ⟨b, hb, (hbelow b (winnerOf_mem hb)).trans (congrArg Except.ok hsame)⟩

namespace Stop

def winner? (ctx : Context) (stop : Stop) : Option Branch :=
  match stop.walk ctx, ctx.schemas.resolve? stop.ref with
  | .ok _, some (.multi allowed) =>
    winnerOf (reportsOf (below ctx (stop.levels - 1) stop.path))
      (stop.value.represented.branches (.multi allowed))
  | _, _ => none

variable {ctx : Context} {stop : Stop} {allowed : List SchemaRef} {r : Report}

theorem winner?_of_resolved (h : stop.walk ctx = .ok r)
    (hschema : ctx.schemas.resolve? stop.ref = some (.multi allowed)) :
    stop.winner? ctx = winnerOf (reportsOf (below ctx (stop.levels - 1) stop.path))
      (stop.value.represented.branches (.multi allowed)) := by
  unfold winner?
  rw [h, hschema]

/-- The report of an accepted choice is that of the winner. -/
theorem exists_winner (h : stop.walk ctx = .ok r) (hok : r.isOk = true)
    (hschema : ctx.schemas.resolve? stop.ref = some (.multi allowed)) :
    ∃ b, stop.winner? ctx = some b ∧ (stop.child b).walk ctx = .ok r := by
  rw [winner?_of_resolved h hschema]
  obtain ⟨levels, path, v, ref⟩ := stop
  cases levels with
  | zero => cases h
  | succ levels => exact walk_winner h hok hschema

/-- Every choice has the same winner under all options of rendering. -/
theorem winner?_rendering (ctx : Context) (stop : Stop)
    (regexAsString hideConfidential : Option Bool) :
    stop.winner? (ctx.rendering regexAsString hideConfidential) = stop.winner? ctx := by
  -- Candidates are compared by their logs, which the rendering leaves alone.
  have hbelow (b : Branch) :
      (b.report (reportsOf (below (ctx.rendering regexAsString hideConfidential)
        (stop.levels - 1) stop.path))).log =
      (b.report (reportsOf (below ctx (stop.levels - 1) stop.path))).log := by
    unfold Branch.report reportsOf below
    cases h : Conform.walk ctx (stop.levels - 1) (stop.path ++ [b.step]) b.value b.ref with
    | error cause => rw [walk_error_rendering h]
    | ok r =>
      obtain ⟨r', h', hlog⟩ := walk_ok_rendering h regexAsString hideConfidential
      rw [h']
      exact hlog
  cases h : stop.walk ctx with
  | error cause =>
    have h' : stop.walk (ctx.rendering regexAsString hideConfidential) = .error cause :=
      walk_error_rendering h regexAsString hideConfidential
    unfold winner?
    rw [h, h']
  | ok r =>
    obtain ⟨r', h', -⟩ := walk_ok_rendering h regexAsString hideConfidential
    change stop.walk _ = _ at h'
    unfold winner?
    rw [h, h']
    have hschemas : (ctx.rendering regexAsString hideConfidential).schemas = ctx.schemas := rfl
    rw [hschemas]
    cases ctx.schemas.resolve? stop.ref with
    | none => rfl
    | some schema =>
      cases schema with
      | multi allowed => exact winnerOf_congr hbelow _
      | _ => rfl

end Stop

/-! ## 3. Sanitized values -/

/-- `RendersAlike ctx ctx' stop s s'`: the sanitized values of an accepted place in two contexts,
put together in one way from those of the same places.  They differ in the rendition of leaves
alone; a choice has one winner, the same in both. -/
inductive RendersAlike (ctx ctx' : Context) : Stop → Value → Value → Prop
  | leaf {stop : Stop} {schema : Schema} {s s' : Value}
    (resolved : ctx.schemas.resolve? stop.ref = some schema) (leaf : schema.isLeaf = true)
    (rendition : Rendition ctx.options ctx'.options schema s s') : RendersAlike ctx ctx' stop s s'
  | container {stop : Stop} {schema : Schema} {became became' : Branch → Value}
    (resolved : ctx.schemas.resolve? stop.ref = some schema)
    (container : schema.isContainer = true)
    (children : ∀ b ∈ stop.value.represented.branches schema,
      RendersAlike ctx ctx' (stop.child b) (became b) (became' b)) :
    RendersAlike ctx ctx' stop (stop.value.represented.assemble schema became)
      (stop.value.represented.assemble schema became')
  | choice {stop : Stop} {allowed : List SchemaRef} {b : Branch} {s s' : Value}
    (resolved : ctx.schemas.resolve? stop.ref = some (.multi allowed))
    (wins : stop.winner? ctx = some b) (wins' : stop.winner? ctx' = some b)
    (winner : RendersAlike ctx ctx' (stop.child b) s s') : RendersAlike ctx ctx' stop s s'

/-- An accepted value is put together in the same way under every rendering. -/
theorem walk_rendersAlike (ctx : Context) (regexAsString hideConfidential : Option Bool) :
    ∀ levels path v ref r r', walk ctx levels path v ref = .ok r → r.isOk = true →
      walk (ctx.rendering regexAsString hideConfidential) levels path v ref = .ok r' →
      RendersAlike ctx (ctx.rendering regexAsString hideConfidential) ⟨levels, path, v, ref⟩
        r.placeholder r'.placeholder := by
  intro levels
  induction levels with
  | zero =>
    intro path v ref r r' h
    cases h
  | succ levels ih =>
    intro path v ref r r' h hok h'
    have hok' : r'.isOk = true := by
      obtain ⟨r'', h'', hlog⟩ := walk_ok_rendering h regexAsString hideConfidential
      obtain rfl := Except.ok.inj (h'.symm.trans h'')
      exact (congrArg (·.errors.isEmpty) hlog).trans hok
    obtain ⟨schema, D, hschema, hD, haccepts⟩ := walk_accepts h hok
    obtain ⟨schema', D', hschema', hD', haccepts'⟩ := walk_accepts h' hok'
    obtain rfl := Option.some.inj (hschema.symm.trans hschema')
    obtain hleaf | hcontainer | ⟨allowed, rfl⟩ := schema.leaf_or_container_or_choice
    · exact .leaf hschema hleaf (haccepts.rendition haccepts' hleaf rfl)
    · rw [haccepts.assembled hcontainer, haccepts'.assembled hcontainer]
      have hchildren := haccepts.children (Schema.ne_multi_of_isContainer hcontainer)
      exact .container hschema hcontainer fun b hb => ih _ _ _ _ _ (hD b hb) (hchildren b hb)
        (hD' b hb)
    · -- Both runs go on with the candidate that wins the first one.
      change Stop.walk _ ⟨levels + 1, path, v, ref⟩ = _ at h h'
      obtain ⟨b, hb, hwalk⟩ := Stop.exists_winner h hok hschema
      obtain ⟨b', hb', hwalk'⟩ := Stop.exists_winner h' hok' hschema'
      have hsame : some b' = some b := by
        rw [← hb, ← hb', Stop.winner?_rendering]
      obtain rfl := Option.some.inj hsame
      exact .choice hschema hb hb' (ih _ _ _ _ _ hwalk hok hwalk')

/-- Two validations that end alike: both are too deep at the same place, or both are rejected for
the same reasons, or both are accepted with the same warnings. -/
inductive SameVerdict (ctx ctx' : Context) (stop : Stop) :
    Except DepthExceeded Report → Except DepthExceeded Report → Prop
  | aborted (cause : DepthExceeded) : SameVerdict ctx ctx' stop (.error cause) (.error cause)
  | rejected {errors warnings : List Diagnostic} (nonempty : errors ≠ []) :
    SameVerdict ctx ctx' stop (.ok ⟨none, errors, warnings⟩) (.ok ⟨none, errors, warnings⟩)
  | accepted {s s' : Value} {warnings : List Diagnostic} (alike : RendersAlike ctx ctx' stop s s') :
    SameVerdict ctx ctx' stop (.ok ⟨some s, [], warnings⟩) (.ok ⟨some s', [], warnings⟩)

theorem sameVerdict_of_log {ctx ctx' : Context} {stop : Stop} {r r' : Report}
    (closed : r.sanitized.isSome = r.isOk) (closed' : r'.sanitized.isSome = r'.isOk)
    (hlog : r'.log = r.log)
    (alike : r.isOk = true → RendersAlike ctx ctx' stop r.placeholder r'.placeholder) :
    SameVerdict ctx ctx' stop (.ok r) (.ok r') := by
  obtain ⟨s, errors, warnings⟩ := r
  obtain ⟨s', errors', warnings'⟩ := r'
  cases hlog
  cases errors with
  | nil =>
    obtain ⟨t, rfl⟩ := Option.isSome_iff_exists.1 closed
    obtain ⟨t', rfl⟩ := Option.isSome_iff_exists.1 closed'
    exact .accepted (alike rfl)
  | cons d rest =>
    obtain rfl := Option.isNone_iff_eq_none.1 (Option.isSome_eq_false_iff.1 closed)
    obtain rfl := Option.isNone_iff_eq_none.1 (Option.isSome_eq_false_iff.1 closed')
    exact .rejected (List.cons_ne_nil d rest)

/-- Options of rendering change no verdict and no winner, and what they change of a sanitized value
is how patterns and confidential texts are written. -/
theorem validate_renderings (ctx : Context) (v : Value) (ref : SchemaRef)
    (regexAsString hideConfidential : Option Bool) :
    SameVerdict ctx (ctx.rendering regexAsString hideConfidential) (.first ctx v ref)
        (validate ctx v ref) (validate (ctx.rendering regexAsString hideConfidential) v ref) ∧
      ∀ stop : Stop,
        stop.winner? (ctx.rendering regexAsString hideConfidential) = stop.winner? ctx := by
  refine ⟨?_, fun stop => stop.winner?_rendering ctx regexAsString hideConfidential⟩
  cases h : validate ctx v ref with
  | error cause =>
    have h' : validate (ctx.rendering regexAsString hideConfidential) v ref = .error cause :=
      walk_error_rendering h regexAsString hideConfidential
    rw [h']
    exact .aborted cause
  | ok r =>
    obtain ⟨r', h', hlog⟩ := walk_ok_rendering h regexAsString hideConfidential
    change validate _ v ref = _ at h'
    rw [h']
    exact sameVerdict_of_log (walk_sanitized _ _ _ _ _ h) (walk_sanitized _ _ _ _ _ h') hlog
      fun hok => walk_rendersAlike ctx regexAsString hideConfidential _ _ _ _ _ _ h hok h'

end Conform
