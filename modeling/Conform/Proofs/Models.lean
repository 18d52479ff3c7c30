import Conform.Proofs.Admission

/-!
# Models — what the metamodel promises about accepted models

A specification without errors is read, so that a model is built, rejected for its diagnostics or
given up for its depth (`build_outcomes`).  A specification without warnings keeps its keys, so that
the names that it may use are the names of its schemas, and an accepted model is closed under
reference (`build_closed`).
-/

namespace Conform.Model

variable {spec v : Value} {options : Options} {m : Model} {r : Report} {name : String}

/-! ## 1. Reading what was examined -/

/-- What conforms as a model is read, schema by schema, under the same names. -/
theorem schemaSet_reads (h : Conforms (context spec options) (.named "model") v) :
    ∃ (entries : Entries Value) (set : SchemaSet), v = .map entries ∧
      SchemaSet.ofValue v = .ok set ∧ set.names = entries.keys ∧
      (∀ key ∈ entries.keys, Metamodel.modelKeyPattern.isMatch key = true) ∧
      ∀ e ∈ set.schemas, (SchemaRef.inline e.2).Regular (Allows spec) := by
  have hs : (context spec options).schemas.resolve? (.named "model") =
    some (.index (.named "schema") (some Metamodel.modelKeyPattern)) := rfl
  rcases (conforms_iff hs).mp h with ⟨entries, rfl, keys, each⟩
  have hread : ∀ e ∈ entries, ∃ schema, Schema.ofValue e.2 = .ok schema ∧
      (SchemaRef.inline schema).Regular (Allows spec) := by
    intro e he
    have hentry := ofValue_reads (each e he) fun w _ => readsRef_of_conforms w
    rcases hentry with ⟨schema, hschema, -, hregular⟩
    exact ⟨schema, hschema, hregular⟩
  obtain ⟨schemas, hschemas⟩ := (mapM_eq_ok_iff entries fun e =>
    ((Schema.ofValue e.2).mapError (SchemaError.inSchema e.1)).map fun schema => (e.1, schema)).2
      fun e he => by
        rcases hread e he with ⟨schema, hschema, -⟩
        exact ⟨(e.1, schema), by rw [hschema]; rfl⟩
  refine ⟨entries, ⟨schemas⟩, rfl, ?_, ?_, fun key hkey => ?_, fun e he => ?_⟩
  · change (schemasOfEntries entries).map SchemaSet.mk = _
    rw [schemasOfEntries_eq, hschemas]
    rfl
  -- Each schema is read under its own name.
  · apply mapM_map_eq hschemas
    intro e s hs
    cases hschema : Schema.ofValue e.2 with
    | error e => rw [hschema] at hs; cases hs
    | ok schema => rw [hschema] at hs; cases hs; rfl
  · rcases List.mem_map.mp hkey with ⟨e, he, rfl⟩
    exact keys e he _ rfl
  · rcases mapM_mem hschemas e he with ⟨given, hgiven, hmap⟩
    rcases hread given hgiven with ⟨schema, hschema, hregular⟩
    rw [hschema] at hmap
    cases hmap
    exact hregular

/-- A specification without errors becomes one that has the form of models. -/
theorem examine_conforms (h : examine spec options = .ok r) (hok : r.isOk = true) :
    Conforms (context spec options) (.named "model") r.placeholder :=
  walk_conforms h hok

/-- Where a specification has neither errors nor warnings, its sanitized value has its keys. -/
theorem examine_hasKey (h : examine spec options = .ok r) (hok : r.isOk = true)
    (hwarnings : r.warnings = []) (hkey : spec.hasKey name = true) :
    ∃ entries : Entries Value, r.placeholder = .map entries ∧ name ∈ entries.keys := by
  have hwalk : walk (context spec options) ((context spec options).options.depthLimit + 1) [] spec
    (.named "model") = .ok r := h
  rcases walk_accepts hwalk hok with ⟨schema, D, hschema, -, haccepts⟩
  cases hschema
  rw [hwarnings] at haccepts
  -- The ways of acceptance are told apart by what they say of the value and of the warnings.
  generalize r.placeholder = s at haccepts ⊢
  generalize hws : ([] : List Diagnostic) = ws at haccepts
  cases haccepts with
  | index value keys children =>
    refine ⟨_, rfl, ?_⟩
    rw [Entries.keys_map]
    cases spec with
    | map given =>
      cases value
      exact Entries.contains_iff.mp hkey
    | list items =>
      -- A list with items is taken for a mapping with a warning, one without items has no keys.
      cases items with
      | nil =>
        rw [Value.hasKey] at hkey
        split at hkey
        · simp only [List.length_nil, Nat.not_lt_zero, decide_false, Bool.false_and,
            Bool.false_eq_true] at hkey
        · cases hkey
      | cons item rest => cases hws
    | _ => cases hkey

/-! ## 2. What building comes to -/

/-- A model is built from what a clean examination makes of the specification. -/
theorem build_of_examine (h : examine spec options = .ok r) :
    build spec options =
      if r.errors = [] ∧ r.warnings = [] then
        ((SchemaSet.ofValue r.placeholder).mapError ModelError.schema).map fun schemas =>
          ⟨schemas, options⟩
      else .error (.invalidModel r.errors r.warnings) := by
  unfold build
  rw [h]
  change (if (r.errors.isEmpty && r.warnings.isEmpty) = true then _ else _) = _
  simp only [Bool.and_eq_true, List.isEmpty_iff]
  by_cases hclean : r.errors = [] ∧ r.warnings = []
  · rw [if_pos hclean, if_pos hclean]
    cases SchemaSet.ofValue r.placeholder <;> rfl
  · rw [if_neg hclean, if_neg hclean]

/-- A model comes from a specification without errors and warnings. -/
theorem build_inv (h : build spec options = .ok m) :
    ∃ r, examine spec options = .ok r ∧ r.isOk = true ∧ r.warnings = [] ∧
      SchemaSet.ofValue r.placeholder = .ok m.schemas := by
  cases hr : examine spec options with
  | error cause =>
    unfold build at h
    rw [hr] at h
    cases h
  | ok r =>
    rw [build_of_examine hr] at h
    by_cases hclean : r.errors = [] ∧ r.warnings = []
    · rw [if_pos hclean] at h
      refine ⟨r, rfl, (Report.isOk_iff r).mpr hclean.1, hclean.2, ?_⟩
      cases hset : SchemaSet.ofValue r.placeholder with
      | error cause => rw [hset] at h; cases h
      | ok set => rw [hset] at h; cases h; rfl
    · rw [if_neg hclean] at h
      cases h

/-- A specification gives a model, or diagnostics, or is too deep: what passes the metamodel is
never a malformed schema. -/
theorem build_outcomes (spec : Value) (options : Options) :
    ((∃ m, build spec options = .ok m) ∨
      (∃ errors warnings, build spec options = .error (.invalidModel errors warnings)) ∨
      ∃ cause, build spec options = .error (.depthExceeded cause)) ∧
    ∀ r, examine spec options = .ok r → r.errors = [] → r.warnings = [] →
      ∃ s set, r.sanitized = some s ∧ SchemaSet.ofValue s = .ok set := by
  -- What the metamodel accepts can be read; this is the third way to end, which does not occur.
  have hread : ∀ r, examine spec options = .ok r → r.isOk = true →
      ∃ set, SchemaSet.ofValue r.placeholder = .ok set := by
    intro r hr hok
    rcases schemaSet_reads (examine_conforms hr hok) with ⟨entries, set, -, hset, -⟩
    exact ⟨set, hset⟩
  constructor
  · cases hr : examine spec options with
    | error cause =>
      refine .inr (.inr ⟨cause, ?_⟩)
      unfold build
      rw [hr]
      rfl
    | ok r =>
      rw [build_of_examine hr]
      by_cases hclean : r.errors = [] ∧ r.warnings = []
      · rcases hread r hr ((Report.isOk_iff r).mpr hclean.1) with ⟨set, hset⟩
        rw [if_pos hclean, hset]
        exact .inl ⟨⟨set, options⟩, rfl⟩
      · rw [if_neg hclean]
        exact .inr (.inl ⟨r.errors, r.warnings, rfl⟩)
  · intro r hr herrors _
    have hok := (Report.isOk_iff r).mpr herrors
    rcases hread r hr hok with ⟨set, hset⟩
    exact ⟨r.placeholder, set, congrArg Report.sanitized (walk_eq_of_isOk hr hok), hset⟩

def pairSpec : Value :=
  .map [("pair", .map [("type", .string "args"), ("meta", .map [("fields", .map
    [("left", .string "pair"), ("right", .string "pair"), ("label", .string "string")])])])]

theorem examine_pairSpec :
    ((examine pairSpec {}).toOption.map fun r => r.errors.isEmpty && r.warnings.isEmpty) =
      some true := by
  decide +kernel

theorem build_outcomes_pairSpec :
    ∃ r s set, examine pairSpec {} = .ok r ∧ r.sanitized = some s ∧
      SchemaSet.ofValue s = .ok set := by
  have hclean := examine_pairSpec
  cases hr : examine pairSpec {} with
  | error cause => rw [hr] at hclean; cases hclean
  | ok r =>
    rw [hr] at hclean
    have hempty := Bool.and_eq_true_iff.mp (Option.some.inj hclean)
    have hread := (build_outcomes pairSpec {}).2 r hr
      (List.isEmpty_iff.mp hempty.1) (List.isEmpty_iff.mp hempty.2)
    rcases hread with ⟨s, set, hs, hset⟩
    exact ⟨r, s, set, rfl, hs, hset⟩

/-! ## 3. Closure under reference -/

/-- A name of the model means the schema under this name. -/
theorem validate_of_get? {schema : Schema} (h : m.schemas.get? name = some schema) (v : Value)
    (call : Options) :
    m.validate v name call =
      ((Conform.validate ⟨v, m.schemas, m.options.merge call⟩ v (.inline schema)).mapError
        ModelError.depthExceeded).map Outcome.ofReport := by
  unfold validate
  rw [h]

/-- An accepted model has names that models may have, and its schemas mention no names but those of
the model and of primitives. -/
theorem build_regular (h : build spec options = .ok m) :
    (∀ key ∈ m.schemas.names, Metamodel.modelKeyPattern.isMatch key = true) ∧
      ∀ e ∈ m.schemas.schemas, (SchemaRef.inline e.2).Regular m.schemas.Knows := by
  rcases build_inv h with ⟨r, hr, hok, hwarnings, hset⟩
  obtain ⟨entries, set, hentries, hread, hnames, hkeys, hregular⟩ :=
    schemaSet_reads (examine_conforms hr hok)
  rw [hset] at hread
  cases hread
  constructor
  · rw [hnames]
    exact hkeys
  -- The names that the specification may use are keys of it, and keys of it are names of the model.
  · intro e he
    refine (hregular e he).imp fun name hname => ?_
    rcases hname with hprimitive | hkey
    · exact .inr hprimitive
    · rcases examine_hasKey hr hok hwarnings hkey with ⟨entries', hentries', hmem⟩
      rw [hentries] at hentries'
      cases hentries'
      rw [← hnames] at hmem
      exact .inl (Entries.contains_iff.mpr hmem)

/-- An accepted model mentions the names of its schemas and of primitives alone, so that it
validates any value, if the depth suffices, without meeting a reference that means nothing. -/
theorem build_closed (spec : Value) (options : Options) (m : Model)
    (h : build spec options = .ok m) :
    m.schemas.Closed ∧ ∀ v call, ∀ name ∈ m.schemas.names,
      ((∃ outcome, m.validate v name call = .ok outcome ∧
          ∀ d ∈ outcome.errorList ++ outcome.warningList, d.finding.isKnown = true) ∨
        ∃ cause, m.validate v name call = .error (.depthExceeded cause)) ∧
      ∀ schema, m.schemas.get? name = some schema → ∀ w target,
        m.schemas.Visits v (.inline schema) w target →
          (m.schemas.resolve? target).isSome = true := by
  have hclosed : m.schemas.Closed := fun e he => ((build_regular h).2 e he).names
  refine ⟨hclosed, fun v call name hname => ?_⟩
  rcases Option.isSome_iff_exists.1 (Entries.get?_isSome_iff.2 hname) with ⟨schema, hschema⟩
  -- The names in a schema of the set are known, and so are those that they lead to.
  have hknown : ∀ n, (SchemaRef.inline schema).Mentions n → m.schemas.Knows n :=
    hclosed _ (Entries.mem_of_get? hschema)
  refine ⟨?_, fun schema' hschema' w target hvisits => ?_⟩
  · rw [validate_of_get? hschema]
    cases hv : Conform.validate ⟨v, m.schemas, m.options.merge call⟩ v (.inline schema) with
    | error cause => exact .inr ⟨cause, rfl⟩
    | ok report =>
      refine .inl ⟨Outcome.ofReport report, rfl, ?_⟩
      have hsays := walk_knows hclosed _ _ _ _ _ hv hknown
      unfold Outcome.ofReport
      intro d hd
      split at hd
      · exact hsays.2 d (by simpa [Outcome.errorList, Outcome.warningList] using hd)
      · exact hsays.1 d (by simpa [Outcome.errorList, Outcome.warningList] using hd)
  · change m.schemas.schemas.get? name = some schema' at hschema'
    rw [hschema] at hschema'
    cases hschema'
    exact hvisits.resolves hclosed hknown

theorem build_closed_pairSpec :
    ∃ m, build pairSpec {} = .ok m ∧ m.schemas.names = ["pair"] ∧ m.schemas.Closed := by
  have hbuild : ((build pairSpec {}).toOption.map fun m => m.schemas.names) = some ["pair"] := by
    decide +kernel
  cases hm : build pairSpec {} with
  | error cause => rw [hm] at hbuild; cases hbuild
  | ok m =>
    rw [hm] at hbuild
    exact ⟨m, rfl, Option.some.inj hbuild, (build_closed pairSpec {} m hm).1⟩

end Conform.Model
