import Conform.Proofs.Acceptance

/-!
# Changes — what sanitizing does to a value, and what it says about it

An accepted value becomes its sanitized value by changes at the nodes that are visited.  `Becomes`
lists them: some are made in silence, and some are announced, each by one warning at the node that
makes it.  Nothing else is changed; in particular items and entries keep their order, but for the
two fields of an enum.  The warnings of a report are the announcements, in the order of the changes
(`validate_changes`).
-/

namespace Conform

/-! ## 1. Announcements -/

inductive Change where
  /-- A value is taken for another one. -/
  | coerced (path : Path) (given taken : Value)
  /-- An entry of a mapping is left out, as its key is not declared. -/
  | dropped (path : Path) (given : Value) (key : String)

structure Remark where
  path : Path
  value : Value
  finding : Finding

def Diagnostic.remark (d : Diagnostic) : Remark := ⟨d.path, d.value, d.finding⟩

def Change.remark : Change → Remark
  | .coerced path given _ => ⟨path, given, .typeCoercion⟩
  | .dropped path given key => ⟨path, given, .extraKey key⟩

/-! ## 2. Changes of scalars -/

inductive Keeps (options : Options) : Schema → Value → Value → Prop
  | freeform (v : Value) : Keeps options .freeform v v
  | boolean (b : Bool) : Keeps options .boolean (.bool b) (.bool b)
  | number (rules : NumberRules) (n : Number) :
    Keeps options (.number rules) (.number n) (.number n)
  | string (rules : StringRules) (s : String) :
    Keeps options (.string rules) (.string s) (.string s)
  | pattern (p : Pattern) : Keeps options .regex (.regex p) (renderPattern options p)
  | literal {literal : String} {p : Pattern} (compiles : Pattern.ofLiteral literal = .ok p) :
    Keeps options .regex (.string literal) (renderPattern options p)

/-- The scalars that are taken for others: strings for booleans and numbers, and these for
strings. -/
inductive Coerces : Schema → Value → Value → Prop
  | boolean (b : Bool) : Coerces .boolean (.string (if b then "true" else "false")) (.bool b)
  | number (rules : NumberRules) {text : String} {n : Number}
    (literal : Number.ofLiteral? text = some n) :
    Coerces (.number rules) (.string text) (.number n)
  | numberText (rules : StringRules) (n : Number) :
    Coerces (.string rules) (.number n) (.string n.format.toLower)
  | booleanText (rules : StringRules) (b : Bool) :
    Coerces (.string rules) (.bool b) (.string (if b then "true" else "false"))

/-! ## 3. Changes of values -/

/-- A candidate that wins the choice at a place: the first of the best, without errors. -/
def Wins (ctx : Context) (path : Path) (v : Value) (allowed : List SchemaRef)
    (c : SchemaRef × Nat) : Prop :=
  ∃ (levels : Nat) (D : Reports),
    (∀ b ∈ v.branches (.multi allowed),
      walk ctx levels (path ++ [b.step]) b.value b.ref = .ok (b.report D)) ∧
    Report.best? (allowed.zipIdx.map fun c => D (candidateKey c.2) v c.1) =
      some (D (candidateKey c.2) v c.1) ∧
    (D (candidateKey c.2) v c.1).isOk = true

mutual

/-- `Becomes ctx path ref v s changes`: held against `ref` at `path`, the value `v` becomes `s` by
changes of which `changes` are announced. An external value gives way to its representation in
silence, at every node. -/
inductive Becomes (ctx : Context) :
    Path → SchemaRef → Value → Value → List Change → Prop
  | kept {path : Path} {ref : SchemaRef} {schema : Schema} {v s : Value}
    (resolved : ctx.schemas.resolve? ref = some schema)
    (keeps : Keeps ctx.options schema v.represented s) : Becomes ctx path ref v s []
  | coerced {path : Path} {ref : SchemaRef} {schema : Schema} {v s : Value}
    (resolved : ctx.schemas.resolve? ref = some schema)
    (coerces : Coerces schema v.represented s) :
    Becomes ctx path ref v s [.coerced path v.represented s]
  | list {path : Path} {ref elements : SchemaRef} {v : Value} {given taken : List Value}
    {changes : List Change} (resolved : ctx.schemas.resolve? ref = some (.list elements))
    (value : v.represented = .list given)
    (items : ItemsBecome ctx path elements 0 given taken changes) :
    Becomes ctx path ref v (.list taken) changes
  | index {path : Path} {ref elements : SchemaRef} {validKeys : Option Pattern} {v : Value}
    {given taken : Entries Value} {changes : List Change}
    (resolved : ctx.schemas.resolve? ref = some (.index elements validKeys))
    (value : v.represented = .map given)
    (entries : EntriesBecome ctx path v.represented (fun _ => some elements) given taken changes) :
    Becomes ctx path ref v (.map taken) changes
  | emptyIndex {path : Path} {ref elements : SchemaRef} {validKeys : Option Pattern} {v : Value}
    (resolved : ctx.schemas.resolve? ref = some (.index elements validKeys))
    (value : v.represented = .list []) : Becomes ctx path ref v (.map []) []
  /-- A list with items is taken for the mapping of its positions. -/
  | listIndex {path : Path} {ref elements : SchemaRef} {validKeys : Option Pattern} {v : Value}
    {items : List Value} {taken : Entries Value} {changes : List Change}
    (resolved : ctx.schemas.resolve? ref = some (.index elements validKeys))
    (value : v.represented = .list items) (nonempty : items ≠ [])
    (entries : EntriesBecome ctx path v.represented (fun _ => some elements)
      (Value.entriesOfList items) taken changes) :
    Becomes ctx path ref v (.map taken)
      (.coerced path v.represented (.map (Value.entriesOfList items)) :: changes)
  | args {path : Path} {ref : SchemaRef} {fields : Fields} {v : Value}
    {given taken : Entries Value} {changes : List Change}
    (resolved : ctx.schemas.resolve? ref = some (.args fields))
    (value : v.represented.keyed? = some given)
    (entries : EntriesBecome ctx path v.represented fields.get? given taken changes) :
    Becomes ctx path ref v (.map taken) changes
  | object {path : Path} {ref : SchemaRef} {fields : Fields} {v : Value}
    {given taken : Entries Value} {changes : List Change}
    (resolved : ctx.schemas.resolve? ref = some (.object fields))
    (value : v.represented.keyed? = some given)
    (entries : EntriesBecome ctx path v.represented fields.get? given taken changes) :
    Becomes ctx path ref v (.map taken) changes
  /-- Of an enum the two fields alone are kept, the value field first; a payload that is not there
  is empty. -/
  | enum {path : Path} {ref : SchemaRef} {valueField metaField name : String} {strict : Bool}
    {options : Entries Fields} {fields : Fields} {v payload : Value} {given : Entries Value}
    {changes : List Change}
    (resolved : ctx.schemas.resolve? ref = some (.enum valueField metaField strict options))
    (value : v.represented.keyed? = some given)
    (discriminant : given.get? valueField = some (.string name))
    (option : options.get? name = some fields) (distinct : valueField ≠ metaField)
    (becomes : Becomes ctx (path ++ [.key metaField]) (payloadRef strict fields)
      (payloadOf given metaField) payload changes) :
    Becomes ctx path ref v (.map [(valueField, .string name), (metaField, payload)]) changes
  | multi {path : Path} {ref : SchemaRef} {allowed : List SchemaRef} {c : SchemaRef × Nat}
    {v s : Value} {changes : List Change}
    (resolved : ctx.schemas.resolve? ref = some (.multi allowed)) (candidate : c ∈ allowed.zipIdx)
    (wins : Wins ctx path v.represented allowed c)
    (becomes : Becomes ctx (path ++ [candidateKey c.2]) c.1 v.represented s changes) :
    Becomes ctx path ref v s changes

inductive ItemsBecome (ctx : Context) :
    Path → SchemaRef → Nat → List Value → List Value → List Change → Prop
  | nil {path : Path} {ref : SchemaRef} {position : Nat} : ItemsBecome ctx path ref position [] [] []
  | cons {path : Path} {ref : SchemaRef} {position : Nat} {v s : Value} {given taken : List Value}
    {first rest : List Change}
    (becomes : Becomes ctx (path ++ [.index position]) ref v s first)
    (items : ItemsBecome ctx path ref (position + 1) given taken rest) :
    ItemsBecome ctx path ref position (v :: given) (s :: taken) (first ++ rest)

inductive EntriesBecome (ctx : Context) :
    Path → Value → (String → Option SchemaRef) → Entries Value → Entries Value → List Change → Prop
  | nil {path : Path} {whole : Value} {declared : String → Option SchemaRef} :
    EntriesBecome ctx path whole declared [] [] []
  | kept {path : Path} {whole : Value} {declared : String → Option SchemaRef} {key : String}
    {ref : SchemaRef} {v s : Value} {given taken : Entries Value} {first rest : List Change}
    (field : declared key = some ref)
    (becomes : Becomes ctx (path ++ [.key key]) ref v s first)
    (entries : EntriesBecome ctx path whole declared given taken rest) :
    EntriesBecome ctx path whole declared ((key, v) :: given) ((key, s) :: taken) (first ++ rest)
  | dropped {path : Path} {whole : Value} {declared : String → Option SchemaRef} {key : String}
    {v : Value} {given taken : Entries Value} {rest : List Change} (undeclared : declared key = none)
    (entries : EntriesBecome ctx path whole declared given taken rest) :
    EntriesBecome ctx path whole declared ((key, v) :: given) taken
      (.dropped path whole key :: rest)

end

/-! ## 4. Warnings as announcements -/

/-- A value becomes another one by changes that are announced by the given warnings. -/
def Accounted (ctx : Context) (path : Path) (ref : SchemaRef) (v s : Value)
    (warnings : List Diagnostic) : Prop :=
  ∃ changes, Becomes ctx path ref v s changes ∧
    warnings.map Diagnostic.remark = changes.map Change.remark

section Nodes

variable {ctx : Context} {path : Path} {ref : SchemaRef} {v : Value} {schema : Schema}
  {D : Reports}

theorem accounted_items {elements : SchemaRef} (items : List Value) (position : Nat)
    (each : ∀ c ∈ items.zipIdx position, Accounted ctx (path ++ [.index c.2]) elements c.1
      (D (.index c.2) c.1 elements).placeholder (D (.index c.2) c.1 elements).warnings) :
    ∃ changes, ItemsBecome ctx path elements position items
        ((items.zipIdx position).map fun c => (D (.index c.2) c.1 elements).placeholder) changes ∧
      ((items.zipIdx position).flatMap fun c =>
        (D (.index c.2) c.1 elements).warnings).map Diagnostic.remark =
          changes.map Change.remark := by
  induction items generalizing position with
  | nil => exact ⟨[], .nil, rfl⟩
  | cons item rest ih =>
    rw [List.zipIdx_cons, List.forall_mem_cons] at each
    obtain ⟨first, hbecomes, hfirst⟩ := each.1
    obtain ⟨later, hitems, hlater⟩ := ih (position + 1) each.2
    refine ⟨first ++ later, .cons hbecomes hitems, ?_⟩
    rw [List.zipIdx_cons, List.flatMap_cons, List.map_append, List.map_append, hlater]
    exact congrArg (· ++ _) hfirst

theorem accounted_entries (v : Value) (schema : Schema) (declared : String → Option SchemaRef)
    (entries : Entries Value)
    (each : ∀ e ∈ entries, ∀ field, declared e.1 = some field →
      Accounted ctx (path ++ [.key e.1]) field e.2
        (D (.key e.1) e.2 field).placeholder (D (.key e.1) e.2 field).warnings) :
    ∃ changes, EntriesBecome ctx path v.represented declared entries
        (entries.filterMap fun e => (declared e.1).map fun field =>
          (e.1, (D (.key e.1) e.2 field).placeholder)) changes ∧
      (entries.flatMap fun e => (nodeAt path v schema).fieldWarnings
        (e.1, (declared e.1).map (D (.key e.1) e.2))).map Diagnostic.remark =
          changes.map Change.remark := by
  induction entries with
  | nil => exact ⟨[], .nil, rfl⟩
  | cons e rest ih =>
    obtain ⟨key, child⟩ := e
    rw [List.forall_mem_cons] at each
    obtain ⟨later, hentries, hlater⟩ := ih each.2
    rw [List.flatMap_cons, List.map_append, hlater]
    dsimp only
    cases hfield : declared key with
    | none =>
      refine ⟨.dropped path v.represented key :: later, ?_, rfl⟩
      rw [List.filterMap_cons_none (by rw [hfield]; rfl)]
      exact .dropped hfield hentries
    | some field =>
      obtain ⟨first, hbecomes, hfirst⟩ := each.1 field hfield
      refine ⟨first ++ later, ?_, ?_⟩
      · rw [List.filterMap_cons_some (by rw [hfield]; rfl)]
        exact .kept hfield hbecomes hentries
      · rw [List.map_append]
        exact congrArg (· ++ _) hfirst

/-- A scalar that is kept announces nothing. -/
theorem accounted_kept (hschema : ctx.schemas.resolve? ref = some schema) {s : Value}
    (keeps : Keeps ctx.options schema v.represented s) : Accounted ctx path ref v s [] :=
  ⟨[], .kept hschema keeps, rfl⟩

/-- A scalar that is taken for another one announces one change. -/
theorem accounted_coerced (hschema : ctx.schemas.resolve? ref = some schema) {s : Value}
    (coerces : Coerces schema v.represented s) :
    Accounted ctx path ref v s ((nodeAt path v schema).coercionIf true) :=
  ⟨[.coerced path v.represented s], .coerced hschema coerces, rfl⟩

theorem accounted_number {rules : NumberRules} {n : Number}
    (hschema : ctx.schemas.resolve? ref = some (.number rules))
    (value : coerceNumber? v.represented = some n) :
    Accounted ctx path ref v (.number n)
      ((nodeAt path v (.number rules)).coercionIf v.represented.number?.isNone) := by
  unfold coerceNumber? at value
  split at value
  · rename_i m hv
    by_cases hm : m.isFinite = true
    · rw [if_pos hm] at value
      obtain rfl := Option.some.inj value
      rw [hv]
      exact accounted_kept hschema (by rw [hv]; exact .number rules m)
    · rw [if_neg hm] at value
      cases value
  · rename_i text hv
    have coerces : Coerces (.number rules) v.represented (.number n) := by
      rw [hv]
      exact .number rules value
    have hnone : v.represented.number?.isNone = true := by
      rw [hv]
      rfl
    rw [hnone]
    exact accounted_coerced hschema coerces
  · cases value

theorem accounted_string {rules : StringRules} {text : String} {coerced : Bool}
    (hschema : ctx.schemas.resolve? ref = some (.string rules))
    (value : coerceString? v.represented = some (text, coerced)) :
    Accounted ctx path ref v (.string text)
      ((nodeAt path v (.string rules)).coercionIf coerced) := by
  cases hv : v.represented with
  | string s =>
    rw [hv] at value
    cases value
    exact accounted_kept hschema (by rw [hv]; exact .string rules text)
  | number n =>
    rw [hv] at value
    cases value
    exact accounted_coerced hschema (by rw [hv]; exact .numberText rules n)
  | bool b =>
    rw [hv] at value
    cases value
    exact accounted_coerced hschema (by rw [hv]; exact .booleanText rules b)
  | _ =>
    rw [hv] at value
    cases value

/-- The mapping of an index: one that is given, or that of the positions of a list. -/
theorem accounted_index {elements : SchemaRef} {validKeys : Option Pattern}
    {entries : Entries Value}
    (hschema : ctx.schemas.resolve? ref = some (.index elements validKeys))
    (value : v.represented.keyed? = some entries)
    (each : ∀ e ∈ entries, Accounted ctx (path ++ [.key e.1]) elements e.2
      (D (.key e.1) e.2 elements).placeholder (D (.key e.1) e.2 elements).warnings) :
    Accounted ctx path ref v
      (.map (entries.map fun e => (e.1, (D (.key e.1) e.2 elements).placeholder)))
      ((nodeAt path v (.index elements validKeys)).listWarnings ++
        entries.flatMap fun e => (D (.key e.1) e.2 elements).warnings) := by
  -- A mapping without declared keys is one that declares every key.
  have hdeclared : ∀ e ∈ entries, ∀ field, some elements = some field →
      Accounted ctx (path ++ [.key e.1]) field e.2 (D (.key e.1) e.2 field).placeholder
        (D (.key e.1) e.2 field).warnings := by
    intro e he field hfield
    obtain rfl := Option.some.inj hfield
    exact each e he
  obtain ⟨changes, hentries, hchanges⟩ := accounted_entries v (.index elements validKeys)
    (fun _ => some elements) entries hdeclared
  simp only [Option.map_some, List.filterMap_eq_map'] at hentries
  have hwarnings : (entries.flatMap fun e => (D (.key e.1) e.2 elements).warnings).map
    Diagnostic.remark = changes.map Change.remark := hchanges
  cases hv : v.represented with
  | map given =>
    rw [hv] at value
    obtain rfl := Option.some.inj value
    rw [Node.listWarnings_map hv, List.nil_append]
    exact ⟨changes, .index hschema hv hentries, hwarnings⟩
  | list items =>
    -- A list is announced as coerced, unless it is empty.
    rw [hv] at value
    obtain rfl := Option.some.inj value
    cases items with
    | nil =>
      rw [Node.listWarnings_nil hv]
      exact ⟨[], .emptyIndex hschema hv, rfl⟩
    | cons item rest =>
      rw [Node.listWarnings_cons hv]
      refine ⟨_, .listIndex hschema hv (List.cons_ne_nil _ _) hentries, ?_⟩
      rw [List.map_append, hwarnings]
      rfl
  | _ =>
    rw [hv] at value
    cases value

/-- A mapping announces the changes of its declared fields and every entry that it drops. -/
theorem accounted_fields {fields : Fields} {entries : Entries Value}
    (children : ∀ b ∈ v.represented.branches (.args fields), (b.report D).isOk = true)
    (value : v.represented.keyed? = some entries)
    (below : ∀ b ∈ v.represented.branches (.args fields), (b.report D).isOk = true →
      Accounted ctx (path ++ [b.step]) b.ref b.value (b.report D).placeholder
        (b.report D).warnings) :
    ∃ changes, EntriesBecome ctx path v.represented fields.get? entries
        (Node.keptFields D fields entries) changes ∧
      ((nodeAt path v schema).entryWarnings D fields entries).map Diagnostic.remark =
        changes.map Change.remark := by
  refine accounted_entries v schema fields.get? entries fun e he field hfield => ?_
  have hmem := field_mem_branches value he hfield
  exact below _ hmem (children _ hmem)

/-- The ways in which a node is accepted are changes of its value and of its accepted children. -/
theorem accounted_of_accepts {levels : Nat} {s : Value} {ws : List Diagnostic}
    (hide : ctx.options.hidesConfidential = false)
    (hschema : ctx.schemas.resolve? ref = some schema)
    (h : (nodeAt path v schema).Accepts ctx D schema s ws)
    (walks : ∀ b ∈ v.represented.branches schema,
      walk ctx levels (path ++ [b.step]) b.value b.ref = .ok (b.report D))
    (below : ∀ b ∈ v.represented.branches schema, (b.report D).isOk = true →
      Accounted ctx (path ++ [b.step]) b.ref b.value (b.report D).placeholder
        (b.report D).warnings) :
    Accounted ctx path ref v s ws := by
  -- One way of becoming for each way of being accepted.
  cases h with
  | freeform => exact accounted_kept hschema (.freeform _)
  | @boolean b value =>
    have hv : v.represented = .bool b := value
    exact accounted_kept hschema (by rw [hv]; exact .boolean b)
  | @booleanName b value =>
    have hv : v.represented = .string (if b then "true" else "false") := value
    exact accounted_coerced hschema (by rw [hv]; exact .boolean b)
  | number value meets => exact accounted_number hschema value
  | string value meets =>
    rw [StringRules.shown_of_not_hides hide]
    exact accounted_string hschema value
  | @regex p value =>
    have hv : v.represented = .regex p := value
    exact accounted_kept hschema (by rw [hv]; exact .pattern p)
  | @regexLiteral literal p value compiles =>
    have hv : v.represented = .string literal := value
    exact accounted_kept hschema (by rw [hv]; exact .literal compiles)
  | @list elements items value children =>
    obtain ⟨changes, hitems, hchanges⟩ := accounted_items items 0 fun c hc => by
      have hmem := item_mem_branches value hc elements
      exact below _ hmem (children _ hmem)
    exact ⟨changes, .list hschema value hitems, hchanges⟩
  | @index elements validKeys entries value keys children =>
    refine accounted_index hschema value fun e he => ?_
    have hmem := entry_mem_branches value he elements validKeys
    exact below _ hmem (children _ hmem)
  | args value children =>
    obtain ⟨changes, hentries, hchanges⟩ := accounted_fields children value below
    exact ⟨changes, .args hschema value hentries, hchanges⟩
  | object value present children =>
    obtain ⟨changes, hentries, hchanges⟩ := accounted_fields children value below
    exact ⟨changes, .object hschema value hentries, hchanges⟩
  | @enum valueField metaField strict options entries name fields value discriminant option
      distinct children =>
    have hmem := payload_mem_branches value discriminant option metaField strict
    obtain ⟨changes, hbecomes, hchanges⟩ := below _ hmem (children _ hmem)
    exact ⟨changes, .enum hschema value discriminant option distinct hbecomes, hchanges⟩
  | @multi allowed c candidate accepted best =>
    obtain ⟨changes, hbecomes, hchanges⟩ :=
      below _ (candidate_mem_branches candidate v.represented) accepted
    have hwins : Wins ctx path v.represented allowed c := ⟨levels, D, walks, best, accepted⟩
    exact ⟨changes, .multi hschema candidate hwins hbecomes, hchanges⟩

end Nodes

/-- An accepted value becomes its sanitized value by the changes that the warnings announce, one
warning for each change, in their order and at their places. -/
theorem validate_changes (ctx : Context) (v : Value) (ref : SchemaRef) (r : Report)
    (hide : ctx.options.hidesConfidential = false) (h : validate ctx v ref = .ok r)
    (hok : r.isOk = true) :
    ∃ s changes, r.sanitized = some s ∧ Becomes ctx [] ref v s changes ∧
      r.warnings.map Diagnostic.remark = changes.map Change.remark := by
  obtain ⟨changes, hbecomes, hchanges⟩ : Accounted ctx [] ref v r.placeholder r.warnings := by
    refine acceptance_induction (P := fun _ path v ref s ws => Accounted ctx path ref v s ws)
      ?_ _ _ _ _ _ h hok
    intro levels path v ref schema D s ws hschema haccepts walks below
    exact accounted_of_accepts hide hschema haccepts walks below
  have hsanitized := congrArg Report.sanitized (walk_eq_of_isOk h hok)
  exact ⟨r.placeholder, changes, hsanitized, hbecomes, hchanges⟩

def sizeSchema : SchemaRef := .inline (.args [("size", .inline (.number {}))])

def sizeText : Value := .map [("size", .string "3"), ("note", .null)]

theorem validate_changes_sizeText :
    ∃ r s changes, validate ⟨sizeText, {}, {}⟩ sizeText sizeSchema = .ok r ∧
      r.sanitized = some s ∧ Becomes ⟨sizeText, {}, {}⟩ [] sizeSchema sizeText s changes ∧
      r.warnings.map Diagnostic.remark = changes.map Change.remark ∧ r.warnings.length = 2 := by
  have hvalidate : ((validate ⟨sizeText, {}, {}⟩ sizeText sizeSchema).toOption.map fun r =>
      (r.isOk, r.warnings.length)) = some (true, 2) := by
    decide +kernel
  cases hr : validate ⟨sizeText, {}, {}⟩ sizeText sizeSchema with
  | error e =>
    rw [hr] at hvalidate
    cases hvalidate
  | ok r =>
    rw [hr] at hvalidate
    have hpair := Prod.mk.inj (Option.some.inj hvalidate)
    obtain ⟨s, changes, hs, hbecomes, hchanges⟩ :=
      validate_changes ⟨sizeText, {}, {}⟩ sizeText sizeSchema r rfl hr hpair.1
    exact ⟨r, s, changes, rfl, hs, hbecomes, hchanges, hpair.2⟩

/-- The order of the keys of an enum is not kept: its value field always comes first. -/
theorem enum_reorders :
    ∃ (given taken : Entries Value) (r : Report),
      ({} : Options).hidesConfidential = false ∧
      validate ⟨.map given, {}, {}⟩ (.map given)
        (.inline (.enum "value" "meta" true [("x", [])])) = .ok r ∧
      r.isOk = true ∧ r.warnings = [] ∧ r.sanitized = some (.map taken) ∧
      ¬taken.keys.Sublist given.keys := by
  refine ⟨[("meta", .map []), ("value", .string "x")], [("value", .string "x"), ("meta", .map [])],
    ⟨some (.map [("value", .string "x"), ("meta", .map [])]), [], []⟩, rfl, rfl, rfl, rfl, rfl, ?_⟩
  decide

end Conform
