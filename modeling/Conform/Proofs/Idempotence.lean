import Conform.Proofs.Cleanness
import Conform.Proofs.Literals
import Conform.Proofs.References

/-!
# Idempotence — sanitized values are accepted as they are

What a handler gives back is in the form that the same handler takes without a warning.  Among the
candidates of a choice another one may win the second time, but it cannot have more diagnostics
than the first winner, and that one has none.  Without choices the second walk is the identity, and
goes no deeper than the first.
-/

namespace Conform

/-! ## 1. External values inside values -/

inductive Value.Within : Value → Value → Prop
  | self (v : Value) : Within v v
  | item {w item : Value} {items : List Value} (mem : item ∈ items) (within : Within w item) :
    Within w (.list items)
  | entry {w : Value} {e : String × Value} {entries : Entries Value} (mem : e ∈ entries)
    (within : Within w e.2) : Within w (.map entries)
  | representation {w representation : Value} {handle : Nat} (within : Within w representation) :
    Within w (.external handle representation)

/-- No external value in it stands for another external value. -/
def Value.Direct (v : Value) : Prop :=
  ∀ handle handle' w, ¬(Value.external handle (.external handle' w)).Within v

namespace Value

variable {v w : Value} {entries : Entries Value}

theorem Within.trans {x : Value} (h : w.Within x) (hx : x.Within v) : w.Within v := by
  induction hx with
  | self => exact h
  | item mem _ ih => exact .item mem ih
  | entry mem _ ih => exact .entry mem ih
  | representation _ ih => exact .representation ih

theorem Direct.within (h : v.Direct) (hw : w.Within v) : w.Direct :=
  fun handle handle' x hx => h handle handle' x (hx.trans hw)

theorem direct_string (s : String) : (string s).Direct := by
  intro handle handle' w h
  cases h

theorem direct_map : (map entries).Direct ↔ ∀ e ∈ entries, e.2.Direct := by
  constructor
  · intro h e he
    exact h.within (.entry he (.self e.2))
  · intro h handle handle' w hw
    cases hw with
    | entry mem within => exact h _ mem handle handle' w within

theorem direct_external {handle : Nat} :
    (external handle v).Direct ↔ v.represented = v ∧ v.Direct := by
  constructor
  · intro h
    refine ⟨?_, h.within (.representation (.self v))⟩
    cases v with
    | external handle' w => exact absurd (.self _) (h handle handle' w)
    | _ => rfl
  · rintro ⟨hv, hdirect⟩ handle' handle'' w hw
    cases hw with
    | self => cases hv
    | representation within => exact hdirect handle' handle'' w within

theorem represented_within (v : Value) : v.represented.Within v := by
  cases v with
  | external handle representation => exact .representation (.self representation)
  | _ => exact .self _

/-- A direct value is represented by one step. -/
theorem Direct.represented_represented (h : v.Direct) :
    v.represented.represented = v.represented := by
  cases v with
  | external handle representation =>
    cases representation with
    | external handle' w => exact absurd (.self _) (h handle handle' w)
    | _ => rfl
  | _ => rfl

theorem keyed?_within (h : v.keyed? = some entries) {e : String × Value} (he : e ∈ entries) :
    e.2.Within v := by
  cases v with
  | map given =>
    cases h
    exact .entry he (.self e.2)
  | list items =>
    cases h
    rcases List.mem_map.mp he with ⟨c, hc, rfl⟩
    exact .item (List.fst_mem_of_mem_zipIdx hc) (.self c.1)
  | _ => cases h

/-- A child occurs in its parent, but for the payload that is not there. -/
theorem branch_within {schema : Schema} {b : Branch} (h : b ∈ v.branches schema) :
    b.value.Within v ∨ b.value = .map [] := by
  cases hasChild_of_mem h with
  | item value mem =>
    rw [value]
    exact .inl (.item (List.fst_mem_of_mem_zipIdx mem) (.self _))
  | entry value mem => exact .inl (keyed?_within value mem)
  | argument value mem field => exact .inl (keyed?_within value mem)
  | field value mem field => exact .inl (keyed?_within value mem)
  | @payload _ metaField _ _ _ _ entries value discriminant option =>
    unfold payloadOf
    cases hpayload : entries.get? metaField with
    | none => exact .inr rfl
    | some payload => exact .inl (keyed?_within value (Entries.mem_of_get? hpayload))
  | candidate mem => exact .inl (.self v)

/-- The children of a direct value are direct. -/
theorem Direct.branch {schema : Schema} {b : Branch} (h : v.Direct)
    (hb : b ∈ v.represented.branches schema) : b.value.Direct := by
  rcases branch_within hb with hwithin | hempty
  · exact h.within (hwithin.trans v.represented_within)
  · rw [hempty]
    rintro handle handle' w (_ | _ | ⟨mem, -⟩)
    exact absurd mem List.not_mem_nil

end Value

/-! ## 2. A node that is visited again -/

/-- A report that accepts a value without a warning, and unchanged where that is asked for. -/
structure Report.Settles (r : Report) (unchanged : Prop) (s : Value) : Prop where
  errors : r.errors = []
  warnings : r.warnings = []
  sanitized : unchanged → r.sanitized = some s

theorem Report.Settles.placeholder {r : Report} {unchanged : Prop} {s : Value}
    (h : r.Settles unchanged s) (hu : unchanged) : r.placeholder = s := by
  rw [Report.placeholder, h.sanitized hu, Option.getD_some]

theorem Report.Settles.close {r : Report} {unchanged : Prop} {s : Value}
    (h : r.Settles unchanged s) : r.close = r :=
  close_of_isOk ((isOk_iff r).mpr h.errors)

/-- A report that settles with nothing to change is the value itself. -/
theorem Report.Settles.eq {r : Report} {unchanged : Prop} {s : Value}
    (h : r.Settles unchanged s) (hu : unchanged) : r = ⟨some s, [], []⟩ := by
  rcases r with ⟨sanitized, errors, warnings⟩
  rcases h with ⟨herrors, hwarnings, hsanitized⟩
  cases herrors
  cases hwarnings
  cases hsanitized hu
  rfl

namespace Node

variable {node : Node} {ctx : Context} {D : Reports} {schema : Schema} {s : Value}
  {ws : List Diagnostic} {unchanged : Prop}

theorem get?_discriminant (valueField metaField : String) (discriminant payload : Value) :
    Entries.get? [(valueField, discriminant), (metaField, payload)] valueField =
      some discriminant := by
  rw [Entries.get?_cons, if_pos rfl]

theorem payloadOf_pair {valueField metaField : String} (distinct : valueField ≠ metaField)
    (discriminant payload : Value) :
    payloadOf [(valueField, discriminant), (metaField, payload)] metaField = payload := by
  rw [payloadOf, Entries.get?_cons, if_neg distinct.symm, Entries.get?_cons, if_pos rfl,
    Option.getD_some]

/-- The children of a sanitized value are the sanitized children. -/
theorem Accepts.branch (h : node.Accepts ctx D schema s ws)
    (hmulti : ∀ allowed, schema ≠ .multi allowed) {b : Branch} (hb : b ∈ s.branches schema) :
    ∃ b' ∈ node.value.branches schema, (b'.report D).isOk = true ∧ b.ref = b'.ref ∧
      b.value = (b'.report D).placeholder := by
  -- The entries of `args` and `object` are kept in the same way.
  have hfields (fields : Fields) (entries : Entries Value) (e : String × Value) (ref : SchemaRef)
      (hv : node.value.keyed? = some entries)
      (ok : ∀ b ∈ node.value.branches (.args fields), (b.report D).isOk = true)
      (he : e ∈ keptFields D fields entries) (href : fields.get? e.1 = some ref) :
      ∃ b' ∈ node.value.branches (.args fields), (b'.report D).isOk = true ∧ ref = b'.ref ∧
        e.2 = (b'.report D).placeholder := by
    rcases List.mem_filterMap.mp he with ⟨given, hgiven, hkept⟩
    rcases Option.map_eq_some_iff.1 hkept with ⟨ref', href', rfl⟩
    have hsame : ref' = ref := Option.some.inj (href'.symm.trans href)
    have hmem := field_mem_branches hv hgiven href'
    exact ⟨_, hmem, ok _ hmem, hsame.symm, rfl⟩
  cases h with
  | freeform | boolean | booleanName | number | string | regex | regexLiteral => cases hb
  | @list elements items value ok =>
    rcases List.mem_map.mp hb with ⟨c, hc, rfl⟩
    rcases List.mem_map.mp (List.fst_mem_of_mem_zipIdx hc) with ⟨given, hgiven, hvalue⟩
    have hmem := item_mem_branches value hgiven elements
    exact ⟨_, hmem, ok _ hmem, rfl, hvalue.symm⟩
  | @index elements validKeys entries value keys ok =>
    rcases List.mem_map.mp hb with ⟨e, he, rfl⟩
    rcases List.mem_map.mp he with ⟨given, hgiven, rfl⟩
    have hmem := entry_mem_branches value hgiven elements validKeys
    exact ⟨_, hmem, ok _ hmem, rfl, rfl⟩
  | @args fields entries value ok =>
    cases hasChild_of_mem hb with
    | argument kept mem field =>
      cases kept
      exact hfields fields entries _ _ value ok mem field
  | @object fields entries value present ok =>
    cases hasChild_of_mem hb with
    | field kept mem field =>
      cases kept
      exact hfields fields entries _ _ value ok mem field
  | @enum valueField metaField strict options entries name fields value discriminant option
      distinct ok =>
    have hmem := payload_mem_branches value discriminant option metaField strict
    -- The pair selects the option that was selected, with the sanitized payload.
    rw [branches_enum rfl (get?_discriminant ..) option, payloadOf_pair distinct] at hb
    rw [List.mem_singleton.mp hb]
    exact ⟨_, hmem, ok _ hmem, rfl, rfl⟩
  | multi => exact absurd rfl (hmulti _)

/-- A list settles when its items do. -/
theorem list_settles {elements : SchemaRef} {items : List Value} (hv : node.value = .list items)
    (children : ∀ b ∈ node.value.branches (.list elements),
      (b.report D).Settles unchanged b.value) :
    (node.report ctx D (.list elements)).Settles unchanged (.list items) := by
  have each : ∀ c ∈ items.zipIdx, (D (.index c.2) c.1 elements).Settles unchanged c.1 :=
    fun c hc => children _ (item_mem_branches hv hc elements)
  rw [report_list hv]
  constructor
  · exact List.flatMap_eq_nil_iff.2 fun c hc => (each c hc).errors
  · exact List.flatMap_eq_nil_iff.2 fun c hc => (each c hc).warnings
  · intro hu
    have hitems : (items.zipIdx.map fun c => (D (.index c.2) c.1 elements).placeholder) =
        items.zipIdx.map Prod.fst := List.map_congr_left fun c hc => (each c hc).placeholder hu
    dsimp only
    rw [hitems, List.zipIdx_map_fst]

/-- A mapping settles when its keys match and its values settle. -/
theorem index_settles {elements : SchemaRef} {validKeys : Option Pattern}
    {entries : Entries Value} (hv : node.value = .map entries)
    (keys : ∀ e ∈ entries, ∀ p, validKeys = some p → p.isMatch e.1 = true)
    (children : ∀ b ∈ node.value.branches (.index elements validKeys),
      (b.report D).Settles unchanged b.value) :
    (node.report ctx D (.index elements validKeys)).Settles unchanged (.map entries) := by
  have hkeyed : node.value.keyed? = some entries := by rw [hv]; rfl
  have each : ∀ e ∈ entries, (D (.key e.1) e.2 elements).Settles unchanged e.2 :=
    fun e he => children _ (entry_mem_branches hkeyed he elements validKeys)
  rw [report_index hkeyed]
  constructor
  · exact List.flatMap_eq_nil_iff.2 fun e he =>
      entryErrors_eq_nil.mpr ⟨keys e he, (each e he).errors⟩
  · dsimp only
    rw [listWarnings_map hv, List.nil_append]
    exact List.flatMap_eq_nil_iff.2 fun e he => (each e he).warnings
  · intro hu
    have hentries : (entries.map fun e => (e.1, (D (.key e.1) e.2 elements).placeholder)) =
        entries.map id := List.map_congr_left fun e he => by
      rw [(each e he).placeholder hu]
      rfl
    dsimp only
    rw [hentries, List.map_id]

/-- A mapping that has declared fields only keeps them all. -/
theorem fieldsReport_settles {required : Bool} {fields : Fields} {entries : Entries Value}
    (hv : node.value = .map entries)
    (declared : ∀ e ∈ entries, ∃ ref, fields.get? e.1 = some ref)
    (present : required = true → ∀ key ∈ fields.keys, entries.contains key = true)
    (children : ∀ b ∈ node.value.branches (.args fields),
      (b.report D).Settles unchanged b.value) :
    (node.fieldsReport D required fields).Settles unchanged (.map entries) := by
  have hkeyed : node.value.keyed? = some entries := by rw [hv]; rfl
  rw [fieldsReport_eq hkeyed]
  constructor
  · dsimp only
    rw [List.append_eq_nil_iff]
    constructor
    · exact List.flatMap_eq_nil_iff.2 fun b hb => (children b hb).errors
    · cases required with
      | false => rfl
      | true =>
        rw [if_pos rfl, missingFields, List.map_eq_nil_iff, List.filter_eq_nil_iff]
        intro key hkey
        rw [present rfl key hkey]
        decide
  · refine List.flatMap_eq_nil_iff.2 fun e he => ?_
    rcases declared e he with ⟨ref, href⟩
    rw [href]
    exact (children _ (field_mem_branches hkeyed he href)).warnings
  · intro hu
    have hentries : keptFields D fields entries = entries := by
      refine filterMap_eq_self fun e he => ?_
      rcases declared e he with ⟨ref, href⟩
      have hplaceholder := (children _ (field_mem_branches hkeyed he href)).placeholder hu
      change (D (.key e.1) e.2 ref).placeholder = e.2 at hplaceholder
      rw [href, Option.map_some, hplaceholder]
    dsimp only
    rw [hentries]

/-- An enum settles in its canonical form, with the discriminant in front. -/
theorem enum_settles {valueField metaField name : String} {strict : Bool}
    {options : Entries Fields} {fields : Fields} {payload : Value}
    (hv : node.value = .map [(valueField, .string name), (metaField, payload)])
    (distinct : valueField ≠ metaField) (option : options.get? name = some fields)
    (children : ∀ b ∈ node.value.branches (.enum valueField metaField strict options),
      (b.report D).Settles unchanged b.value) :
    (node.report ctx D (.enum valueField metaField strict options)).Settles unchanged
      (.map [(valueField, .string name), (metaField, payload)]) := by
  have hkeyed : node.value.keyed? = some [(valueField, .string name), (metaField, payload)] := by
    rw [hv]
    rfl
  have hchild : (D (.key metaField) payload (payloadRef strict fields)).Settles unchanged
      payload := by
    have hmem := payload_mem_branches hkeyed (get?_discriminant ..) option metaField strict
    have hbranch := children _ hmem
    rw [payloadOf_pair distinct] at hbranch
    exact hbranch
  rw [report_enum hkeyed (get?_discriminant ..) option distinct, payloadOf_pair distinct]
  refine ⟨hchild.errors, hchild.warnings, fun hu => ?_⟩
  dsimp only
  rw [hchild.placeholder hu]

theorem boolean_settles {b : Bool} (hv : node.value = .bool b) :
    node.boolean.Settles unchanged (.bool b) := by
  unfold boolean
  rw [hv]
  exact ⟨rfl, rfl, fun _ => rfl⟩

theorem number_settles {rules : NumberRules} {n : Number} (hv : node.value = .number n)
    (meets : rules.Meets n) : (node.number rules).Settles unchanged (.number n) := by
  have hcoerce : coerceNumber? node.value = some n := by
    rw [hv]
    exact coerceNumber?_number meets.finite
  rw [number_of_meets hcoerce meets, hv]
  exact ⟨rfl, rfl, fun _ => rfl⟩

/-- A string within the rules settles, unless it is hidden. -/
theorem string_settles {rules : StringRules} {text : String} (hv : node.value = .string text)
    (meets : rules.Meets ctx.root text) (hide : ctx.options.hidesConfidential = false) :
    (node.string ctx rules).Settles unchanged (.string text) := by
  have hcoerce : coerceString? node.value = some (text, false) := by
    rw [hv]
    rfl
  rw [string_of_meets hcoerce meets, StringRules.shown_of_not_hides hide]
  exact ⟨rfl, rfl, fun _ => rfl⟩

/-- A rendered pattern is read and rendered again. -/
theorem regex_settles {options : Options} {p : Pattern}
    (hv : node.value = renderPattern options p) :
    (node.regex options).Settles unchanged (renderPattern options p) := by
  have hregex : node.regex options = node.accept (renderPattern options p) := by
    unfold regex
    rw [hv]
    by_cases hrender : options.rendersRegex = true
    · rw [renderPattern, if_pos hrender]
      dsimp only
      rw [Pattern.ofLiteral_toLiteral]
      dsimp only
      rw [renderPattern, if_pos hrender]
    · rw [renderPattern, if_neg hrender]
      dsimp only
      rw [renderPattern, if_neg hrender]
  rw [hregex]
  exact ⟨rfl, rfl, fun _ => rfl⟩

/-- A node that is visited with its sanitized value settles when its children do. -/
theorem Accepts.again (h : node.Accepts ctx D schema s ws)
    (hmulti : ∀ allowed, schema ≠ .multi allowed) (hide : ctx.options.hidesConfidential = false)
    {node' : Node} (hv : node'.value = s) {D' : Reports}
    (children : ∀ b ∈ node'.value.branches schema, (b.report D').Settles unchanged b.value) :
    (node'.report ctx D' schema).Settles unchanged s := by
  cases h with
  | freeform => exact ⟨rfl, rfl, fun _ => congrArg some hv⟩
  | boolean => exact boolean_settles hv
  | booleanName => exact boolean_settles hv
  | number value meets => exact number_settles hv meets
  | string value meets =>
    rw [StringRules.shown_of_not_hides hide] at hv ⊢
    exact string_settles hv meets hide
  | regex value => exact regex_settles hv
  | regexLiteral value => exact regex_settles hv
  | list value ok => exact list_settles hv children
  | index value keys ok =>
    refine index_settles hv (fun e he => ?_) children
    rcases List.mem_map.mp he with ⟨given, hgiven, rfl⟩
    exact keys given hgiven
  | args value ok => exact fieldsReport_settles hv keptFields_declared nofun children
  | object value present ok =>
    exact fieldsReport_settles hv keptFields_declared
      (fun _ key hkey => keptFields_contains hkey (present key hkey)) children
  | enum value discriminant option distinct ok => exact enum_settles hv distinct option children
  | multi => exact absurd rfl (hmulti _)

end Node

/-! ## 3. The second walk -/

/-- No choice can be led to. -/
def SchemaSet.ChoiceFree (set : SchemaSet) (ref : SchemaRef) : Prop :=
  ∀ allowed, ¬set.Reaches ref (.multi allowed)

/-- What is known of a second walk, over the sanitized value of one down to `levels`. -/
structure Again (ctx : Context) (levels : Nat) (ref : SchemaRef) (s : Value) : Prop where
  represented : s.represented = s
  clean : ∀ levels' path r, walk ctx levels' path s ref = .ok r → r.errors = [] ∧ r.warnings = []
  unchanged : ctx.schemas.ChoiceFree ref → ∀ levels' path, levels ≤ levels' →
    walk ctx levels' path s ref = .ok ⟨some s, [], []⟩

section SecondWalk

variable {ctx : Context} {levels : Nat} {path : Path} {v s : Value} {ref : SchemaRef}
  {schema : Schema} {D : Reports} {ws : List Diagnostic}

/-- No choice can be led to from a part either. -/
theorem SchemaSet.ChoiceFree.part {set : SchemaSet} {part : SchemaRef}
    (h : set.ChoiceFree ref) (hschema : set.resolve? ref = some schema)
    (hpart : part ∈ schema.parts) : set.ChoiceFree part :=
  fun allowed hreaches => h allowed (.part hschema hpart hreaches)

theorem choiceFree_of_parts {set : SchemaSet} {ref : SchemaRef} {schema : Schema}
    (hschema : set.resolve? ref = some schema) (hmulti : ∀ allowed, schema ≠ .multi allowed)
    (hparts : ∀ part ∈ schema.parts, set.ChoiceFree part) : set.ChoiceFree ref := by
  intro allowed h
  cases h with
  | here resolved => exact hmulti allowed (Option.some.inj (hschema.symm.trans resolved))
  | part resolved mem reaches =>
    obtain rfl := Option.some.inj (hschema.symm.trans resolved)
    exact hparts _ mem allowed reaches

/-- What a choice accepts is what one candidate makes of the value. -/
theorem Node.Accepts.candidate {node : Node} {allowed : List SchemaRef}
    (h : node.Accepts ctx D (.multi allowed) s ws) :
    ∃ c ∈ allowed.zipIdx, (D (candidateKey c.2) node.value c.1).isOk = true ∧
      s = (D (candidateKey c.2) node.value c.1).placeholder := by
  cases h with
  | multi candidate accepted => exact ⟨_, candidate, accepted, rfl⟩

theorem Node.Accepts.represented {node : Node} (h : node.Accepts ctx D schema s ws)
    (hnode : node.value.represented = node.value)
    (below : ∀ b ∈ node.value.branches schema, (b.report D).isOk = true →
      (b.report D).placeholder.represented = (b.report D).placeholder) :
    s.represented = s := by
  have hpattern (p : Pattern) :
      (renderPattern ctx.options p).represented = renderPattern ctx.options p := by
    unfold renderPattern
    split <;> rfl
  cases h with
  | freeform => exact hnode
  | regex => exact hpattern _
  | regexLiteral => exact hpattern _
  | multi candidate accepted => exact below _ (candidate_mem_branches candidate _) accepted
  | _ => rfl

/-- The children of a sanitized value, unless it comes from a choice, are held again against what
they were held against before. -/
theorem Node.Accepts.branch_again (h : (nodeAt path v schema).Accepts ctx D schema s ws)
    (hmulti : ∀ allowed, schema ≠ .multi allowed) (hs : s.represented = s)
    (below : ∀ b ∈ v.represented.branches schema, (b.report D).isOk = true →
      Again ctx levels b.ref (b.report D).placeholder) :
    ∀ b ∈ s.represented.branches schema, Again ctx levels b.ref b.value := by
  intro b hb
  rw [hs] at hb
  rcases h.branch hmulti hb with ⟨given, hgiven, hok, href, hvalue⟩
  rw [href, hvalue]
  exact below given hgiven hok

/-- What a node accepts is accepted again, given that of its children. -/
theorem again_of_accepts (hide : ctx.options.hidesConfidential = false)
    (hschema : ctx.schemas.resolve? ref = some schema) (hv : v.Direct)
    (h : (nodeAt path v schema).Accepts ctx D schema s ws)
    (below : ∀ b ∈ v.represented.branches schema, (b.report D).isOk = true →
      Again ctx levels b.ref (b.report D).placeholder) :
    Again ctx (levels + 1) ref s := by
  have hs : s.represented = s := h.represented hv.represented_represented
    fun b hb hok => (below b hb hok).represented
  constructor
  · exact hs
  · intro levels' path' r hr
    cases levels' with
    | zero => cases hr
    | succ levels' =>
      rcases walk_inv hr hschema with ⟨D', hD', rfl⟩
      by_cases hmulti : ∀ allowed, schema ≠ .multi allowed
      -- Below a child there may be a choice, so its sanitized value is left open here.
      · have hchildren : ∀ b ∈ s.represented.branches schema,
            (b.report D').Settles False b.value := by
          intro b hb
          have hclean := (h.branch_again hmulti hs below b hb).clean _ _ _ (hD' b hb)
          exact ⟨hclean.1, hclean.2, False.elim⟩
        have hsettles : ((nodeAt path' s schema).report ctx D' schema).Settles False s :=
          h.again hmulti hide hs hchildren
        rw [hsettles.close]
        exact ⟨hsettles.errors, hsettles.warnings⟩
      · -- The candidate that won the first time has no diagnostics the second time.
        rcases Classical.not_forall.1 hmulti with ⟨allowed, hallowed⟩
        cases Classical.not_not.1 hallowed
        rcases h.candidate with ⟨c, hc, hok, hsc⟩
        have hwinner : Again ctx levels c.1 s := by
          rw [hsc]
          exact below _ (candidate_mem_branches hc _) hok
        have hclean : (D' (candidateKey c.2) s.represented c.1).errors = [] ∧
            (D' (candidateKey c.2) s.represented c.1).warnings = [] := by
          have hsecond := hD' _ (candidate_mem_branches hc _)
          rw [hs] at hsecond ⊢
          exact hwinner.clean _ _ _ hsecond
        have hchoice : ((nodeAt path' s (.multi allowed)).report ctx D' (.multi allowed)).errors =
            [] ∧ ((nodeAt path' s (.multi allowed)).report ctx D' (.multi allowed)).warnings = [] :=
          Node.choice_clean (List.mem_map.mpr ⟨c, hc, rfl⟩) hclean
        rw [Report.close_of_isOk ((Report.isOk_iff _).mpr hchoice.1)]
        exact hchoice
  · intro hfree levels' path' hle
    cases levels' with
    | zero => omega
    | succ levels' =>
      have hmulti : ∀ allowed, schema ≠ .multi allowed := by
        rintro allowed rfl
        exact hfree allowed (.here hschema)
      -- A child has one level less in both walks, so the second one has enough for it too.
      have hbelow : ∀ b ∈ s.represented.branches schema, ∀ path,
          walk ctx levels' path b.value b.ref = .ok ⟨some b.value, [], []⟩ := by
        intro b hb path
        have hpart := branch_ref_mem_parts hb
        exact (h.branch_again hmulti hs below b hb).unchanged (hfree.part hschema hpart) levels'
          path (show levels ≤ levels' by omega)
      obtain ⟨r, hr⟩ := (walk_completes_iff hschema).mpr fun b hb =>
        ⟨_, hbelow b hb (path' ++ [b.step])⟩
      rcases walk_inv hr hschema with ⟨D', hD', rfl⟩
      have hchildren : ∀ b ∈ s.represented.branches schema,
          (b.report D').Settles True b.value := by
        intro b hb
        have hreport : b.report D' = ⟨some b.value, [], []⟩ :=
          Except.ok.inj ((hD' b hb).symm.trans (hbelow b hb _))
        rw [hreport]
        exact ⟨rfl, rfl, fun _ => rfl⟩
      have hsettles : ((nodeAt path' s schema).report ctx D' schema).Settles True s :=
        h.again hmulti hide hs hchildren
      rw [hr, hsettles.close, hsettles.eq trivial]

end SecondWalk

/-- What a walk makes of a direct value is accepted again. -/
theorem walk_again {ctx : Context} (hide : ctx.options.hidesConfidential = false) :
    ∀ levels path v ref r, walk ctx levels path v ref = .ok r → r.isOk = true →
      v.Direct → Again ctx levels ref r.placeholder := by
  refine acceptance_induction (P := fun levels _ v ref s _ => v.Direct → Again ctx levels ref s) ?_
  intro levels path v ref schema D s ws hschema haccepts hD ih hv
  exact again_of_accepts hide hschema hv haccepts fun b hb hok => ih b hb hok (hv.branch hb)

/-- A sanitized value that is validated again is too deep or accepted without warnings; where no
choice is led to, it is accepted as it is. -/
theorem validate_idempotent (ctx : Context) (v : Value) (ref : SchemaRef) (r : Report) (s : Value)
    (hide : ctx.options.hidesConfidential = false) (hv : v.Direct)
    (h : validate ctx v ref = .ok r) (hs : r.sanitized = some s) :
    ((∃ cause, validate ctx s ref = .error cause) ∨
      ∃ s', validate ctx s ref = .ok ⟨some s', [], []⟩) ∧
    (ctx.schemas.ChoiceFree ref → validate ctx s ref = .ok ⟨some s, [], []⟩) := by
  have hok : r.isOk = true := by
    rw [← walk_sanitized _ _ _ _ _ h, hs]
    rfl
  have hagain : Again ctx (ctx.options.depthLimit + 1) ref s := by
    have hplaceholder := walk_again hide _ _ _ _ _ h hok hv
    rw [Report.placeholder, hs] at hplaceholder
    exact hplaceholder
  constructor
  · cases hr : validate ctx s ref with
    | error cause => exact .inl ⟨cause, rfl⟩
    | ok r' =>
      rcases hagain.clean _ _ _ hr with ⟨herrors, hwarnings⟩
      have heq := walk_eq_of_isOk hr ((Report.isOk_iff r').mpr herrors)
      rw [hwarnings] at heq
      exact .inr ⟨r'.placeholder, congrArg Except.ok heq⟩
  · exact fun hfree => hagain.unchanged hfree _ [] (Nat.le_refl _)

/-- A list becomes a mapping of strings, which is its own sanitized value. -/
theorem validate_idempotent_list :
    validate ⟨.null, {}, {}⟩ (.map [("0", .string "false"), ("1", .string "true")])
      (.inline (.index (.named "string") none)) =
        .ok ⟨some (.map [("0", .string "false"), ("1", .string "true")]), [], []⟩ := by
  have hv : (Value.list [.bool false, .external 0 (.bool true)]).Direct := by
    intro handle handle' w h
    cases h with
    | item mem within =>
      rcases List.mem_cons.mp mem with rfl | mem
      · cases within
      · rw [List.mem_singleton.mp mem] at within
        cases within with
        | representation within => cases within
  have hstring : ∀ allowed, ¬SchemaSet.Reaches {} (.named "string") (.multi allowed) := by
    intro allowed h
    cases h with
    | here resolved => exact absurd (Option.some.inj resolved) nofun
    | part resolved mem _ =>
      cases Option.some.inj resolved
      cases mem
  refine (validate_idempotent ⟨.null, {}, {}⟩ (.list [.bool false, .external 0 (.bool true)])
    (.inline (.index (.named "string") none)) _ _ rfl hv rfl rfl).2 ?_
  intro allowed h
  cases h with
  | here resolved => cases resolved
  | part resolved mem reaches =>
    cases resolved
    rw [List.mem_singleton.mp mem] at reaches
    exact hstring allowed reaches

end Conform
