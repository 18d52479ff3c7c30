import Mathlib.Data.List.Forall2
import Conform.Proofs.Idempotence
import Conform.Proofs.Logs
import Conform.Proofs.Renditions

/-!
# Secrets — what is told of confidential strings

Two values are alike under a schema when they are the same but for secrets, which stand where the
walk meets the schema of a confidential string.  The walks over two such values do the same things
in the same order, so that without choices the secrets show up nowhere in the sanitized value
(`validate_hides`).  Warnings carry the values that they are about as these were given, and so are
alike as well, but not the same (`validate_warns_alike`).
-/

namespace Conform

/-! ## 1. Values that are alike -/

/-- The schemas that the entries of a mapping are held against, by key. Of an enum it is the payload
alone that is held against any. -/
def Schema.entryRefs? (schema : Schema) (entries : Entries Value) :
    Option (String → Option SchemaRef) :=
  match schema with
  | .index elements _ => some fun _ => some elements
  | .args fields | .object fields => some (Entries.get? fields)
  | .enum valueField metaField strict options =>
    if valueField = metaField then none
    else ((entries.get? valueField).bind (selection? options)).map fun option key =>
      if key = metaField then some (payloadRef strict option.2) else none
  | _ => none

mutual

/-- The values of two nodes with the schema are the same, but for secrets where strings are
confidential. -/
inductive AlikeUnder (set : SchemaSet) (secret : Value → Prop) : Schema → Value → Value → Prop
  | same (schema : Schema) (v : Value) : AlikeUnder set secret schema v v
  | hidden {rules : StringRules} {v v' : Value} (confidential : rules.confidential = true)
    (given : secret v) (given' : secret v') : AlikeUnder set secret (.string rules) v v'
  | items {elements : SchemaRef} {items items' : List Value}
    (each : ItemsAlike set secret elements items items') :
    AlikeUnder set secret (.list elements) (.list items) (.list items')
  /-- Both values are mappings, or both are lists that are keyed by position. -/
  | entries {schema : Schema} {v v' : Value} {given given' : Entries Value}
    {refs : String → Option SchemaRef} (value : v.keyed? = some given)
    (value' : v'.keyed? = some given') (kind : v'.typeName = v.typeName)
    (held : schema.entryRefs? given = some refs)
    (each : EntriesAlike set secret refs given given') : AlikeUnder set secret schema v v'

inductive Alike (set : SchemaSet) (secret : Value → Prop) : SchemaRef → Value → Value → Prop
  | same (ref : SchemaRef) (v : Value) : Alike set secret ref v v
  | node {ref : SchemaRef} {schema : Schema} {v v' : Value}
    (resolved : set.resolve? ref = some schema) (under : AlikeUnder set secret schema v v') :
    Alike set secret ref v v'
  | external {ref : SchemaRef} {schema : Schema} {v v' : Value} (handle : Nat)
    (resolved : set.resolve? ref = some schema) (under : AlikeUnder set secret schema v v') :
    Alike set secret ref (.external handle v) (.external handle v')

inductive ItemsAlike (set : SchemaSet) (secret : Value → Prop) :
    SchemaRef → List Value → List Value → Prop
  | nil {elements : SchemaRef} : ItemsAlike set secret elements [] []
  | cons {elements : SchemaRef} {v v' : Value} {items items' : List Value}
    (first : Alike set secret elements v v') (rest : ItemsAlike set secret elements items items') :
    ItemsAlike set secret elements (v :: items) (v' :: items')

inductive EntriesAlike (set : SchemaSet) (secret : Value → Prop) :
    (String → Option SchemaRef) → Entries Value → Entries Value → Prop
  | nil {refs : String → Option SchemaRef} : EntriesAlike set secret refs [] []
  | held {refs : String → Option SchemaRef} {key : String} {ref : SchemaRef} {v v' : Value}
    {entries entries' : Entries Value} (held : refs key = some ref)
    (first : Alike set secret ref v v') (rest : EntriesAlike set secret refs entries entries') :
    EntriesAlike set secret refs ((key, v) :: entries) ((key, v') :: entries')
  | free {refs : String → Option SchemaRef} {key : String} {v : Value}
    {entries entries' : Entries Value} (free : refs key = none)
    (rest : EntriesAlike set secret refs entries entries') :
    EntriesAlike set secret refs ((key, v) :: entries) ((key, v) :: entries')

end

def Value.isScalar : Value → Bool
  | .string _ | .number _ | .bool _ => true
  | _ => false

section Relation

variable {set : SchemaSet} {secret : Value → Prop} {schema : Schema} {ref : SchemaRef}
  {v v' : Value} {refs : String → Option SchemaRef} {entries entries' : Entries Value}

theorem represented_of_isScalar (h : v.isScalar = true) : v.represented = v := by
  cases v with
  | external => cases h
  | _ => rfl

theorem represented_of_keyed? (h : v.keyed? = some entries) : v.represented = v := by
  cases v with
  | external => cases h
  | _ => rfl

/-- Under the schema that a reference means, the values that it is about are alike. -/
theorem Alike.under (scalar : ∀ w, secret w → w.isScalar = true) (h : Alike set secret ref v v')
    (hschema : set.resolve? ref = some schema) :
    AlikeUnder set secret schema v.represented v'.represented := by
  cases h with
  | same => exact .same schema v.represented
  | external handle resolved under =>
    obtain rfl := Option.some.inj (hschema.symm.trans resolved)
    exact under
  | node resolved under =>
    obtain rfl := Option.some.inj (hschema.symm.trans resolved)
    cases under with
    | same => exact .same schema v.represented
    | hidden confidential given given' =>
      rw [represented_of_isScalar (scalar v given), represented_of_isScalar (scalar v' given')]
      exact .hidden confidential given given'
    | items each => exact .items each
    | entries value value' kind held each =>
      rw [represented_of_keyed? value, represented_of_keyed? value']
      exact .entries value value' kind held each

/-- A leaf is the same, or a secret. -/
theorem AlikeUnder.leaf (h : AlikeUnder set secret schema v v') (hleaf : schema.isLeaf = true) :
    v' = v ∨
      ∃ rules, schema = .string rules ∧ rules.confidential = true ∧ secret v ∧ secret v' := by
  cases h with
  | same => exact .inl rfl
  | hidden confidential given given' => exact .inr ⟨_, rfl, confidential, given, given'⟩
  | items => cases hleaf
  | entries value value' kind held each =>
    cases schema with
    | freeform | boolean | regex | number | string => cases held
    | list | index | args | object | enum | multi => cases hleaf

theorem ItemsAlike.zipIdx {elements : SchemaRef} {items items' : List Value}
    (h : ItemsAlike set secret elements items items') (position : Nat) :
    List.Forall₂ (fun c c' => c'.2 = c.2 ∧ Alike set secret elements c.1 c'.1)
      (items.zipIdx position) (items'.zipIdx position) := by
  induction items generalizing items' position with
  | nil =>
    cases h
    exact .nil
  | cons item rest ih =>
    cases h with
    | cons first later => exact .cons ⟨rfl, first⟩ (ih later (position + 1))

def EntryAlike (set : SchemaSet) (secret : Value → Prop) (refs : String → Option SchemaRef)
    (e e' : String × Value) : Prop :=
  e'.1 = e.1 ∧ (refs e.1 = none → e'.2 = e.2) ∧
    ∀ ref, refs e.1 = some ref → Alike set secret ref e.2 e'.2

theorem EntriesAlike.forall₂ (h : EntriesAlike set secret refs entries entries') :
    List.Forall₂ (EntryAlike set secret refs) entries entries' := by
  induction entries generalizing entries' with
  | nil =>
    cases h
    exact .nil
  | cons e rest ih =>
    cases h with
    | held held first later =>
      refine .cons ⟨rfl, fun hnone => ?_, fun ref href => ?_⟩ (ih later)
      · rw [held] at hnone
        cases hnone
      · obtain rfl := Option.some.inj (held.symm.trans href)
        exact first
    | free free later =>
      refine .cons ⟨rfl, fun _ => rfl, fun ref href => ?_⟩ (ih later)
      rw [free] at href
      cases href

/-- Entries that are alike have the same keys. -/
theorem keys_of_alike (h : List.Forall₂ (EntryAlike set secret refs) entries entries') :
    entries'.keys = entries.keys := by
  induction h with
  | nil => rfl
  | cons first _ ih => exact congrArg₂ List.cons first.1 ih

theorem contains_of_alike (h : List.Forall₂ (EntryAlike set secret refs) entries entries')
    (key : String) : entries'.contains key = entries.contains key := by
  rw [Bool.eq_iff_iff, Entries.contains_iff, Entries.contains_iff, keys_of_alike h]

/-- Two lookups of one key find nothing, or entries that are alike. -/
theorem get?_of_alike (h : List.Forall₂ (EntryAlike set secret refs) entries entries')
    (key : String) :
    Option.Rel (fun w w' => EntryAlike set secret refs (key, w) (key, w')) (entries.get? key)
      (entries'.get? key) := by
  induction h with
  | nil => exact .none
  | @cons e e' rest rest' first later ih =>
    obtain ⟨k, w⟩ := e
    obtain ⟨k', w'⟩ := e'
    obtain ⟨hkey, hfree, hheld⟩ := first
    obtain rfl : k' = k := hkey
    rw [Entries.get?_cons, Entries.get?_cons]
    by_cases hk : key = k'
    · subst hk
      rw [if_pos rfl, if_pos rfl]
      exact .some ⟨rfl, hfree, hheld⟩
    · rw [if_neg hk, if_neg hk]
      exact ih

/-- Where a key is held against nothing, the values are the same. -/
theorem get?_eq_of_alike (h : List.Forall₂ (EntryAlike set secret refs) entries entries')
    {key : String} (free : refs key = none) : entries'.get? key = entries.get? key := by
  have hget := get?_of_alike h key
  generalize entries.get? key = found at hget ⊢
  generalize entries'.get? key = found' at hget ⊢
  cases hget with
  | none => rfl
  | some alike => exact congrArg some (alike.2.1 free)

/-- The payloads of two enums are alike, whether they are there or not. -/
theorem payloadOf_of_alike (h : List.Forall₂ (EntryAlike set secret refs) entries entries')
    {metaField : String} (held : refs metaField = some ref) :
    Alike set secret ref (payloadOf entries metaField) (payloadOf entries' metaField) := by
  have hget := get?_of_alike h metaField
  unfold payloadOf
  generalize entries.get? metaField = found at hget ⊢
  generalize entries'.get? metaField = found' at hget ⊢
  cases hget with
  | none => exact .same ref (.map [])
  | some alike => exact alike.2.2 ref held

end Relation

/-! ## 2. Agendas that are alike -/

/-- Two diagnostics that are the same but for secrets in the values that they carry. -/
structure Diagnostic.Alike (set : SchemaSet) (secret : Value → Prop) (d d' : Diagnostic) :
    Prop where
  schema : d'.schema = d.schema
  path : d'.path = d.path
  finding : d'.finding = d.finding
  value : Conform.Alike set secret d.schema d.value d'.value

inductive Act.Paired (set : SchemaSet) (secret : Value → Prop) (related : Branch → Branch → Prop) :
    Act → Act → Prop
  | error {d d' : Diagnostic} (alike : d.Alike set secret d') :
    Paired set secret related (.error d) (.error d')
  | warning {d d' : Diagnostic} (alike : d.Alike set secret d') :
    Paired set secret related (.warning d) (.warning d')
  | visit {b b' : Branch} (step : b'.step = b.step) (children : related b b') :
    Paired set secret related (.visit b) (.visit b')

def Branch.Alike (set : SchemaSet) (secret : Value → Prop) (b b' : Branch) : Prop :=
  b'.ref = b.ref ∧ Conform.Alike set secret b.ref b.value b'.value

abbrev ActsAlike (set : SchemaSet) (secret : Value → Prop) : List Act → List Act → Prop :=
  List.Forall₂ (Act.Paired set secret (Branch.Alike set secret))

structure Node.Alike (set : SchemaSet) (secret : Value → Prop) (schema : Schema)
    (node node' : Node) : Prop where
  held : node.schema = .inline schema
  held' : node'.schema = .inline schema
  path : node'.path = node.path
  value : AlikeUnder set secret schema node.value node'.value

section Agendas

variable {set : SchemaSet} {secret : Value → Prop} {schema : Schema} {node node' : Node}
  {refs : String → Option SchemaRef} {entries entries' : Entries Value}

theorem Diagnostic.Alike.refl (set : SchemaSet) (secret : Value → Prop) (d : Diagnostic) :
    d.Alike set secret d := ⟨rfl, rfl, rfl, .same d.schema d.value⟩

theorem Act.Paired.refl (set : SchemaSet) (secret : Value → Prop) (act : Act) :
    act.Paired set secret (Branch.Alike set secret) act := by
  cases act with
  | error d => exact .error (.refl set secret d)
  | warning d => exact .warning (.refl set secret d)
  | visit b => exact .visit rfl ⟨rfl, .same b.ref b.value⟩

theorem Node.Alike.diagnose (h : Node.Alike set secret schema node node') (finding : Finding) :
    (node.diagnose finding).Alike set secret (node'.diagnose finding) :=
  ⟨h.held'.trans h.held.symm, h.path, rfl, .node (congrArg set.resolve? h.held) h.value⟩

/-- Lists that are alike are visited item by item. -/
theorem items_paired {elements : SchemaRef} {items items' : List Value}
    (each : ItemsAlike set secret elements items items') :
    ActsAlike set secret
      (items.zipIdx.map fun c => .visit ⟨.index c.2, c.1, elements⟩)
      (items'.zipIdx.map fun c => .visit ⟨.index c.2, c.1, elements⟩) := by
  refine List.rel_map (fun c c' hc => ?_) (each.zipIdx 0)
  exact .visit (congrArg PathSegment.index hc.1) ⟨rfl, hc.2⟩

/-- A list with items is taken for a mapping, and so is one that is alike. -/
theorem coercion_paired (h : Node.Alike set secret schema node node')
    (kind : node'.value.typeName = node.value.typeName) (value : node.value.keyed? = some entries)
    (value' : node'.value.keyed? = some entries')
    (each : List.Forall₂ (EntryAlike set secret refs) entries entries') :
    ActsAlike set secret node.coercionActs node'.coercionActs := by
  have hlength := each.length_eq
  unfold Node.coercionActs
  -- Both values are lists or neither is, and lists that are alike have as many items.
  cases hv : node.value with
  | list items =>
    cases hv' : node'.value with
    | list items' =>
      rw [hv] at value
      rw [hv'] at value'
      cases value
      cases value'
      unfold Value.entriesOfList at hlength
      rw [List.length_map, List.length_map, List.length_zipIdx, List.length_zipIdx] at hlength
      cases items with
      | nil =>
        cases items' with
        | nil => exact .nil
        | cons item' rest' => cases hlength
      | cons item rest =>
        cases items' with
        | nil => cases hlength
        | cons item' rest' => exact .cons (.warning (h.diagnose _)) .nil
    | _ =>
      rw [hv, hv'] at kind
      simp [Value.typeName] at kind
  | map given =>
    cases hv' : node'.value with
    | list items' =>
      rw [hv, hv'] at kind
      simp [Value.typeName] at kind
    | _ => exact .nil
  | _ =>
    rw [hv] at value
    cases value

theorem index_paired (h : Node.Alike set secret schema node node') (elements : SchemaRef)
    (validKeys : Option Pattern)
    (each : List.Forall₂ (EntryAlike set secret fun _ => some elements) entries entries') :
    ActsAlike set secret
      (entries.flatMap fun e =>
        if validKeys.any fun p => !p.isMatch e.1 then
          [.error (node.diagnose (.invalidKey e.1)), .visit ⟨.key e.1, e.2, elements⟩]
        else [.visit ⟨.key e.1, e.2, elements⟩])
      (entries'.flatMap fun e =>
        if validKeys.any fun p => !p.isMatch e.1 then
          [.error (node'.diagnose (.invalidKey e.1)), .visit ⟨.key e.1, e.2, elements⟩]
        else [.visit ⟨.key e.1, e.2, elements⟩]) := by
  refine List.rel_flatMap each fun e e' he => ?_
  obtain ⟨hkey, -, hheld⟩ := he
  have hvisit : Act.Paired set secret (Branch.Alike set secret)
      (.visit ⟨.key e.1, e.2, elements⟩) (.visit ⟨.key e'.1, e'.2, elements⟩) :=
    .visit (congrArg PathSegment.key hkey) ⟨rfl, hheld elements rfl⟩
  rw [hkey]
  rw [hkey] at hvisit
  split
  · exact .cons (.error (h.diagnose _)) (.cons hvisit .nil)
  · exact .cons hvisit .nil

/-- Mappings that are alike have agendas that are alike. -/
theorem fields_paired (h : Node.Alike set secret schema node node') (required : Bool)
    (fields : Fields) (value : node.value.keyed? = some entries)
    (value' : node'.value.keyed? = some entries')
    (each : List.Forall₂ (EntryAlike set secret fields.get?) entries entries') :
    ActsAlike set secret (node.fieldsAgenda required fields)
      (node'.fieldsAgenda required fields) := by
  have hmissing : ActsAlike set secret (node.missingActs fields entries)
      (node'.missingActs fields entries') := by
    unfold Node.missingActs
    simp only [contains_of_alike each]
    refine List.forall₂_map_left_iff.mpr (List.forall₂_map_right_iff.mpr ?_)
    exact List.forall₂_same.mpr fun key _ => .error (h.diagnose _)
  unfold Node.fieldsAgenda
  rw [value, value']
  refine List.rel_append (List.rel_map (fun e e' he => ?_) each) ?_
  · obtain ⟨hkey, -, hheld⟩ := he
    rw [hkey]
    cases hfield : fields.get? e.1 with
    | none => exact .warning (h.diagnose _)
    | some ref => exact .visit rfl ⟨rfl, hheld ref hfield⟩
  · split
    · exact hmissing
    · exact .nil

/-- Of an enum the discriminant is the same, and the payload is alike. -/
theorem enum_of_alike {valueField metaField : String} {strict : Bool} {options : Entries Fields}
    (held : Schema.entryRefs? (.enum valueField metaField strict options) entries = some refs)
    (each : List.Forall₂ (EntryAlike set secret refs) entries entries') :
    ∃ name fields, entries.get? valueField = some (.string name) ∧
      entries'.get? valueField = some (.string name) ∧ options.get? name = some fields ∧
      Alike set secret (payloadRef strict fields) (payloadOf entries metaField)
        (payloadOf entries' metaField) := by
  change (if valueField = metaField then none else _) = some refs at held
  by_cases hsame : valueField = metaField
  · rw [if_pos hsame] at held
    cases held
  · rw [if_neg hsame] at held
    obtain ⟨⟨name, fields⟩, hselect, rfl⟩ := Option.map_eq_some_iff.1 held
    obtain ⟨discriminant, hd, hoption⟩ := Option.bind_eq_some_iff.1 hselect
    obtain ⟨rfl, hfields⟩ := selection?_eq_some.mp hoption
    have hd' := get?_eq_of_alike each (if_neg hsame)
    exact ⟨name, fields, hd, hd'.trans hd, hfields, payloadOf_of_alike each (if_pos rfl)⟩

/-- But for the leaves, nothing that the root is asked for comes into an agenda. -/
theorem agenda_of_isContainer (hcontainer : schema.isContainer = true) (node : Node)
    (ctx ctx' : Context) : node.agenda ctx' schema = node.agenda ctx schema := by
  cases schema with
  | list | index | args | object | enum => rfl
  | freeform | boolean | regex | number | string | multi => cases hcontainer

/-- Containers that are alike do the same things in the same order. -/
theorem agenda_paired (h : Node.Alike set secret schema node node')
    (hcontainer : schema.isContainer = true) (ctx ctx' : Context) :
    ActsAlike set secret (node.agenda ctx schema) (node'.agenda ctx' schema) := by
  rw [agenda_of_isContainer hcontainer node' ctx ctx']
  obtain ⟨v, ref, path⟩ := node
  obtain ⟨v', ref', path'⟩ := node'
  obtain ⟨hheld, hheld', hpath, hvalue⟩ := id h
  cases hheld
  cases hheld'
  cases hpath
  -- Containers differ item by item or entry by entry.
  cases hvalue with
  | same => exact List.forall₂_same.mpr fun act _ => .refl set secret act
  | hidden => cases hcontainer
  | items each => exact items_paired each
  | entries value value' kind held each =>
    have hentries := each.forall₂
    unfold Node.agenda
    cases schema with
    | freeform | boolean | regex | number | string | list | multi => cases held
    | index elements validKeys =>
      cases held
      dsimp only
      rw [value, value']
      exact List.rel_append (coercion_paired h kind value value' hentries)
        (index_paired h elements validKeys hentries)
    | args fields =>
      cases held
      exact fields_paired h false fields value value' hentries
    | object fields =>
      cases held
      exact fields_paired h true fields value value' hentries
    | enum valueField metaField strict options =>
      obtain ⟨name, fields, hd, hd', hfields, hpayload⟩ := enum_of_alike held hentries
      have hselect : selection? options (.string name) = some (name, fields) :=
        selection?_eq_some.mpr ⟨rfl, hfields⟩
      dsimp only
      rw [value, value']
      dsimp only
      rw [hd, hd']
      dsimp only
      rw [hselect]
      exact .cons (.visit rfl ⟨rfl, hpayload⟩) .nil

/-- The children that two agendas visit. -/
theorem branches_paired {related : Branch → Branch → Prop} {ctx ctx' : Context}
    (h : List.Forall₂ (Act.Paired set secret related) (node.agenda ctx schema)
      (node'.agenda ctx' schema)) :
    List.Forall₂ (fun b b' => b'.step = b.step ∧ related b b') (node.value.branches schema)
      (node'.value.branches schema) := by
  rw [← node.agenda_branch? ctx schema, ← node'.agenda_branch? ctx' schema]
  refine List.rel_filterMap (fun act act' hact => ?_) h
  cases hact with
  | error => exact .none
  | warning => exact .none
  | visit step children => exact .some ⟨step, children⟩

end Agendas

/-! ## 3. Reports that agree -/

/-- Two reports with one sanitized value, and with warnings that are alike if the secrets are
texts. -/
structure Report.Agrees (set : SchemaSet) (secret : Value → Prop) (r r' : Report) : Prop where
  sanitized : r'.placeholder = r.placeholder
  warnings : (∀ v, secret v → ∃ text, v = .string text) →
    List.Forall₂ (Diagnostic.Alike set secret) r.warnings r'.warnings

theorem map_eq_of_forall₂ {α β γ : Type} {R : α → β → Prop} {f : α → γ} {g : β → γ} {xs : List α}
    {ys : List β} (h : List.Forall₂ R xs ys) (hfg : ∀ x y, R x y → g y = f x) :
    ys.map g = xs.map f := by
  induction h with
  | nil => rfl
  | cons first _ ih => rw [List.map_cons, List.map_cons, hfg _ _ first, ih]

section Nodes

variable {set : SchemaSet} {secret : Value → Prop} {schema : Schema} {node node' : Node}
  {D D' : Reports} {options : Options} {root root' : Value} {r r' : Report}

theorem Rendition.eq {s s' : Value} (h : Rendition options options schema s s') : s' = s := by
  cases h <;> rfl

/-- The warnings of a leaf do not depend on its root. -/
theorem leaf_warnings (hleaf : schema.isLeaf = true) (node : Node) (D D' : Reports) :
    (node.report ⟨root', set, options⟩ D' schema).warnings =
      (node.report ⟨root, set, options⟩ D schema).warnings := by
  cases schema with
  | freeform | boolean | number | regex => rfl
  | string rules =>
    -- The root counts for the errors alone.
    unfold Node.report Node.string
    cases coerceString? node.value <;> rfl
  | list | index | args | object | enum | multi => cases hleaf

/-- A confidential text is not shown, whatever it is. -/
theorem shown_of_hides {rules : StringRules} (confidential : rules.confidential = true)
    (hide : options.hidesConfidential = true) (text : String) :
    rules.shown options text = confidentialPlaceholder := by
  rw [StringRules.shown, confidential, hide]
  rfl

theorem Node.Accepts.of_string {ctx : Context} {rules : StringRules} {s : Value}
    {ws : List Diagnostic} (h : node.Accepts ctx D (.string rules) s ws) :
    ∃ text coerced, coerceString? node.value = some (text, coerced) ∧
      s = .string (rules.shown ctx.options text) ∧ ws = node.coercionIf coerced := by
  cases h with
  | string value meets => exact ⟨_, _, value, rfl, rfl⟩

/-- Leaves that are alike come to one sanitized value, as secrets are hidden. -/
theorem leaf_agrees (hide : options.hidesConfidential = true)
    (h : Node.Alike set secret schema node node') (hleaf : schema.isLeaf = true)
    (haccepts : node.Accepts ⟨root, set, options⟩ D schema r.placeholder r.warnings)
    (haccepts' : node'.Accepts ⟨root', set, options⟩ D' schema r'.placeholder r'.warnings) :
    r.Agrees set secret r' := by
  obtain hsame | ⟨rules, rfl, confidential, given, given'⟩ := h.value.leaf hleaf
  · have hnode : node' = node := by
      obtain ⟨v, ref, path⟩ := node
      obtain ⟨v', ref', path'⟩ := node'
      obtain ⟨hheld, hheld', hpath, -⟩ := h
      cases hheld
      cases hheld'
      cases hpath
      cases hsame
      rfl
    subst hnode
    have hwarnings : r'.warnings = r.warnings := by
      have hreport := congrArg Report.warnings (haccepts.report_leaf hleaf)
      have hreport' := congrArg Report.warnings (haccepts'.report_leaf hleaf)
      exact hreport'.symm.trans ((leaf_warnings hleaf _ D D').trans hreport)
    refine ⟨(haccepts.rendition haccepts' hleaf rfl).eq, fun _ => ?_⟩
    rw [hwarnings]
    exact List.forall₂_same.mpr fun d _ => .refl set secret d
  · obtain ⟨text, coerced, hcoerced, hs, hws⟩ := haccepts.of_string
    obtain ⟨text', coerced', hcoerced', hs', hws'⟩ := haccepts'.of_string
    constructor
    · rw [hs, hs', shown_of_hides confidential hide, shown_of_hides confidential hide]
    · intro texts
      -- Neither text is coerced, so that neither node has a warning.
      obtain ⟨t, ht⟩ := texts _ given
      obtain ⟨t', ht'⟩ := texts _ given'
      rw [ht] at hcoerced
      rw [ht'] at hcoerced'
      cases hcoerced
      cases hcoerced'
      rw [hws, hws']
      exact .nil

/-- Containers that are alike are put together from what their children became in one way. -/
theorem assemble_eq {v v' : Value} {became became' : Branch → Value}
    (h : AlikeUnder set secret schema v v') (hcontainer : schema.isContainer = true)
    (children : List.Forall₂ (fun b b' => b'.step = b.step ∧ became' b' = became b)
      (v.branches schema) (v'.branches schema)) :
    v'.assemble schema became' = v.assemble schema became := by
  have hvalues : (v'.branches schema).map became' = (v.branches schema).map became :=
    map_eq_of_forall₂ children fun b b' hb => hb.2
  have hentries : ((v'.branches schema).map fun b => (b.step.toText, became' b)) =
      (v.branches schema).map fun b => (b.step.toText, became b) :=
    map_eq_of_forall₂ children fun b b' hb => by rw [hb.1, hb.2]
  cases schema with
  | freeform | boolean | regex | number | string | multi => cases hcontainer
  | list elements => exact congrArg Value.list hvalues
  | index elements validKeys => exact congrArg Value.map hentries
  | args fields => exact congrArg Value.map hentries
  | object fields => exact congrArg Value.map hentries
  | enum valueField metaField strict options =>
    have hdiscriminant : (v'.keyed?.getD []).lookup valueField =
        (v.keyed?.getD []).lookup valueField := by
      cases h with
      | same => rfl
      | entries value value' kind held each =>
        obtain ⟨name, fields, hd, hd', -⟩ := enum_of_alike held each.forall₂
        rw [value, value']
        exact hd'.trans hd.symm
    unfold Value.assemble
    dsimp only
    rw [hentries, hdiscriminant]

/-- What is related among the children is so among the children that the agendas visit. -/
theorem paired_imp {related related' : Branch → Branch → Prop} {ctx ctx' : Context}
    (h : List.Forall₂ (Act.Paired set secret related) (node.agenda ctx schema)
      (node'.agenda ctx' schema))
    (himp : ∀ b ∈ node.value.branches schema, ∀ b' ∈ node'.value.branches schema,
      b'.step = b.step → related b b' → related' b b') :
    List.Forall₂ (Act.Paired set secret related') (node.agenda ctx schema)
      (node'.agenda ctx' schema) := by
  rw [List.forall₂_iff_zip] at h ⊢
  refine ⟨h.1, fun {act act'} hmem => ?_⟩
  obtain ⟨hact, hact'⟩ := List.of_mem_zip hmem
  cases h.2 hmem with
  | error alike => exact .error alike
  | warning alike => exact .warning alike
  | visit step children =>
    have hb := Node.visit_mem_agenda.mp hact
    have hb' := Node.visit_mem_agenda.mp hact'
    exact .visit step (himp _ hb _ hb' step children)

/-- The warnings of two agendas are alike when those of the children are. -/
theorem warnings_paired {acts acts' : List Act} {logs logs' : Branch → Log}
    (h : List.Forall₂
      (Act.Paired set secret fun b b' =>
        List.Forall₂ (Diagnostic.Alike set secret) (logs b).warnings (logs' b').warnings)
      acts acts') :
    List.Forall₂ (Diagnostic.Alike set secret) (Log.ofActs acts logs).warnings
      (Log.ofActs acts' logs').warnings := by
  refine List.rel_flatMap h fun act act' hact => ?_
  cases hact with
  | error alike => exact .nil
  | warning alike => exact .cons alike .nil
  | visit step children => exact children

/-- Containers agree if their children do. -/
theorem container_agrees {ctx ctx' : Context} (h : Node.Alike set secret schema node node')
    (hcontainer : schema.isContainer = true)
    (haccepts : node.Accepts ctx D schema r.placeholder r.warnings)
    (haccepts' : node'.Accepts ctx' D' schema r'.placeholder r'.warnings)
    (hreport : node.report ctx D schema = r) (hreport' : node'.report ctx' D' schema = r')
    (children : ∀ b ∈ node.value.branches schema, ∀ b' ∈ node'.value.branches schema,
      b'.step = b.step → Branch.Alike set secret b b' →
        (b.report D).Agrees set secret (b'.report D')) :
    r.Agrees set secret r' := by
  -- The children agree one by one, and with them what is made of their sanitized values.
  have hpaired := paired_imp (agenda_paired h hcontainer ctx ctx') children
  constructor
  · rw [haccepts.assembled hcontainer, haccepts'.assembled hcontainer]
    exact assemble_eq h.value hcontainer
      ((branches_paired hpaired).imp fun b b' hb => ⟨hb.1, hb.2.sanitized⟩)
  · intro texts
    have hmulti (allowed : List SchemaRef) (hschema : schema = .multi allowed) : False :=
      Schema.ne_multi_of_isContainer hcontainer allowed hschema
    have hlog : r.log = Log.ofActs (node.agenda ctx schema) fun b => (b.report D).log := by
      rw [← hreport]
      exact Node.log_report fun allowed hschema => (hmulti allowed hschema).elim
    have hlog' : r'.log = Log.ofActs (node'.agenda ctx' schema) fun b => (b.report D').log := by
      rw [← hreport']
      exact Node.log_report fun allowed hschema => (hmulti allowed hschema).elim
    have hwarnings : List.Forall₂ (Diagnostic.Alike set secret) r.log.warnings r'.log.warnings := by
      rw [hlog, hlog']
      exact warnings_paired (paired_imp hpaired fun b _ b' _ _ hb => hb.warnings texts)
    exact hwarnings

end Nodes

/-! ## 4. Walks over values that are alike -/

/-- Two accepted walks over values that are alike have reports that agree, whatever the two roots
are. -/
theorem walk_agrees {set : SchemaSet} {options : Options} {root root' : Value}
    {secret : Value → Prop} (scalar : ∀ w, secret w → w.isScalar = true)
    (hide : options.hidesConfidential = true) :
    ∀ levels path v v' ref r r', set.ChoiceFree ref → Alike set secret ref v v' →
      walk ⟨root, set, options⟩ levels path v ref = .ok r → r.isOk = true →
      walk ⟨root', set, options⟩ levels path v' ref = .ok r' → r'.isOk = true →
      r.Agrees set secret r' := by
  intro levels
  induction levels with
  | zero =>
    intro path v v' ref r r' _ _ h
    cases h
  | succ levels ih =>
    intro path v v' ref r r' hfree halike h hok h' hok'
    obtain ⟨schema, D, hschema, hD, haccepts⟩ := walk_accepts h hok
    obtain ⟨schema', D', hschema', hD', haccepts'⟩ := walk_accepts h' hok'
    obtain rfl := Option.some.inj (hschema.symm.trans hschema')
    have hnode : Node.Alike set secret schema (nodeAt path v schema) (nodeAt path v' schema) :=
      ⟨rfl, rfl, rfl, halike.under scalar hschema⟩
    obtain hleaf | hcontainer | ⟨allowed, rfl⟩ := schema.leaf_or_container_or_choice
    · exact leaf_agrees hide hnode hleaf haccepts haccepts'
    · -- A choice could tell secrets by its winner, but there is none.
      refine container_agrees hnode hcontainer haccepts haccepts'
        (report_of_walks h hok hschema hD) (report_of_walks h' hok' hschema' hD') ?_
      intro b hb b' hb' hstep hpair
      have hmulti := Schema.ne_multi_of_isContainer hcontainer
      have hwalk' := hD' b' hb'
      rw [hstep, hpair.1] at hwalk'
      exact ih _ _ _ _ _ _ (hfree.part hschema (branch_ref_mem_parts hb)) hpair.2 (hD b hb)
        (haccepts.children hmulti b hb) hwalk' (haccepts'.children hmulti b' hb')
    · exact absurd (.here hschema) (hfree allowed)

/-! ## 5. What is told of secrets -/

theorem sanitized_of_isOk {ctx : Context} {v : Value} {ref : SchemaRef} {r : Report}
    (h : validate ctx v ref = .ok r) (hok : r.isOk = true) : r.sanitized = some r.placeholder :=
  congrArg Report.sanitized (walk_eq_of_isOk h hok)

/-- Where confidential strings are hidden and no choice is led to, two accepted values that are the
same but for the scalars in the places of confidential strings have the same sanitized value. -/
theorem validate_hides (set : SchemaSet) (options : Options) (ref : SchemaRef) (v v' : Value)
    (r r' : Report) (hide : options.hidesConfidential = true) (hfree : set.ChoiceFree ref)
    (halike : Alike set (fun w => w.isScalar = true) ref v v')
    (h : validate ⟨v, set, options⟩ v ref = .ok r) (hok : r.isOk = true)
    (h' : validate ⟨v', set, options⟩ v' ref = .ok r') (hok' : r'.isOk = true) :
    ∃ s, r.sanitized = some s ∧ r'.sanitized = some s := by
  have hagrees : r.Agrees set (fun w => w.isScalar = true) r' :=
    walk_agrees (fun w hw => hw) hide _ _ _ _ _ _ _ hfree halike h hok h' hok'
  refine ⟨r.placeholder, sanitized_of_isOk h hok, ?_⟩
  rw [sanitized_of_isOk h' hok', hagrees.sanitized]

def login : SchemaRef :=
  .inline (.args
    [("user", .inline (.string {})),
      ("password", .inline (.string { minLength := some 1, confidential := true }))])

def loginOf (password : Value) : Value :=
  .map [("user", .string "ann"), ("password", password), ("remark", .null)]

def validateLogin (password : Value) : Except DepthExceeded Report :=
  validate ⟨loginOf password, {}, { hideConfidential := some true }⟩ (loginOf password) login

theorem login_choiceFree : ({} : SchemaSet).ChoiceFree login := by
  refine choiceFree_of_parts rfl nofun fun part hpart => ?_
  obtain rfl | rfl := List.mem_pair.mp hpart
  · exact choiceFree_of_parts rfl nofun nofun
  · exact choiceFree_of_parts rfl nofun nofun

/-- The password alone may differ between two logins. -/
theorem loginOf_alike {secret : Value → Prop} {password password' : Value}
    (given : secret password) (given' : secret password') :
    Alike {} secret login (loginOf password) (loginOf password') := by
  have huser : Alike {} secret (.inline (.string {})) (.string "ann") (.string "ann") := .same _ _
  have hpassword : Alike {} secret
      (.inline (.string { minLength := some 1, confidential := true })) password password' :=
    .node rfl (.hidden rfl given given')
  exact .node rfl (.entries rfl rfl rfl rfl
    (.held rfl huser (.held rfl hpassword (.free rfl .nil))))

/-- That one password is no text is told by a warning, but not by the sanitized value. -/
theorem validate_hides_login :
    ∃ s r r', validateLogin (.string "a") = .ok r ∧ validateLogin (.bool true) = .ok r' ∧
      r.warnings.length = 1 ∧ r'.warnings.length = 2 ∧
      r.sanitized = some s ∧ r'.sanitized = some s := by
  have hfirst : (validateLogin (.string "a")).toOption.map
      (fun r => (r.isOk, r.warnings.length)) = some (true, 1) := by
    decide +kernel
  have hsecond : (validateLogin (.bool true)).toOption.map
      (fun r => (r.isOk, r.warnings.length)) = some (true, 2) := by
    decide +kernel
  obtain ⟨r, hr, hpair⟩ := ok_of_toOption_map hfirst
  obtain ⟨r', hr', hpair'⟩ := ok_of_toOption_map hsecond
  obtain ⟨hok, hlength⟩ := Prod.mk.inj hpair
  obtain ⟨hok', hlength'⟩ := Prod.mk.inj hpair'
  obtain ⟨s, hs, hs'⟩ := validate_hides {} { hideConfidential := some true } login
    (loginOf (.string "a")) (loginOf (.bool true)) r r' rfl login_choiceFree
    (loginOf_alike rfl rfl) hr hok hr' hok'
  exact ⟨s, r, r', hr, hr', hlength, hlength', hs, hs'⟩

/-- Two accepted values that are the same but for the texts in the places of confidential strings
have the same warnings, but for these texts in the values that the warnings carry. -/
theorem validate_warns_alike (set : SchemaSet) (options : Options) (ref : SchemaRef) (v v' : Value)
    (r r' : Report) (hide : options.hidesConfidential = true) (hfree : set.ChoiceFree ref)
    (halike : Alike set (fun w => ∃ text, w = .string text) ref v v')
    (h : validate ⟨v, set, options⟩ v ref = .ok r) (hok : r.isOk = true)
    (h' : validate ⟨v', set, options⟩ v' ref = .ok r') (hok' : r'.isOk = true) :
    List.Forall₂ (Diagnostic.Alike set fun w => ∃ text, w = .string text) r.warnings
      r'.warnings := by
  have scalar (w : Value) (hw : ∃ text, w = .string text) : w.isScalar = true := by
    obtain ⟨text, rfl⟩ := hw
    rfl
  have hagrees : r.Agrees set (fun w => ∃ text, w = .string text) r' :=
    walk_agrees scalar hide _ _ _ _ _ _ _ hfree halike h hok h' hok'
  exact hagrees.warnings fun w hw => hw

/-- The warning that the remark is dropped is given for both logins, each time with the login. -/
theorem validate_warns_alike_login :
    ∃ r r', validateLogin (.string "a") = .ok r ∧ validateLogin (.string "b") = .ok r' ∧
      r.warnings.map Diagnostic.line = ["(root): extra key not in schema: remark"] ∧
      List.Forall₂ (Diagnostic.Alike {} fun w => ∃ text, w = .string text) r.warnings
        r'.warnings := by
  have hfirst : (validateLogin (.string "a")).toOption.map
      (fun r => (r.isOk, r.warnings.map Diagnostic.line)) =
        some (true, ["(root): extra key not in schema: remark"]) := by
    decide +kernel
  have hsecond : (validateLogin (.string "b")).toOption.map Report.isOk = some true := by
    decide +kernel
  obtain ⟨r, hr, hpair⟩ := ok_of_toOption_map hfirst
  obtain ⟨r', hr', hok'⟩ := ok_of_toOption_map hsecond
  obtain ⟨hok, hlines⟩ := Prod.mk.inj hpair
  exact ⟨r, r', hr, hr', hlines, validate_warns_alike {} { hideConfidential := some true } login
    (loginOf (.string "a")) (loginOf (.string "b")) r r' rfl login_choiceFree
    (loginOf_alike ⟨"a", rfl⟩ ⟨"b", rfl⟩) hr hok hr' hok'⟩

/-- The warnings themselves are not the same: the one about the remark carries the login as it was
given, with the password. -/
theorem warnings_tell_secrets :
    ∃ r r', ({ hideConfidential := some true } : Options).hidesConfidential = true ∧
      ({} : SchemaSet).ChoiceFree login ∧
      Alike {} (fun w => ∃ text, w = .string text) login (loginOf (.string "a"))
        (loginOf (.string "b")) ∧
      validateLogin (.string "a") = .ok r ∧ r.isOk = true ∧
      validateLogin (.string "b") = .ok r' ∧ r'.isOk = true ∧
      r.warnings.map (fun d => (d.value.get? "password").bind Value.string?) = [some "a"] ∧
      r'.warnings.map (fun d => (d.value.get? "password").bind Value.string?) = [some "b"] ∧
      r.warnings ≠ r'.warnings := by
  have hfirst : (validateLogin (.string "a")).toOption.map (fun r => (r.isOk,
      r.warnings.map fun d => (d.value.get? "password").bind Value.string?)) =
        some (true, [some "a"]) := by
    decide +kernel
  have hsecond : (validateLogin (.string "b")).toOption.map (fun r => (r.isOk,
      r.warnings.map fun d => (d.value.get? "password").bind Value.string?)) =
        some (true, [some "b"]) := by
    decide +kernel
  obtain ⟨r, hr, hpair⟩ := ok_of_toOption_map hfirst
  obtain ⟨r', hr', hpair'⟩ := ok_of_toOption_map hsecond
  obtain ⟨hok, hpassword⟩ := Prod.mk.inj hpair
  obtain ⟨hok', hpassword'⟩ := Prod.mk.inj hpair'
  refine ⟨r, r', rfl, login_choiceFree, loginOf_alike ⟨"a", rfl⟩ ⟨"b", rfl⟩, hr, hok, hr', hok',
    hpassword, hpassword', fun hsame => ?_⟩
  rw [hsame, hpassword'] at hpassword
  exact absurd hpassword (by decide)

end Conform
