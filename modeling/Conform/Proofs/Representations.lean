import Conform.Proofs.Admittance
import Conform.Proofs.Equality
import Conform.Proofs.Models

/-!
# Representations — external values judged by what they stand for

Where the walk enters a node, an external value gives way to its representation.  Two reads go past
that: the discriminant of an enum is taken from the mapping as it is, and the root in which keys are
looked up is never replaced (`external_unread`).  Apart from these, a value has the verdict of its
plain form, in which every external value is replaced (`validate_plain`).
-/

namespace Conform

/-! ## 1. Plain forms -/

mutual

def Value.plain : Value → Value
  | .list items => .list (plainItems items)
  | .map entries => .map (plainEntries entries)
  | .external _ representation => representation.plain
  | v => v

def plainItems : List Value → List Value
  | [] => []
  | item :: rest => item.plain :: plainItems rest

def plainEntries : List (String × Value) → List (String × Value)
  | [] => []
  | (key, v) :: rest => (key, v.plain) :: plainEntries rest

end

theorem plainItems_eq (items : List Value) : plainItems items = items.map Value.plain := by
  induction items with
  | nil => rfl
  | cons item rest ih => rw [plainItems, ih, List.map_cons]

theorem plainEntries_eq (entries : Entries Value) :
    plainEntries entries = entries.map fun e => (e.1, e.2.plain) := by
  induction entries with
  | nil => rfl
  | cons e rest ih => rw [plainEntries, ih, List.map_cons]

namespace Value

variable {v : Value} {entries : Entries Value}

/-- No external value is left in a plain form. -/
theorem plain_represented (v : Value) : v.plain.represented = v.plain := by
  induction v using Value.induction with
  | external handle v ih => exact ih
  | list items => rfl
  | map entries => rfl
  | _ => rfl

/-- A value and what stands for it have the same representations throughout. -/
theorem represented_plain (v : Value) : v.represented.plain = v.plain := by
  cases v <;> rfl

theorem plain_map (entries : Entries Value) :
    (map entries).plain = map (entries.map fun e => (e.1, e.2.plain)) :=
  congrArg map (plainEntries_eq entries)

theorem plain_list (items : List Value) : (list items).plain = list (items.map plain) :=
  congrArg list (plainItems_eq items)

/-- The keyed view of the representations is that of the value. -/
theorem keyed?_plain (hv : v.represented = v) :
    v.plain.keyed? = v.keyed?.map fun entries => entries.map fun e => (e.1, e.2.plain) := by
  cases v with
  | map entries =>
    rw [plain_map]
    rfl
  | list items =>
    rw [plain_list]
    change some (entriesOfList (items.map plain)) = some ((entriesOfList items).map _)
    unfold entriesOfList
    rw [List.zipIdx_map, List.map_map, List.map_map]
    rfl
  | external handle w => cases hv
  | _ => rfl

/-- A key is given in the value just when it is in the representations. -/
theorem hasKey_plain (hv : v.represented = v) (key : String) :
    v.plain.hasKey key = v.hasKey key := by
  cases v with
  | map entries =>
    rw [plain_map]
    change (Entries.get? _ key).isSome = (Entries.get? entries key).isSome
    rw [Entries.get?_map, Option.isSome_map]
  | list items =>
    rw [plain_list]
    unfold hasKey
    dsimp only
    rw [List.length_map]
  | external handle w => cases hv
  | _ => rfl

theorem coerceNumber?_plain (hv : v.represented = v) :
    coerceNumber? v.plain = coerceNumber? v := by
  cases v with
  | external handle w => cases hv
  | _ => rfl

theorem coerceString?_plain (hv : v.represented = v) :
    coerceString? v.plain = coerceString? v := by
  cases v with
  | external handle w => cases hv
  | _ => rfl

/-- What holds of no container holds of a value when it holds of its plain form. -/
theorem plain_scalar {P : Value → Prop} (hP : ∀ v : Value, v.keyed?.isSome = true → ¬P v)
    (hv : v.represented = v) : P v.plain ↔ P v := by
  cases v with
  | list items => exact iff_of_false (hP _ rfl) (hP _ rfl)
  | map entries => exact iff_of_false (hP _ rfl) (hP _ rfl)
  | external handle w => cases hv
  | _ => exact Iff.rfl

/-- What is said of the entries of a plain form is said of those of the value. -/
theorem plain_entries {Q Q' : Entries Value → Prop} (hv : v.represented = v)
    (hQ : ∀ entries : Entries Value, v.keyed? = some entries →
      (Q' (entries.map fun e => (e.1, e.2.plain)) ↔ Q entries)) :
    (∃ entries, v.plain.keyed? = some entries ∧ Q' entries) ↔
      ∃ entries, v.keyed? = some entries ∧ Q entries := by
  rw [keyed?_plain hv]
  cases hentries : v.keyed? with
  | none => exact iff_of_false nofun nofun
  | some entries =>
    rw [Option.map_some]
    simp only [Option.some.injEq, exists_eq_left']
    exact hQ entries hentries

end Value

def Branch.plain (b : Branch) : Branch := { b with value := b.value.plain }

/-! ## 2. Legible values -/

/-- What a discriminant selects is selected by its plain form too, unless it is external. -/
theorem selection?_plain {options : Entries Fields} {d : Value} (hd : d.Direct)
    (legible : ∀ handle name, d = .external handle (.string name) → options.get? name = none) :
    selection? options d.plain = selection? options d := by
  cases d with
  | external handle w =>
    change selection? options w.plain = none
    cases w with
    | string name =>
      change (options.get? name).map _ = none
      rw [legible handle name rfl, Option.map_none]
    | external handle' x => exact absurd (.self _) (hd handle handle' x)
    | _ => rfl
  | _ => rfl

theorem bind_selection?_eq_some {options : Entries Fields} {given : Option Value} {name : String}
    {fields : Fields} :
    given.bind (selection? options) = some (name, fields) ↔
      given = some (.string name) ∧ options.get? name = some fields := by
  cases given with
  | none => exact iff_of_false nofun nofun
  | some d => rw [Option.bind_some, selection?_eq_some, Option.some.injEq]

theorem payloadOf_plain (entries : Entries Value) (metaField : String) :
    payloadOf (entries.map fun e => (e.1, e.2.plain)) metaField =
      (payloadOf entries metaField).plain := by
  unfold payloadOf
  rw [Entries.get?_map]
  cases entries.get? metaField <;> rfl

/-- No discriminant that the schema reads in a value is external and names an option. -/
def Value.Discerned (v : Value) (schema : Schema) : Prop :=
  ∀ valueField metaField strict (options : Entries Fields),
    schema = .enum valueField metaField strict options → ∀ entries : Entries Value,
      v.keyed? = some entries → ∀ handle name,
        entries.get? valueField = some (.external handle (.string name)) → options.get? name = none

section Nodes

variable {v : Value} {schema : Schema}

/-- The option that is selected in a value is selected in its plain form. -/
theorem selected_plain {valueField metaField : String} {strict : Bool} {options : Entries Fields}
    {entries : Entries Value} (hv : v.Direct)
    (hdiscerned : v.Discerned (.enum valueField metaField strict options))
    (hentries : v.keyed? = some entries) :
    (Entries.get? (entries.map fun e => (e.1, e.2.plain)) valueField).bind (selection? options) =
      (entries.get? valueField).bind (selection? options) := by
  rw [Entries.get?_map]
  cases hd : entries.get? valueField with
  | none => rfl
  | some d =>
    have hdirect : d.Direct := hv.within (Value.keyed?_within hentries (Entries.mem_of_get? hd))
    refine selection?_plain hdirect fun handle name hexternal => ?_
    rw [hexternal] at hd
    exact hdiscerned _ _ _ _ rfl entries hentries handle name hd

/-- The children of a plain form are the plain forms of the children. -/
theorem branches_plain (hv : v.Direct) (hrepresented : v.represented = v)
    (hdiscerned : v.Discerned schema) :
    v.plain.branches schema = (v.branches schema).map Branch.plain := by
  have hkeyed := Value.keyed?_plain hrepresented
  -- A child is found in the value as it is in the representations: by position, or by key.
  cases schema with
  | freeform | boolean | number | string | regex => rfl
  | list elements =>
    cases v with
    | list items =>
      rw [Value.plain_list]
      change ((items.map Value.plain).zipIdx.map _) = (items.zipIdx.map _).map _
      rw [List.zipIdx_map, List.map_map, List.map_map]
      rfl
    | map entries =>
      rw [Value.plain_map]
      rfl
    | external handle w => cases hrepresented
    | _ => rfl
  | index elements validKeys =>
    change ((v.plain.keyed?.getD []).map _) = ((v.keyed?.getD []).map _).map _
    rw [hkeyed]
    cases v.keyed? with
    | none => rfl
    | some entries =>
      rw [Option.map_some, Option.getD_some, Option.getD_some, List.map_map, List.map_map]
      rfl
  | args fields | object fields =>
    change ((v.plain.keyed?.getD []).filterMap _) = ((v.keyed?.getD []).filterMap _).map _
    rw [hkeyed]
    cases v.keyed? with
    | none => rfl
    | some entries =>
      rw [Option.map_some, Option.getD_some, Option.getD_some, List.filterMap_map,
        List.map_filterMap]
      refine List.filterMap_congr fun e _ => ?_
      dsimp only [Function.comp]
      cases Entries.get? fields e.1 <;> rfl
  | enum valueField metaField strict options =>
    unfold Value.branches
    rw [hkeyed]
    cases hentries : v.keyed? with
    | none => rfl
    | some entries =>
      rw [Option.map_some]
      dsimp only
      rw [selected_plain hv hdiscerned hentries]
      cases (entries.get? valueField).bind (selection? options) with
      | none => rfl
      | some option =>
        dsimp only
        rw [payloadOf_plain]
        rfl
  | multi allowed =>
    unfold Value.branches
    rw [List.map_map]
    rfl

/-! ## 3. Verdicts -/

variable {node node' : Node} {ctx ctx' : Context} {D D' : Reports}

/-- A node admits a plain form when it admits the value itself, where this is so of its children
and the lookups in the root come to the same. -/
theorem admits_plain (hnode : node'.value = node.value.plain)
    (hvalue : node.value.represented = node.value) (hdirect : node.value.Direct)
    (hdiscerned : node.value.Discerned schema)
    (hroot : ∀ rules text coerced, schema = .string rules → rules.rootKey = true →
      coerceString? node.value = some (text, coerced) →
        ctx'.root.hasKey text = ctx.root.hasKey text)
    (children : ∀ b ∈ node.value.branches schema,
      ((b.plain.report D').isOk = true ↔ (b.report D).isOk = true)) :
    node'.Admits ctx' D' schema ↔ node.Admits ctx D schema := by
  have hbranches : node'.value.branches schema = (node.value.branches schema).map Branch.plain := by
    rw [hnode, branches_plain hdirect hvalue hdiscerned]
  -- The conditions of a node are compared one by one; those on the children agree in every case.
  have hbelow : node'.OkBelow D' schema ↔ node.OkBelow D schema := by
    unfold Node.OkBelow
    rw [hbranches, List.forall_mem_map]
    exact forall₂_congr children
  cases schema with
  | freeform => exact Iff.rfl
  | boolean =>
    unfold Node.Admits
    rw [hnode]
    refine Value.plain_scalar
      (P := fun v => ∃ b, v = .bool b ∨ v = .string (if b then "true" else "false")) ?_ hvalue
    rintro v hkeys ⟨b, rfl | rfl⟩ <;> cases hkeys
  | number rules =>
    unfold Node.Admits
    rw [hnode, Value.coerceNumber?_plain hvalue]
  | string rules =>
    unfold Node.Admits
    rw [hnode, Value.coerceString?_plain hvalue]
    refine exists₂_congr fun text coerced => and_congr_right fun htext => ?_
    -- This is the only place where the root is read.
    have hkey (hasked : rules.rootKey = true) := hroot rules text coerced rfl hasked htext
    constructor
    · intro meets
      exact { meets with rootKey := fun hasked => (hkey hasked).symm.trans (meets.rootKey hasked) }
    · intro meets
      exact { meets with rootKey := fun hasked => (hkey hasked).trans (meets.rootKey hasked) }
  | regex =>
    unfold Node.Admits
    rw [hnode]
    refine Value.plain_scalar (P := fun v => (∃ p, v = .regex p) ∨
      ∃ literal p, v = .string literal ∧ Pattern.ofLiteral literal = .ok p) ?_ hvalue
    rintro v hkeys (⟨p, rfl⟩ | ⟨literal, p, rfl, -⟩) <;> cases hkeys
  | list elements =>
    refine and_congr ?_ hbelow
    rw [hnode]
    cases hv : node.value with
    | list items => exact iff_of_true ⟨_, Value.plain_list items⟩ ⟨_, rfl⟩
    | external handle w =>
      rw [hv] at hvalue
      cases hvalue
    | _ => exact iff_of_false nofun nofun
  | index elements validKeys =>
    refine and_congr ?_ hbelow
    rw [hnode]
    refine Value.plain_entries hvalue fun entries _ => ?_
    rw [List.forall_mem_map]
  | args fields =>
    refine and_congr ?_ hbelow
    rw [hnode, Value.keyed?_plain hvalue]
    cases node.value.keyed? with
    | none => exact iff_of_false nofun nofun
    | some entries => exact iff_of_true ⟨_, rfl⟩ ⟨_, rfl⟩
  | object fields =>
    refine and_congr ?_ hbelow
    rw [hnode]
    refine Value.plain_entries hvalue fun entries _ => ?_
    simp only [Entries.contains_iff, Entries.keys_map]
  | enum valueField metaField strict options =>
    refine and_congr ?_ hbelow
    rw [hnode]
    refine Value.plain_entries hvalue fun entries hentries => ?_
    simp only [← bind_selection?_eq_some, selected_plain hdirect hdiscerned hentries]
  | multi allowed =>
    show (∃ b ∈ node'.value.branches (.multi allowed), (b.report D').isOk = true) ↔
      ∃ b ∈ node.value.branches (.multi allowed), (b.report D).isOk = true
    rw [hbranches]
    simp only [List.mem_map, exists_exists_and_eq_and]
    exact exists_congr fun b => and_congr_right fun hb => children b hb

end Nodes

/-! ## 4. Plain documents -/

/-- Below a place, no external value is read for which its representation would count: no
discriminant is an external name of an option, and what is looked up in the root is found just where
it is found in what the root stands for. -/
structure SchemaSet.Legible (set : SchemaSet) (root v : Value) (ref : SchemaRef) : Prop where
  discriminants : ∀ w target schema, set.Visits v ref w target →
    set.resolve? target = some schema → w.represented.Discerned schema
  rootKeys : ∀ w target rules text coerced, set.Visits v ref w target →
    set.resolve? target = some (.string rules) → rules.rootKey = true →
      coerceString? w.represented = some (text, coerced) →
        root.represented.hasKey text = root.hasKey text

/-- What holds below a place holds below its children. -/
theorem SchemaSet.Legible.branch {set : SchemaSet} {root v : Value} {ref : SchemaRef}
    {schema : Schema} {b : Branch} (h : set.Legible root v ref)
    (hschema : set.resolve? ref = some schema) (hb : b ∈ v.represented.branches schema) :
    set.Legible root b.value b.ref where
  discriminants w target schema hvisits :=
    h.discriminants w target schema (.child hschema hb hvisits)
  rootKeys w target rules text coerced hvisits :=
    h.rootKeys w target rules text coerced (.child hschema hb hvisits)

inductive VerdictsMatch : Except DepthExceeded Report → Except DepthExceeded Report → Prop
  | aborted (cause cause' : DepthExceeded) : VerdictsMatch (.error cause) (.error cause')
  | completed {r r' : Report} (verdict : r'.isOk = r.isOk) : VerdictsMatch (.ok r) (.ok r')

namespace VerdictsMatch

variable {x x' : Except DepthExceeded Report}

theorem completes (h : VerdictsMatch x x') : (∃ r, x' = .ok r) ↔ ∃ r, x = .ok r := by
  cases h with
  | aborted cause cause' => exact iff_of_false nofun nofun
  | completed verdict => exact iff_of_true ⟨_, rfl⟩ ⟨_, rfl⟩

/-- Walks that complete together match if their verdicts are the same. -/
theorem of_completes (completes : (∃ r, x' = .ok r) ↔ ∃ r, x = .ok r)
    (verdict : ∀ r r', x = .ok r → x' = .ok r' → (r'.isOk = true ↔ r.isOk = true)) :
    VerdictsMatch x x' := by
  cases x with
  | error cause =>
    cases x' with
    | error cause' => exact .aborted cause cause'
    | ok r' =>
      obtain ⟨r, hr⟩ := completes.mp ⟨r', rfl⟩
      cases hr
  | ok r =>
    obtain ⟨r', rfl⟩ := completes.mpr ⟨r, rfl⟩
    exact .completed (Bool.eq_iff_iff.mpr (verdict r r' rfl rfl))

end VerdictsMatch

/-- A walk comes to the same verdict over a value and over its plain form, each with its own
root. -/
theorem walk_plain {set : SchemaSet} {options : Options} {root : Value} (hroot : root.Direct)
    (levels : Nat) : ∀ path v ref, v.Direct → set.Legible root v ref →
      VerdictsMatch (walk ⟨root, set, options⟩ levels path v ref)
        (walk ⟨root.plain, set, options⟩ levels path v.plain ref) := by
  induction levels with
  | zero => exact fun path v ref _ _ => .aborted _ _
  | succ levels ih =>
    intro path v ref hv hlegible
    cases hschema : set.resolve? ref with
    | none =>
      have hschema' (root : Value) :
        (Context.mk root set options).schemas.resolve? ref = none := hschema
      rw [walk_of_unresolved (hschema' root), walk_of_unresolved (hschema' root.plain)]
      exact .completed rfl
    | some schema =>
      have hschema' (root : Value) :
        (Context.mk root set options).schemas.resolve? ref = some schema := hschema
      have hdirect : v.represented.Direct := hv.within v.represented_within
      have hvalue : v.plain.represented = v.represented.plain :=
        v.plain_represented.trans v.represented_plain.symm
      have hdiscerned := hlegible.discriminants v ref schema (.here v ref) hschema
      have hbranches : v.plain.represented.branches schema =
          (v.represented.branches schema).map Branch.plain := by
        rw [hvalue, branches_plain hdirect hv.represented_represented hdiscerned]
      have hbelow : ∀ b ∈ v.represented.branches schema, VerdictsMatch
          (walk ⟨root, set, options⟩ levels (path ++ [b.step]) b.value b.ref)
          (walk ⟨root.plain, set, options⟩ levels (path ++ [b.plain.step]) b.plain.value
            b.plain.ref) :=
        fun b hb => ih _ _ _ (hv.branch hb) (hlegible.branch hschema hb)
      -- Both walks complete when all walks below do, and the verdicts agree by those below.
      refine .of_completes ?_ fun r r' hr hr' => ?_
      · rw [walk_completes_iff (hschema' root.plain), walk_completes_iff (hschema' root), hbranches,
          List.forall_mem_map]
        exact forall₂_congr fun b hb => (hbelow b hb).completes
      · obtain ⟨D, hD, hadmits⟩ := walk_isOk_iff hr (hschema' root)
        obtain ⟨D', hD', hadmits'⟩ := walk_isOk_iff hr' (hschema' root.plain)
        rw [hadmits, hadmits']
        refine admits_plain hvalue hv.represented_represented hdirect hdiscerned ?_ fun b hb => ?_
        · rintro rules text coerced rfl hasked htext
          have hfound :=
            hlegible.rootKeys v ref rules text coerced (.here v ref) hschema hasked htext
          show root.plain.hasKey text = root.hasKey text
          rw [← hfound, ← root.represented_plain, Value.hasKey_plain hroot.represented_represented]
        · have hmem : b.plain ∈ v.plain.represented.branches schema :=
            hbranches ▸ List.mem_map_of_mem hb
          have hmatch := hbelow b hb
          rw [hD b hb, hD' b.plain hmem] at hmatch
          cases hmatch with
          | completed verdict => rw [verdict]

namespace Model

def verdict? (m : Model) (v : Value) (name : String) (call : Options) : Option Bool :=
  (m.validate v name call).toOption.map Outcome.isOk

/-- A value whose external parts stand for values that are not external is judged like its plain
form, in a model in which no external discriminant or root is read. -/
theorem validate_plain (m : Model) (v : Value) (name : String) (call : Options) (hv : v.Direct)
    (legible : ∀ schema, m.schemas.get? name = some schema →
      m.schemas.Legible v v (.inline schema)) :
    m.verdict? v name call = m.verdict? v.plain name call := by
  unfold verdict?
  cases hschema : m.schemas.get? name with
  | none =>
    unfold validate
    rw [hschema]
  | some schema =>
    have hverdicts : VerdictsMatch
        (Conform.validate ⟨v, m.schemas, m.options.merge call⟩ v (.inline schema))
        (Conform.validate ⟨v.plain, m.schemas, m.options.merge call⟩ v.plain (.inline schema)) :=
      walk_plain hv _ [] v _ hv (legible schema hschema)
    rw [validate_of_get? hschema, validate_of_get? hschema]
    generalize Conform.validate _ v (.inline schema) = x at hverdicts ⊢
    generalize Conform.validate _ v.plain (.inline schema) = x' at hverdicts ⊢
    cases hverdicts with
    | aborted cause cause' => rfl
    | @completed r r' verdict =>
      show some (Outcome.ofReport r).isOk = some (Outcome.ofReport r').isOk
      unfold Outcome.ofReport
      rw [verdict]
      cases r.isOk <;> rfl

def choiceModel : Model := ⟨⟨[("e", .enum "value" "meta" false [("x", [])])]⟩, {}⟩

def externalChoice : Value :=
  .external 0 (.map [("value", .string "x"), ("meta", .external 1 (.map []))])

theorem validate_plain_externalChoice :
    choiceModel.verdict? externalChoice "e" {} =
      choiceModel.verdict? (.map [("value", .string "x"), ("meta", .map [])]) "e" {} := by
  have hdirect : externalChoice.Direct := by
    simp [externalChoice, Value.direct_external, Value.direct_map, Value.direct_string,
      Value.represented]
  refine validate_plain choiceModel externalChoice "e" {} hdirect fun schema hschema => ?_
  cases hschema
  -- The choice itself is visited, and its payload, which has no declared fields.
  have hvisits {w : Value} {target : SchemaRef} {schema : Schema}
      (h : choiceModel.schemas.Visits externalChoice
        (.inline (.enum "value" "meta" false [("x", [])])) w target)
      (hschema : choiceModel.schemas.resolve? target = some schema) :
      (w = externalChoice ∧ schema = .enum "value" "meta" false [("x", [])]) ∨
        schema = .args [] := by
    cases h with
    | here =>
      cases hschema
      exact .inl ⟨rfl, rfl⟩
    | child resolved mem visits =>
      cases resolved
      cases List.mem_singleton.mp mem
      cases visits with
      | here =>
        cases hschema
        exact .inr rfl
      | child resolved mem _ =>
        cases resolved
        cases mem
  constructor
  · intro w target schema h hschema valueField metaField strict options henum entries hentries
      handle name hname
    rcases hvisits h hschema with ⟨rfl, rfl⟩ | rfl
    · cases henum
      cases hentries
      cases hname
    · cases henum
  · intro w target rules text coerced h hschema
    rcases hvisits h hschema with ⟨-, hrules⟩ | hrules
    · cases hrules
    · cases hrules

def choiceSpec : Value :=
  .map [("e", .map [("type", .string "enum"),
      ("meta", .map [("options", .map [("x", .map [])])])]),
    ("t", .map [("type", .string "args"), ("meta", .map [("fields", .map [("ref",
      .map [("type", .string "string"), ("meta", .map [("root_index", .bool true)])])])])])]

/-- An external discriminant selects nothing, and in an external root nothing is found. -/
theorem external_unread :
    ∃ m, build choiceSpec {} = .ok m ∧ ∀ e ∈
      [("e", Value.map [("value", .external 0 (.string "x")), ("meta", .map [])]),
        ("t", Value.external 0 (.map [("ref", .string "ref")]))],
      e.2.Direct ∧ m.verdict? e.2 e.1 {} = some false ∧
        m.verdict? e.2.plain e.1 {} = some true := by
  have hbuild : ((build choiceSpec {}).toOption.map fun m =>
      [("e", Value.map [("value", .external 0 (.string "x")), ("meta", .map [])]),
        ("t", Value.external 0 (.map [("ref", .string "ref")]))].map fun e =>
          (m.verdict? e.2 e.1 {}, m.verdict? e.2.plain e.1 {})) =
      some [(some false, some true), (some false, some true)] := by
    decide +kernel
  obtain ⟨m, hm, hruns⟩ := ok_of_toOption_map hbuild
  simp only [List.map_cons, List.map_nil, List.cons.injEq, Prod.mk.injEq, and_true] at hruns
  refine ⟨m, hm, ?_⟩
  simp [hruns, Value.direct_external, Value.direct_map, Value.direct_string, Value.represented]

end Model

end Conform
