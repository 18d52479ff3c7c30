import Mathlib.Logic.Function.Iterate
import Conform.Proofs.Changes
import Conform.Proofs.Idempotence
import Conform.Proofs.Models
import Conform.Proofs.Renditions

/-!
# Revalidation — sanitized values as documents of their own

A sanitized value that is validated anew is its own root, and a string that has to be a key of the
root is looked up there.  What was looked up the first time may be gone, as undeclared fields are
dropped (`sanitized_root_shrinks`).  Nothing else stands against a second validation: when the
sanitized value has all the keys that were looked up, it is accepted without a warning, and when it
lacks one and no choice can be led to, it is rejected (`validate_sanitized`).
-/

namespace Conform

/-! ## 1. Lookups in the root -/

def Context.rootedAt (ctx : Context) (root : Value) : Context := { ctx with root }

/-- `Cites ctx path v ref text`: held against `ref` at `path`, the value `v` has the text looked up
among the keys of the root. Of a choice, the winner alone counts. -/
inductive Cites (ctx : Context) : Path → Value → SchemaRef → String → Prop
  | here {path : Path} {v : Value} {ref : SchemaRef} {rules : StringRules} {text : String}
    {coerced : Bool} (resolved : ctx.schemas.resolve? ref = some (.string rules))
    (rootKey : rules.rootKey = true) (value : coerceString? v.represented = some (text, coerced)) :
    Cites ctx path v ref text
  | child {path : Path} {v : Value} {ref : SchemaRef} {schema : Schema} {b : Branch} {text : String}
    (resolved : ctx.schemas.resolve? ref = some schema)
    (single : ∀ allowed, schema ≠ .multi allowed) (mem : b ∈ v.represented.branches schema)
    (cites : Cites ctx (path ++ [b.step]) b.value b.ref text) : Cites ctx path v ref text
  | winner {path : Path} {v : Value} {ref : SchemaRef} {allowed : List SchemaRef}
    {c : SchemaRef × Nat} {text : String}
    (resolved : ctx.schemas.resolve? ref = some (.multi allowed)) (candidate : c ∈ allowed.zipIdx)
    (wins : Wins ctx path v.represented allowed c)
    (cites : Cites ctx (path ++ [candidateKey c.2]) v.represented c.1 text) :
    Cites ctx path v ref text

/-! ## 2. Sanitized values under another root -/

section Nodes

variable {ctx : Context} {root s v : Value} {D : Reports} {node : Node} {schema : Schema}
  {ws : List Diagnostic} {path : Path} {levels : Nat} {ref : SchemaRef} {r : Report}

/-- Under another root a node is accepted as before, if the text it looks up is a key there. -/
theorem Node.Accepts.rootedAt (h : node.Accepts ctx D schema s ws)
    (keys : ∀ rules text coerced, schema = .string rules → rules.rootKey = true →
      coerceString? node.value = some (text, coerced) → root.hasKey text = true) :
    node.Accepts (ctx.rootedAt root) D schema s ws := by
  cases h with
  | @string rules text coerced value meets =>
    refine .string value ⟨meets.notLonger, meets.notShorter, fun hkey => ?_, meets.regex⟩
    exact keys rules text coerced rfl hkey value
  | freeform => exact .freeform
  | boolean value => exact .boolean value
  | booleanName value => exact .booleanName value
  | number value meets => exact .number value meets
  | regex value => exact .regex value
  | regexLiteral value compiles => exact .regexLiteral value compiles
  | list value children => exact .list value children
  | index value valid children => exact .index value valid children
  | args value children => exact .args value children
  | object value present children => exact .object value present children
  | enum value discriminant option distinct children =>
    exact .enum value discriminant option distinct children
  | multi candidate accepted best => exact .multi candidate accepted best

/-- Only a freeform node, or a choice, can leave an external value in place. -/
theorem Node.Accepts.represented_of_ne (h : node.Accepts ctx D schema s ws)
    (hfreeform : schema ≠ .freeform) (hmulti : ∀ allowed, schema ≠ .multi allowed) :
    s.represented = s := by
  have hpattern (p : Pattern) :
      (renderPattern ctx.options p).represented = renderPattern ctx.options p := by
    unfold renderPattern
    split <;> rfl
  cases h with
  | freeform => exact absurd rfl hfreeform
  | regex => exact hpattern _
  | regexLiteral => exact hpattern _
  | multi => exact absurd rfl (hmulti _)
  | _ => rfl

/-- The values that a sanitized value is taken for when it is held against a choice, of choices, and
so on: an external value that it is gives way each time. -/
def Value.settled (s : Value) (n : Nat) : Value := (Value.represented^[n]) s

/-- What stands for itself is settled. -/
theorem Value.settled_of_represented (h : s.represented = s) (n : Nat) : s.settled n = s :=
  Function.iterate_fixed h n

theorem Value.settled_succ (s : Value) (n : Nat) : s.settled (n + 1) = (s.settled n).represented :=
  Function.iterate_succ_apply' Value.represented n s

def CleanUnder (ctx : Context) (root s : Value) (ref : SchemaRef) : Prop :=
  ∀ n levels path r, walk (ctx.rootedAt root) levels path (s.settled n) ref = .ok r → r.Clean

/-- What a node accepts is clean under the root, given that of its children. -/
theorem cleanUnder_of_accepts (hide : ctx.options.hidesConfidential = false)
    (hschema : ctx.schemas.resolve? ref = some schema)
    (hmulti : ∀ allowed, schema ≠ .multi allowed)
    (h : (nodeAt path v schema).Accepts ctx D schema s ws)
    (keys : ∀ text, Cites ctx path v ref text → root.hasKey text = true)
    (below : ∀ b ∈ v.represented.branches schema, (b.report D).isOk = true →
      CleanUnder ctx root (b.report D).placeholder b.ref) :
    CleanUnder ctx root s ref := by
  intro n levels path' r hr
  have hschema' : (ctx.rootedAt root).schemas.resolve? ref = some schema := hschema
  cases levels with
  | zero => cases hr
  | succ levels =>
    obtain ⟨D', hD', rfl⟩ := walk_inv hr hschema'
    rw [Report.close_clean_iff]
    -- A freeform value may still be external; all others stand for themselves.
    by_cases hfreeform : schema = .freeform
    · subst hfreeform
      exact ⟨rfl, rfl⟩
    · have hs := h.represented_of_ne hfreeform hmulti
      rw [Value.settled_of_represented hs] at hD' ⊢
      have hchildren : ∀ b ∈ s.represented.branches schema,
          (b.report D').Settles False b.value := by
        intro b hb
        have hwalk := hD' b hb
        rw [hs] at hb
        obtain ⟨given, hgiven, hok, href, hvalue⟩ := h.branch hmulti hb
        rw [href, hvalue] at hwalk
        have hclean : (b.report D').Clean := below given hgiven hok 0 _ _ _ hwalk
        exact ⟨hclean.1, hclean.2, False.elim⟩
      have hkeys : ∀ rules text coerced, schema = .string rules → rules.rootKey = true →
          coerceString? (nodeAt path v schema).value = some (text, coerced) →
            root.hasKey text = true := by
        rintro rules text coerced rfl hkey hvalue
        exact keys text (.here hschema hkey hvalue)
      -- It is accepted in the same way, so that it settles as in a second validation.
      have hsettles : ((nodeAt path' s schema).report (ctx.rootedAt root) D' schema).Settles
          False s := (h.rootedAt hkeys).again hmulti hide hs hchildren
      exact ⟨hsettles.errors, hsettles.warnings⟩

/-- A sanitized value stays clean under every root that has the keys that were looked up. -/
theorem walk_cleanUnder (hide : ctx.options.hidesConfidential = false) :
    ∀ levels path v ref r, walk ctx levels path v ref = .ok r → r.isOk = true →
      (∀ text, Cites ctx path v ref text → root.hasKey text = true) →
        CleanUnder ctx root r.placeholder ref := by
  refine acceptance_induction (P := fun _ path v ref s _ =>
    (∀ text, Cites ctx path v ref text → root.hasKey text = true) → CleanUnder ctx root s ref) ?_
  intro levels path v ref schema D s ws hschema haccepts hD ih keys
  by_cases hmulti : ∀ allowed, schema ≠ .multi allowed
  · refine cleanUnder_of_accepts hide hschema hmulti haccepts keys fun b hb hok => ?_
    exact ih b hb hok fun text hcites => keys text (.child hschema hmulti hb hcites)
  · obtain ⟨allowed, hallowed⟩ := Classical.not_forall.1 hmulti
    cases Classical.not_not.1 hallowed
    cases haccepts with
    | @multi _ c candidate accepted best =>
      have hmem := candidate_mem_branches candidate v.represented
      have hwins : Wins ctx path v.represented allowed c := ⟨levels, D, hD, best, accepted⟩
      have hwinner : CleanUnder ctx root (D (candidateKey c.2) v.represented c.1).placeholder c.1 :=
        ih _ hmem accepted fun text hcites => keys text (.winner hschema candidate hwins hcites)
      -- Whichever candidate wins the second time, the first winner has nothing to say.
      intro n levels' path' r hr
      have hschema' : (ctx.rootedAt root).schemas.resolve? ref = some (.multi allowed) := hschema
      cases levels' with
      | zero => cases hr
      | succ levels' =>
        obtain ⟨D', hD', rfl⟩ := walk_inv hr hschema'
        have hsecond := hD' _ (candidate_mem_branches candidate _)
        rw [← Value.settled_succ] at hsecond
        have hclean : Report.Clean _ := hwinner (n + 1) _ _ _ hsecond
        rw [Value.settled_succ] at hclean
        rw [Report.close_clean_iff]
        exact Node.choice_clean (List.mem_map.mpr ⟨c, candidate, rfl⟩) hclean

/-! ## 3. Sanitized values without choices -/

/-- The sanitized children are the children of the sanitized value. -/
theorem Node.Accepts.sanitized_branch (h : node.Accepts ctx D schema s ws)
    (hmulti : ∀ allowed, schema ≠ .multi allowed) {b : Branch}
    (hb : b ∈ node.value.branches schema) :
    ∃ b' ∈ s.branches schema, b'.ref = b.ref ∧ b'.value = (b.report D).placeholder := by
  have hkept (fields : Fields) (entries : Entries Value) (e : String × Value) (ref : SchemaRef)
      (he : e ∈ entries) (href : fields.get? e.1 = some ref) :
      (e.1, (D (.key e.1) e.2 ref).placeholder) ∈ keptFields D fields entries :=
    List.mem_filterMap.mpr ⟨e, he, by rw [href, Option.map_some]⟩
  -- The sanitized child is found by the step of the given one.
  cases h with
  | freeform | boolean | booleanName | number | string | regex | regexLiteral => cases hb
  | @list elements items value ok =>
    rw [value] at hb
    obtain ⟨c, hc, rfl⟩ := List.mem_map.mp hb
    have hitem : (D (.index c.2) c.1 elements).placeholder ∈
        items.zipIdx.map fun c => (D (.index c.2) c.1 elements).placeholder :=
      List.mem_map_of_mem hc
    rw [← List.zipIdx_map_fst 0 (items.zipIdx.map _)] at hitem
    obtain ⟨c', hc', hvalue⟩ := List.mem_map.mp hitem
    exact ⟨_, item_mem_branches rfl hc' elements, rfl, hvalue⟩
  | @index elements validKeys entries value valid ok =>
    rw [branches_index value] at hb
    obtain ⟨e, he, rfl⟩ := List.mem_map.mp hb
    exact ⟨_, entry_mem_branches rfl (List.mem_map_of_mem he) elements validKeys, rfl, rfl⟩
  | @args fields entries value ok =>
    cases hasChild_of_mem hb with
    | @argument _ ref _ e given mem field =>
      cases value.symm.trans given
      exact ⟨_, field_mem_branches rfl (hkept fields entries e ref mem field) field, rfl, rfl⟩
  | @object fields entries value present ok =>
    cases hasChild_of_mem hb with
    | @field _ ref _ e given mem field =>
      cases value.symm.trans given
      exact ⟨_, field_mem_branches rfl (hkept fields entries e ref mem field) field, rfl, rfl⟩
  | @enum valueField metaField strict options entries name fields value discriminant option
      distinct ok =>
    rw [branches_enum value discriminant option] at hb
    rw [List.mem_singleton.mp hb]
    refine ⟨_, payload_mem_branches rfl (get?_discriminant ..) option metaField strict, rfl, ?_⟩
    exact payloadOf_pair distinct ..
  | multi => exact absurd rfl (hmulti _)

/-- A walk over a sanitized value goes no deeper than the first one did. -/
theorem walk_sanitized_completes :
    ∀ levels path v ref r, walk ctx levels path v ref = .ok r → r.isOk = true →
      ctx.schemas.ChoiceFree ref → ∀ levels' path', levels ≤ levels' →
        ∃ r', walk (ctx.rootedAt root) levels' path' r.placeholder ref = .ok r' := by
  refine acceptance_induction (P := fun levels _ _ ref s _ => ctx.schemas.ChoiceFree ref →
    ∀ levels' path', levels ≤ levels' →
      ∃ r', walk (ctx.rootedAt root) levels' path' s ref = .ok r') ?_
  intro levels path v ref schema D s ws hschema haccepts _ ih hfree levels' path' hle
  have hmulti : ∀ allowed, schema ≠ .multi allowed := by
    rintro allowed rfl
    exact hfree allowed (.here hschema)
  cases levels' with
  | zero => omega
  | succ levels' =>
    have hschema' : (ctx.rootedAt root).schemas.resolve? ref = some schema := hschema
    refine (walk_completes_iff hschema').mpr fun b hb => ?_
    by_cases hfreeform : schema = .freeform
    · subst hfreeform
      cases hb
    · rw [haccepts.represented_of_ne hfreeform hmulti] at hb
      obtain ⟨given, hgiven, hok, href, hvalue⟩ := haccepts.branch hmulti hb
      rw [href, hvalue]
      exact ih given hgiven hok (hfree.part hschema (branch_ref_mem_parts hgiven)) levels' _
        (Nat.le_of_succ_le_succ hle)

/-- Where a sanitized value is accepted under a root, the root has the keys that were looked up. -/
theorem hasKey_of_cites (hide : ctx.options.hidesConfidential = false) :
    ∀ levels path v ref r, walk ctx levels path v ref = .ok r → r.isOk = true →
      ctx.schemas.ChoiceFree ref → ∀ levels' path' r',
        walk (ctx.rootedAt root) levels' path' r.placeholder ref = .ok r' → r'.isOk = true →
          ∀ text, Cites ctx path v ref text → root.hasKey text = true := by
  refine acceptance_induction (P := fun _ path v ref s _ => ctx.schemas.ChoiceFree ref →
    ∀ levels' path' r', walk (ctx.rootedAt root) levels' path' s ref = .ok r' → r'.isOk = true →
      ∀ text, Cites ctx path v ref text → root.hasKey text = true) ?_
  intro levels path v ref schema D s ws hschema haccepts _ ih hfree levels' path' r' hr' hok' text
    hcites
  cases levels' with
  | zero => cases hr'
  | succ levels' =>
    obtain ⟨schema', D', hresolved, hD', haccepts'⟩ := walk_accepts hr' hok'
    obtain rfl : schema' = schema := Option.some.inj (hresolved.symm.trans hschema)
    -- The text is looked up here, or by a child whose sanitized value is a child of this one.
    cases hcites with
    | here resolved rootKey value =>
      cases Option.some.inj (hschema.symm.trans resolved)
      cases haccepts with
      | string taken meets =>
        cases value.symm.trans taken
        rw [StringRules.shown_of_not_hides hide] at haccepts'
        generalize r'.placeholder = s' at haccepts'
        generalize r'.warnings = ws' at haccepts'
        cases haccepts' with
        | string again meets' =>
          cases again
          exact meets'.rootKey rootKey
    | child resolved single mem cites =>
      cases Option.some.inj (hschema.symm.trans resolved)
      have hfreeform : schema' ≠ .freeform := by
        rintro rfl
        cases mem
      have hs := haccepts.represented_of_ne hfreeform single
      obtain ⟨b', hb', href, hvalue⟩ := haccepts.sanitized_branch single mem
      rw [← hs] at hb'
      have hwalk := hD' b' hb'
      rw [href, hvalue] at hwalk
      exact ih _ mem (haccepts.children single _ mem)
        (hfree.part hschema (branch_ref_mem_parts mem)) _ _ _ hwalk
        (haccepts'.children single b' hb') text cites
    | winner resolved => exact absurd (.here resolved) (hfree _)

end Nodes

/-! ## 4. Sanitized documents -/

namespace Model

/-- In the validation of a value against a named schema, the text is looked up in the root. -/
def Cites (m : Model) (v : Value) (name : String) (call : Options) (text : String) : Prop :=
  ∃ schema, m.schemas.get? name = some schema ∧
    Conform.Cites ⟨v, m.schemas, m.options.merge call⟩ [] v (.inline schema) text

/-- An accepted value, with the report that it is accepted by. -/
theorem validate_ok_inv {m : Model} {v s : Value} {name : String} {call : Options}
    {ws : List Diagnostic} (h : m.validate v name call = .ok (.ok s ws)) :
    ∃ schema r, m.schemas.get? name = some schema ∧
      Conform.validate ⟨v, m.schemas, m.options.merge call⟩ v (.inline schema) = .ok r ∧
      r.isOk = true ∧ r.placeholder = s := by
  cases hschema : m.schemas.get? name with
  | none =>
    unfold validate at h
    rw [hschema] at h
    cases h
  | some schema =>
    rw [validate_of_get? hschema] at h
    cases hr : Conform.validate ⟨v, m.schemas, m.options.merge call⟩ v (.inline schema) with
    | error cause =>
      rw [hr] at h
      cases h
    | ok r =>
      rw [hr] at h
      have hreport : Outcome.ofReport r = .ok s ws := Except.ok.inj h
      unfold Outcome.ofReport at hreport
      by_cases hok : r.isOk = true
      · rw [if_pos hok] at hreport
        cases hreport
        exact ⟨schema, r, rfl, hr, hok, rfl⟩
      · rw [if_neg hok] at hreport
        cases hreport

theorem choiceFree_inline {set : SchemaSet} {name : String} {schema : Schema}
    (h : set.ChoiceFree (.named name)) (hget : set.get? name = some schema) :
    set.ChoiceFree (.inline schema) := by
  have hresolved : set.resolve? (.named name) = some schema := by
    change ((set.get? name).orElse _) = some schema
    rw [hget]
    rfl
  intro allowed hreaches
  cases hreaches with
  | here resolved => exact h allowed (.here (hresolved.trans resolved))
  | part resolved mem reaches => exact h allowed (.part (hresolved.trans resolved) mem reaches)

/-- A sanitized value that is validated as a document of its own is too deep or accepted without
warnings if it has the keys that were looked up in the document it comes from; without choices, it
is rejected if it has not. -/
theorem validate_sanitized (m : Model) (v s : Value) (name : String) (call : Options)
    (ws : List Diagnostic) (hide : (m.options.merge call).hidesConfidential = false)
    (h : m.validate v name call = .ok (.ok s ws)) :
    ((∀ text, m.Cites v name call text → s.hasKey text = true) →
      ∀ outcome, m.validate s name call = .ok outcome → ∃ s', outcome = .ok s' []) ∧
    (m.schemas.ChoiceFree (.named name) →
      ∀ text, m.Cites v name call text → s.hasKey text = false →
        ∃ list, m.validate s name call = .ok (.errors list)) := by
  obtain ⟨schema, r, hschema, hr, hok, rfl⟩ := validate_ok_inv h
  rw [validate_of_get? hschema]
  constructor
  · intro keys outcome houtcome
    have hunder := walk_cleanUnder hide _ _ _ _ _ hr hok fun text hcites =>
      keys text ⟨schema, hschema, hcites⟩
    cases hr' : Conform.validate ⟨r.placeholder, m.schemas, m.options.merge call⟩ r.placeholder
        (.inline schema) with
    | error cause =>
      rw [hr'] at houtcome
      cases houtcome
    | ok r' =>
      have hclean : r'.Clean := hunder 0 _ _ _ hr'
      rw [hr'] at houtcome
      have hreport : Outcome.ofReport r' = outcome := Except.ok.inj houtcome
      rw [Outcome.ofReport, if_pos ((Report.isOk_iff r').mpr hclean.1), hclean.2] at hreport
      exact ⟨_, hreport.symm⟩
  · rintro hfree text ⟨schema', hschema', hcites⟩ hmissing
    obtain rfl := Option.some.inj (hschema.symm.trans hschema')
    have hfree' := choiceFree_inline hfree hschema
    obtain ⟨r', hr'⟩ : ∃ r', Conform.validate ⟨r.placeholder, m.schemas, m.options.merge call⟩
        r.placeholder (.inline schema) = .ok r' :=
      walk_sanitized_completes _ _ _ _ _ hr hok hfree' _ _ (Nat.le_refl _)
    -- If it were accepted, every text that is looked up would be a key.
    have hrejected : ¬r'.isOk = true := by
      intro hok'
      have hkey := hasKey_of_cites hide _ _ _ _ _ hr hok hfree' _ _ _ hr' hok' text hcites
      rw [hmissing] at hkey
      cases hkey
    refine ⟨r'.errors, ?_⟩
    rw [hr']
    change Except.ok (Outcome.ofReport r') = _
    rw [Outcome.ofReport, if_neg hrejected]

def tagModel : Model := ⟨⟨[("t", .args [("ref", .inline (.string { rootKey := true }))])]⟩, {}⟩

theorem validate_sanitized_tag :
    ∃ ws, tagModel.validate (.map [("ref", .string "ref"), ("note", .null)]) "t" {} =
        .ok (.ok (.map [("ref", .string "ref")]) ws) ∧
      ∀ outcome, tagModel.validate (.map [("ref", .string "ref")]) "t" {} = .ok outcome →
        ∃ s', outcome = .ok s' [] := by
  have h : tagModel.validate (.map [("ref", .string "ref"), ("note", .null)]) "t" {} =
      .ok (.ok (.map [("ref", .string "ref")]) _) := rfl
  refine ⟨_, h, (validate_sanitized tagModel _ _ "t" {} _ rfl h).1 ?_⟩
  -- The one text that is looked up is that of the field `ref`.
  rintro text ⟨schema, hschema, hcites⟩
  cases hschema
  cases hcites with
  | here resolved => cases resolved
  | winner resolved => cases resolved
  | child resolved _ mem cites =>
    cases resolved
    cases hasChild_of_mem mem with
    | argument value mem field =>
      cases value
      simp only [List.mem_cons, List.not_mem_nil, or_false] at mem
      rcases mem with rfl | rfl
      · cases field
        cases cites with
        | here resolved _ value =>
          cases value
          rfl
        | winner resolved => cases resolved
        | child resolved _ mem _ =>
          cases resolved
          cases mem
      · cases field

def tagSpec : Value :=
  .map [("t", .map [("type", .string "args"), ("meta", .map [("fields", .map [("ref",
    .map [("type", .string "string"), ("meta", .map [("root_index", .bool true)])])])])])]

/-- A field that is named, but not declared, is dropped, and then its name is no key any more. -/
theorem sanitized_root_shrinks :
    ∃ (m : Model) (s : Value) (ws list : List Diagnostic), build tagSpec {} = .ok m ∧
      (m.options.merge {}).hidesConfidential = false ∧
      m.validate (.map [("ref", .string "x"), ("x", .number (.ofNat 1))]) "t" {} =
        .ok (.ok s ws) ∧
      m.validate s "t" {} = .ok (.errors list) := by
  have hbuild : ((build tagSpec {}).toOption.map fun m => ((m.options.merge {}).hidesConfidential,
      (m.validate (.map [("ref", .string "x"), ("x", .number (.ofNat 1))]) "t" {}).toOption.map
        fun outcome => outcome.sanitized?.map fun s =>
          (m.validate s "t" {}).toOption.map Outcome.isOk)) =
      some (false, some (some (some false))) := by
    decide +kernel
  obtain ⟨m, hm, hruns⟩ := ok_of_toOption_map hbuild
  obtain ⟨hide, hfirst⟩ := Prod.mk.inj hruns
  obtain ⟨outcome, houtcome, hsanitized⟩ := ok_of_toOption_map hfirst
  cases outcome with
  | errors list => cases hsanitized
  | ok s ws =>
    obtain ⟨second, hsecond, hrejected⟩ := ok_of_toOption_map (Option.some.inj hsanitized)
    cases second with
    | ok => cases hrejected
    | errors list => exact ⟨m, s, ws, list, hm, hide, houtcome, hsecond⟩

end Model

end Conform
