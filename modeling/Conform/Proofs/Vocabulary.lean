import Conform.Proofs.Grammar

/-!
# Vocabulary — which words of a specification are understood

What is not understood in a specification should reject it.  So it is in the `meta` of a schema:
wherever a model has a schema, at any depth, the options that are set there are options of its
primitive (`build_understands`).  Around the `meta` it is not: of a mapping that is read as a schema
nothing but `type` and `meta` is looked at, and whatever else it holds is dropped without a remark
(`build_overlooks`).
-/

namespace Conform.Model

/-! ## 1. What is understood -/

/-- Options of a primitive, and nothing else. -/
inductive Declares (kind : PrimitiveKind) (v : Value) : Prop
  | none (value : v.represented = .list [])
  | some {entries : Entries Value} (value : v.represented = .map entries)
    (declared : ∀ e ∈ entries, (Metamodel.optionFields kind).contains e.1 = true)

/-- What may stand where a specification has a schema: a name that means one, or a mapping that
names a primitive and sets options of this primitive alone. -/
inductive Understood (spec v : Value) : Prop
  | name {name : String} (value : v.represented = .string name)
    (known : (∃ kind : PrimitiveKind, name = kind.name) ∨ spec.hasKey name = true)
  | schema {kind : PrimitiveKind} {entries : Entries Value} (value : v.represented = .map entries)
    (type : entries.get? "type" = some (.string kind.name))
    (options : ∀ payload, entries.get? "meta" = some payload → Declares kind payload)

section Places

variable {spec v w : Value} {options : Options} {levels : Nat} {path : Path} {ref : SchemaRef}
  {r : Report}

/-- No schema is found below a string. -/
theorem not_visits_of_string
    (hstring : ∃ rules, Metamodel.schemas.resolve? ref = some (.string rules)) :
    ¬Metamodel.schemas.Visits v ref w Form.schema.ref := by
  intro h
  obtain ⟨rules, hrules⟩ := hstring
  cases h with
  | here => exact nomatch (Form.schema.resolve?_ref).symm.trans hrules
  | child resolved mem visits =>
    cases Option.some.inj (resolved.symm.trans hrules)
    cases mem

/-- The options of a clean `meta` are declared. -/
theorem declares_of_clean {kind : PrimitiveKind}
    (h : walk (context spec options) levels path v (Form.options kind).ref = .ok r)
    (hclean : r.Clean) : Declares kind v := by
  have positions : (Metamodel.optionFields kind).get? "0" = none := by cases kind <;> rfl
  cases levels with
  | zero => cases h
  | succ levels =>
    obtain ⟨D, -, hexact⟩ := walk_clean_iff h (Form.options kind).resolve?_ref
    have hargs : (nodeAt path v (Form.options kind).meaning).Exact (context spec options) D
        (.args (Metamodel.optionFields kind)) := hexact.mp hclean
    -- Of the options nothing more is asked here than that they are declared.
    have below : ∀ b ∈ v.represented.branches (.args (Metamodel.optionFields kind)), ∀ key,
        b.step = .key key → ((b.report D).Clean ↔ True) :=
      fun b hb _ _ => iff_of_true (hargs.2 b hb) trivial
    rcases (Node.exact_args_iff (Q := fun _ _ => True) positions below).mp hargs with
      hempty | ⟨entries, hvalue, each⟩
    · exact .none hempty
    · exact .some hvalue fun e he => Option.isSome_iff_exists.2 (each e he).1

/-- A clean schema is understood. -/
theorem understood_of_clean
    (h : walk (context spec options) levels path v Form.schema.ref = .ok r) (hclean : r.Clean) :
    Understood spec v := by
  cases levels with
  | zero => cases h
  | succ levels =>
    obtain ⟨D, hwalks, hexact⟩ := walk_clean_iff h Form.schema.resolve?_ref
    obtain ⟨⟨entries, name, fields, hkeyed, hname, hfields⟩, hbelow⟩ := hexact.mp hclean
    obtain ⟨kind, rfl, rfl⟩ := selects_iff.mp hfields
    have hmem := payload_mem_branches hkeyed hname hfields "meta" false
    have hpayload : Declares kind (payloadOf entries "meta") :=
      declares_of_clean (hwalks _ hmem) (hbelow _ hmem)
    have hvalue : v.represented.keyed? = some entries := hkeyed
    cases hv : v.represented with
    | map given =>
      rw [hv] at hvalue
      cases hvalue
      refine .schema hv hname fun payload hgiven => ?_
      rw [payloadOf, hgiven, Option.getD_some] at hpayload
      exact hpayload
    | list items =>
      rw [hv] at hvalue
      cases hvalue
      rw [get?_type_entriesOfList] at hname
      cases hname
    | _ =>
      rw [hv] at hvalue
      cases hvalue

/-! ## 2. Every place of a schema -/

/-- A reference of a specification is tried as a schema, as a primitive and as a key. -/
theorem branches_reference (v : Value) : v.branches Form.reference.meaning =
    [⟨candidateKey 0, v, Form.schema.ref⟩, ⟨candidateKey 1, v, .named "primitive string"⟩,
      ⟨candidateKey 2, v, .inline (.string { rootKey := true })⟩] := rfl

/-- A clean candidate for a reference is a schema, or else the value is a name. -/
theorem reference_clean
    (h : walk (context spec options) (levels + 1) path v Form.reference.ref = .ok r)
    (hclean : r.Clean) :
    (∃ r', walk (context spec options) levels (path ++ [candidateKey 0]) v.represented
      Form.schema.ref = .ok r' ∧ r'.Clean) ∨
    ∃ name, v.represented.represented = .string name ∧
      ((∃ kind : PrimitiveKind, name = kind.name) ∨ spec.hasKey name = true) := by
  obtain ⟨D, hwalks, hexact⟩ := walk_clean_iff h Form.reference.resolve?_ref
  obtain ⟨b, hb, hcandidate⟩ : ∃ b ∈ v.represented.branches Form.reference.meaning,
    (b.report D).Clean := hexact.mp hclean
  have hwalk := hwalks b hb
  -- The two candidates beside the schema are strings, which a walk ends at.
  have hstring {rules : StringRules} (hvalue : b.value = v.represented)
      (hrules : Metamodel.schemas.resolve? b.ref = some (.string rules)) :
      ∃ name, v.represented.represented = .string name ∧ rules.Meets spec name := by
    cases levels with
    | zero => cases hwalk
    | succ levels =>
      obtain ⟨D', -, hexact'⟩ := walk_clean_iff hwalk hrules
      rw [← hvalue]
      exact hexact'.mp hcandidate
  rw [branches_reference] at hb
  simp only [List.mem_cons, List.not_mem_nil, or_false] at hb
  rcases hb with rfl | rfl | rfl
  · exact .inl ⟨_, hwalk, hcandidate⟩
  · obtain ⟨name, hname, meets⟩ := hstring rfl rfl
    exact .inr ⟨name, hname, .inl (meets_primitive_iff.mp meets)⟩
  · obtain ⟨name, hname, meets⟩ := hstring rfl rfl
    exact .inr ⟨name, hname, .inr (meets_rootKey_iff.mp meets)⟩

/-- Below what is clean, all schemas are understood. -/
theorem visits_understood (h : Metamodel.schemas.Visits v ref w Form.schema.ref) :
    ∀ (form : Form) (levels : Nat) (path : Path) (r : Report), ref = form.ref →
      walk (context spec options) levels path v ref = .ok r → r.Clean → Understood spec w := by
  generalize htarget : Form.schema.ref = target at h
  induction h with
  | here v ref =>
    rintro form levels path r - hwalk hclean
    rw [← htarget] at hwalk
    exact understood_of_clean hwalk hclean
  | @child v w ref target schema b resolved mem visits ih =>
    rintro form levels path r rfl hwalk hclean
    subst htarget
    cases levels with
    | zero => cases hwalk
    | succ levels =>
      cases Option.some.inj (resolved.symm.trans form.resolve?_ref)
      rcases isPart_of_mem_parts (branch_ref_mem_parts mem) with ⟨part, hpart⟩ | hstring
      · by_cases hmulti : ∀ allowed, form.meaning ≠ .multi allowed
        · obtain ⟨D, hwalks, hexact⟩ := walk_clean_iff hwalk form.resolve?_ref
          have hbelow := Node.cleanBelow_of_exact (hexact.mp hclean) hmulti b mem
          exact ih rfl part _ _ _ hpart (hwalks b mem) hbelow
        · obtain rfl : form = .reference := by
            cases form with
            | reference => rfl
            | _ => exact absurd (fun _ => nofun) hmulti
          obtain ⟨hvalue, hform⟩ : b.value = v.represented ∧ b.ref = Form.schema.ref := by
            have hmem := mem
            rw [branches_reference] at hmem
            simp only [List.mem_cons, List.not_mem_nil, or_false] at hmem
            rcases hmem with rfl | rfl | rfl
            · exact ⟨rfl, rfl⟩
            · exact absurd visits (not_visits_of_string ⟨_, rfl⟩)
            · exact absurd visits (not_visits_of_string ⟨_, rfl⟩)
          -- A candidate is visited whether it wins or not, and a name has nothing below it.
          rcases reference_clean hwalk hclean with ⟨r', hwalk', hclean'⟩ | ⟨name, hname, known⟩
          · rw [← hvalue, ← hform] at hwalk'
            exact ih rfl .schema _ _ _ hform hwalk' hclean'
          · rw [hvalue, hform] at visits
            cases visits with
            | here => exact .name hname known
            | child resolved mem _ =>
              obtain rfl := Option.some.inj ((Form.schema.resolve?_ref).symm.trans resolved)
              rw [hname] at mem
              cases mem
      · exact absurd visits (not_visits_of_string hstring)

end Places

/-! ## 3. What a model overlooks -/

/-- In the specification of a model every schema, at any depth, names its primitive and sets options
of this primitive alone. -/
theorem build_understands (spec : Value) (options : Options) (m : Model)
    (h : build spec options = .ok m) (w : Value)
    (hplace : Metamodel.schemas.Visits spec (.named "model") w (.named "schema")) :
    Understood spec w := by
  obtain ⟨r, hr, hok, hwarnings, -⟩ := build_inv h
  have hwalk : walk (context spec options) ((context spec options).options.depthLimit + 1) [] spec
    Form.model.ref = .ok r := hr
  exact visits_understood hplace .model _ _ _ rfl hwalk ⟨(Report.isOk_iff r).mp hok, hwarnings⟩

/-- A pair is visited as a schema, and so is each of its sides, which is the name of one. -/
theorem build_understands_pairSpec :
    ∃ m, build pairSpec {} = .ok m ∧
      Metamodel.schemas.Visits pairSpec (.named "model") (.string "pair") (.named "schema") ∧
      Understood pairSpec (.string "pair") := by
  have hbuild : ((build pairSpec {}).toOption.map fun m => m.schemas.names) = some ["pair"] := by
    decide +kernel
  obtain ⟨m, hm, -⟩ := ok_of_toOption_map hbuild
  have hside :
      Metamodel.schemas.Visits pairSpec (.named "model") (.string "pair") (.named "schema") := by
    refine .child rfl (entry_mem_branches rfl List.mem_cons_self _ _) ?_
    refine .child rfl (payload_mem_branches rfl rfl rfl _ _) ?_
    refine .child rfl (field_mem_branches rfl List.mem_cons_self rfl) ?_
    refine .child rfl (entry_mem_branches rfl List.mem_cons_self _ _) ?_
    exact .child rfl List.mem_cons_self (.here _ _)
  exact ⟨m, hm, hside, build_understands pairSpec {} m hm _ hside⟩

def misspelledSpec : Value :=
  .map [("x", .map [("type", .string "string"),
    ("mata", .map [("min_length", .number (.ofNat 1))])])]

/-- What is given under the misspelled word is lost: the model accepts the empty string. -/
theorem build_overlooks :
    ∃ m, build misspelledSpec {} = .ok m ∧
      (∃ outcome, m.validate (.string "") "x" {} = .ok outcome ∧ outcome.isOk = true) ∧
      ∃ entries : Entries Value, "mata" ∈ entries.keys ∧
        Metamodel.schemas.Visits misspelledSpec (.named "model") (.map entries)
          (.named "schema") := by
  have hbuild : ((build misspelledSpec {}).toOption.map fun m =>
      (m.validate (.string "") "x" {}).toOption.map Outcome.isOk) = some (some true) := by
    decide +kernel
  obtain ⟨m, hm, hvalidate⟩ := ok_of_toOption_map hbuild
  refine ⟨m, hm, ok_of_toOption_map hvalidate, _, ?_,
    .child rfl (entry_mem_branches rfl List.mem_cons_self _ _) (.here _ _)⟩
  exact List.mem_cons_of_mem _ List.mem_cons_self

end Conform.Model
