import Conform.Proofs.Grammar
import Conform.Proofs.Keys
import Conform.Proofs.Renditions

/-!
# Faithfulness — a model says what its specification says

A model is read from the sanitized specification, not from the one that was given.  The two say
the same: if the given specification can be read at all, it gives the schemas of the model, and it
can be read unless an external value, or a list where a mapping should be, is in the way
(`build_faithful`).  Along the walk of the metamodel each given part is compared with what became of
it, form by form.
-/

namespace Conform

/-! ## 1. Computations that follow others -/

/-- A computation gives what another one gives, unless it fails on an obstacle. -/
def Follows (obstructed : Prop) {ε α : Type} (x y : Except ε α) : Prop :=
  x = y ∨ obstructed ∧ ∃ e, x = .error e

namespace Follows

variable {o o' : Prop} {ε ε' α β γ : Type} {x y : Except ε α}

theorem refl (x : Except ε α) : Follows o x x := .inl rfl

theorem imp (h : Follows o x y) (ho : o → o') : Follows o' x y :=
  h.imp_right fun hfails => ⟨ho hfails.1, hfails.2⟩

theorem map (h : Follows o x y) (f : α → β) : Follows o (x.map f) (y.map f) := by
  rcases h with rfl | ⟨ho, e, rfl⟩
  · exact .inl rfl
  · exact .inr ⟨ho, e, rfl⟩

theorem mapError (h : Follows o x y) (f : ε → ε') : Follows o (x.mapError f) (y.mapError f) := by
  rcases h with rfl | ⟨ho, e, rfl⟩
  · exact .inl rfl
  · exact .inr ⟨ho, f e, rfl⟩

/-- Steps that follow each other one by one follow each other as a whole. -/
theorem bind (h : Follows o x y) {f g : α → Except ε β} (hnext : ∀ a, Follows o (f a) (g a)) :
    Follows o (x >>= f) (y >>= g) := by
  rcases h with rfl | ⟨ho, e, rfl⟩
  · cases x with
    | error e => exact .inl rfl
    | ok a => exact hnext a
  · exact .inr ⟨ho, e, rfl⟩

/-- A traversal follows another one item by item. -/
theorem mapM {xs : List α} {ys : List β} {f : α → Except ε γ} {g : β → Except ε γ}
    (h : List.Forall₂ (fun a b => Follows o (f a) (g b)) xs ys) :
    Follows o (xs.mapM f) (ys.mapM g) := by
  induction h with
  | nil => exact .inl rfl
  | cons first _ ih =>
    rw [List.mapM_cons, List.mapM_cons]
    exact first.bind fun a => ih.bind fun rest => refl _

/-- What follows a success is that success, if it is one. -/
theorem eq_of_ok {a b : α} (h : Follows o (.ok a : Except ε α) (.ok b)) : a = b := by
  rcases h with h | ⟨-, e, h⟩
  · exact Except.ok.inj h
  · cases h

/-- Without an obstacle both computations come to the same. -/
theorem eq_of_not (h : Follows o x y) (ho : ¬o) : x = y := h.resolve_right fun hfails => ho hfails.1

end Follows

namespace Model

/-! ## 2. Obstacles -/

def Form.isMapping : Form → Bool
  | .model | .options _ | .fields | .cases => true
  | _ => false

/-- Something that the walk of the metamodel takes in silence and a reader of schemas does not: an
external value, or a list in the place of a mapping. -/
inductive Obstacle (ref : SchemaRef) : Value → Prop
  | external (handle : Nat) (w : Value) : Obstacle ref (.external handle w)
  | list (items : List Value) {form : Form} (mapping : form.isMapping = true)
    (place : ref = form.ref) : Obstacle ref (.list items)

def Obstructed (v : Value) (ref : SchemaRef) : Prop :=
  ∃ w target, Metamodel.schemas.Visits v ref w target ∧ Obstacle target w

/-- An obstacle below a place is an obstacle of the place. -/
theorem Obstructed.child {v : Value} {form : Form} {b : Branch}
    (h : Obstructed b.value b.ref) (hb : b ∈ v.represented.branches form.meaning) :
    Obstructed v form.ref := by
  obtain ⟨w, target, hvisits, hobstacle⟩ := h
  exact ⟨w, target, .child form.resolve?_ref hb hvisits, hobstacle⟩

/-- A value is there itself, or an external value obstructs it. -/
theorem represented_or_obstructed (v : Value) (ref : SchemaRef) :
    v.represented = v ∨ ∃ handle w, v = .external handle w ∧ Obstructed v ref := by
  cases v with
  | external handle w => exact .inr ⟨handle, w, rfl, _, _, .here _ _, .external handle w⟩
  | _ => exact .inl rfl

/-! ## 3. Readers -/

def casesOfValue : Value → Except SchemaError (Entries Fields)
  | .map cases => enumOptionsOfEntries cases
  | v => .error (.optionsNotMapping v.typeName)

def candidatesOfValue : Value → Except SchemaError (List SchemaRef)
  | .list items => refsOfItems items
  | v => .error (.allowedNotList v.typeName)

def Kept (o : Prop) (v s : Value) : Prop := v = s ∨ o ∧ ∃ handle w, v = .external handle w

theorem Kept.follows {o : Prop} {v s : Value} (h : Kept o v s) {α : Type}
    {read : Value → Except SchemaError α}
    (rejects : ∀ handle w, ∃ e, read (.external handle w) = .error e) :
    Follows o (read v) (read s) := by
  rcases h with rfl | ⟨ho, handle, w, rfl⟩
  · exact .refl _
  · exact .inr ⟨ho, rejects handle w⟩

/-- A given value and what became of it read alike, each form by its own reader. -/
def ReadsAlike (o : Prop) : Form → Value → Value → Prop
  | .model, v, s => Follows o (SchemaSet.ofValue v) (SchemaSet.ofValue s)
  | .schema, v, s =>
    Follows o (Schema.ofValue v) (Schema.ofValue s) ∧
      Follows o (SchemaRef.ofValue v) (SchemaRef.ofValue s)
  | .reference, v, s => Follows o (SchemaRef.ofValue v) (SchemaRef.ofValue s)
  | .options kind, v, s => Follows o (schemaIn kind [("meta", v)]) (schemaIn kind [("meta", s)])
  | .fields, v, s => Follows o (fieldsOfValue v) (fieldsOfValue s)
  | .cases, v, s => Follows o (casesOfValue v) (casesOfValue s)
  | .candidates, v, s => Follows o (candidatesOfValue v) (candidatesOfValue s)
  | .switch, v, s | .bound, v, s | .length, v, s | .text, v, s => Kept o v s
  -- A literal becomes the pattern that it is the literal of.
  | .pattern, v, s => Kept o v s ∨
      ∃ literal p, v = .string literal ∧ s = .regex p ∧ Pattern.ofLiteral literal = .ok p

theorem ReadsAlike.imp {o o' : Prop} {form : Form} {v s : Value} (h : ReadsAlike o form v s)
    (ho : o → o') : ReadsAlike o' form v s := by
  have kept {v s : Value} (h : Kept o v s) : Kept o' v s :=
    h.imp_right fun hexternal => ⟨ho hexternal.1, hexternal.2⟩
  cases form with
  | model | reference | options | fields | cases | candidates => exact Follows.imp h ho
  | schema => exact ⟨h.1.imp ho, h.2.imp ho⟩
  | switch | bound | length | text => exact kept h
  | pattern => exact h.imp_left kept

section Options

variable {o : Prop} {given taken : Entries Value} {name : String} {α : Type}

/-- Two options that are both missing, or both there and alike. -/
theorem optionOf_follows {R : Value → Value → Prop} {read : Value → Except SchemaError α}
    (h : Option.Rel R (given.get? name) (taken.get? name))
    (each : ∀ v s, R v s → Follows o (read v) (read s)) :
    Follows o (optionOf given name read) (optionOf taken name read) := by
  unfold optionOf
  generalize given.get? name = x at h ⊢
  generalize taken.get? name = y at h ⊢
  cases h with
  | none => exact .refl _
  | some related => exact (each _ _ related).map some

/-- An option that has a default. -/
theorem elim_follows {R : Value → Value → Prop} {read : Value → Except SchemaError α}
    {x y : Option Value} (h : Option.Rel R x y) (each : ∀ v s, R v s → Follows o (read v) (read s))
    (default : Except SchemaError α) : Follows o (x.elim default read) (y.elim default read) := by
  cases h with
  | none => exact .refl _
  | some related => exact each _ _ related

theorem kept_follows {read : Value → Except SchemaError α}
    (h : Option.Rel (Kept o) (given.get? name) (taken.get? name))
    (rejects : ∀ handle w, ∃ e, read (.external handle w) = .error e) :
    Follows o (optionOf given name read) (optionOf taken name read) :=
  optionOf_follows h fun _ _ hkept => hkept.follows rejects

theorem boolOption_follows
    (h : Option.Rel (ReadsAlike o .switch) (given.get? name) (taken.get? name)) :
    Follows o (boolOption given name) (boolOption taken name) :=
  kept_follows h fun _ _ => ⟨_, rfl⟩

theorem stringOption_follows
    (h : Option.Rel (ReadsAlike o .text) (given.get? name) (taken.get? name)) :
    Follows o (stringOption given name) (stringOption taken name) :=
  kept_follows h fun _ _ => ⟨_, rfl⟩

theorem numberOption_follows
    (h : Option.Rel (ReadsAlike o .bound) (given.get? name) (taken.get? name)) :
    Follows o (numberOption given name) (numberOption taken name) :=
  kept_follows h fun _ _ => ⟨_, rfl⟩

theorem lengthOption_follows
    (h : Option.Rel (ReadsAlike o .length) (given.get? name) (taken.get? name)) :
    Follows o (lengthOption given name) (lengthOption taken name) :=
  kept_follows h fun _ _ => ⟨_, rfl⟩

theorem patternOption_follows
    (h : Option.Rel (ReadsAlike o .pattern) (given.get? name) (taken.get? name)) :
    Follows o (patternOption given name) (patternOption taken name) := by
  refine optionOf_follows h fun v s halike => ?_
  rcases halike with (rfl | ⟨ho, handle, w, rfl⟩) | ⟨literal, p, rfl, rfl, compiles⟩
  · exact .refl _
  · exact .inr ⟨ho, _, rfl⟩
  · refine .inl ?_
    dsimp only
    rw [compiles]
    rfl

theorem refIn_follows
    (h : Option.Rel (ReadsAlike o .reference) (given.get? name) (taken.get? name)) :
    Follows o (refIn name given) (refIn name taken) := by
  rw [refIn_eq, refIn_eq]
  exact optionOf_follows h fun _ _ halike => halike

theorem fieldsIn_follows
    (h : Option.Rel (ReadsAlike o .fields) (given.get? "fields") (taken.get? "fields")) :
    Follows o (fieldsIn given) (fieldsIn taken) := by
  have hread (entries : Entries Value) :
      fieldsIn entries = (entries.get? "fields").elim (.ok []) fieldsOfValue := by
    rw [fieldsIn_eq]
    cases entries.get? "fields" <;> rfl
  rw [hread, hread]
  exact elim_follows h (fun _ _ halike => halike) _

theorem enumOptionsIn_follows
    (h : Option.Rel (ReadsAlike o .cases) (given.get? "options") (taken.get? "options")) :
    Follows o (enumOptionsIn given) (enumOptionsIn taken) := by
  have hread (entries : Entries Value) :
      enumOptionsIn entries = (entries.get? "options").elim (.ok []) casesOfValue := by
    rw [enumOptionsIn_eq]
    cases entries.get? "options" with
    | none => rfl
    | some v => cases v <;> rfl
  rw [hread, hread]
  exact elim_follows h (fun _ _ halike => halike) _

theorem allowedIn_follows
    (h : Option.Rel (ReadsAlike o .candidates) (given.get? "allowed") (taken.get? "allowed")) :
    Follows o (allowedIn given) (allowedIn taken) := by
  have hread (entries : Entries Value) :
      allowedIn entries = (entries.get? "allowed").elim (.ok []) candidatesOfValue := by
    rw [allowedIn_eq]
    cases entries.get? "allowed" with
    | none => rfl
    | some v => cases v <;> rfl
  rw [hread, hread]
  exact elim_follows h (fun _ _ halike => halike) _

/-- Schemas are read alike when the options of their primitive are. -/
theorem schemaIn_follows {kind : PrimitiveKind}
    (h : ∀ name form, (optionForms kind).get? name = some form →
      Option.Rel (ReadsAlike o form) (given.get? name) (taken.get? name)) :
    Follows o (schemaIn kind [("meta", .map given)]) (schemaIn kind [("meta", .map taken)]) := by
  unfold schemaIn
  rw [if_pos rfl, if_pos rfl]
  dsimp only
  cases kind with
  | freeform | boolean | regex => exact .refl _
  | number =>
    refine Follows.map ?_ _
    refine (boolOption_follows (h "integer" .switch rfl)).bind fun integer => ?_
    refine (numberOption_follows (h "min" .bound rfl)).bind fun min => ?_
    exact (numberOption_follows (h "max" .bound rfl)).bind fun max => .refl _
  | string =>
    refine Follows.map ?_ _
    refine (lengthOption_follows (h "max_length" .length rfl)).bind fun maxLength => ?_
    refine (lengthOption_follows (h "min_length" .length rfl)).bind fun minLength => ?_
    refine (patternOption_follows (h "regex" .pattern rfl)).bind fun regex => ?_
    refine (boolOption_follows (h "root_index" .switch rfl)).bind fun rootKey => ?_
    exact (boolOption_follows (h "confidential" .switch rfl)).bind fun confidential => .refl _
  | index =>
    refine (refIn_follows (h "elements" .reference rfl)).bind fun elements => ?_
    exact (patternOption_follows (h "valid_keys" .pattern rfl)).bind fun validKeys => .refl _
  | list => exact (refIn_follows (h "elements" .reference rfl)).bind fun elements => .refl _
  | args => exact (fieldsIn_follows (h "fields" .fields rfl)).bind fun fields => .refl _
  | object => exact (fieldsIn_follows (h "fields" .fields rfl)).bind fun fields => .refl _
  | enum =>
    refine (enumOptionsIn_follows (h "options" .cases rfl)).bind fun cases => ?_
    refine (stringOption_follows (h "value_field" .text rfl)).bind fun valueField => ?_
    refine (stringOption_follows (h "meta_field" .text rfl)).bind fun metaField => ?_
    exact (boolOption_follows (h "strict" .switch rfl)).bind fun strict => .refl _
  | multi => exact (allowedIn_follows (h "allowed" .candidates rfl)).bind fun allowed => .refl _

end Options

/-! ## 4. Forms -/

section Forms

variable {spec v s : Value} {options : Options} {path : Path} {D : Reports} {form part : Form}
  {ws : List Diagnostic}

def AlikeBelow (v : Value) (form : Form) (D : Reports) : Prop :=
  ∀ b ∈ v.represented.branches form.meaning, (b.report D).isOk = true →
    (b.report D).warnings = [] → ∀ part : Form, b.ref = part.ref →
      ReadsAlike (Obstructed v form.ref) part b.value (b.report D).placeholder

/-- A list in the place of a mapping is an obstacle. -/
theorem obstructed_of_list {items : List Value} (mapping : form.isMapping = true) :
    Obstructed (.list items) form.ref :=
  ⟨_, _, .here _ _, .list items mapping rfl⟩

/-- The entries of a mapping that is taken in silence; a list without items has none. -/
theorem index_entries {node : Node} {ctx : Context} {elements : SchemaRef}
    {validKeys : Option Pattern} (h : node.Accepts ctx D (.index elements validKeys) s ws)
    (hws : ws = []) :
    node.value = .list [] ∨ ∃ given : Entries Value, node.value = .map given ∧
      s = .map (given.map fun e => (e.1, (D (.key e.1) e.2 elements).placeholder)) ∧
      ∀ e ∈ given, (D (.key e.1) e.2 elements).isOk = true ∧
        (D (.key e.1) e.2 elements).warnings = [] := by
  cases h with
  | @index _ _ entries value keys children =>
    obtain ⟨hlist, hbelow⟩ := List.append_eq_nil_iff.mp hws
    refine ((Node.listWarnings_eq_nil value).mp hlist).imp id fun hmap => ⟨entries, hmap, rfl, ?_⟩
    intro e he
    exact ⟨children _ (entry_mem_branches value he elements validKeys),
      List.flatMap_eq_nil_iff.mp hbelow e he⟩

/-- A reader of mappings that goes entry by entry reads an index like what became of it. -/
theorem index_alike (part : Form) {validKeys : Option Pattern} {α : Type}
    {read : Value → Except SchemaError α}
    (h : (nodeAt path v form.meaning).Accepts (context spec options) D form.meaning s ws)
    (hws : ws = []) (below : AlikeBelow v form D) (mapping : form.isMapping = true)
    (hmeaning : form.meaning = .index part.ref validKeys)
    (external : ∀ handle w, ∃ e, read (.external handle w) = .error e)
    (list : ∃ e, read (.list []) = .error e)
    (traverses : ∀ given taken : Entries Value,
      List.Forall₂ (Entry.Related (ReadsAlike (Obstructed v form.ref) part)) given taken →
        Follows (Obstructed v form.ref) (read (.map given)) (read (.map taken))) :
    Follows (Obstructed v form.ref) (read v) (read s) := by
  rcases represented_or_obstructed v form.ref with hv | ⟨handle, w, rfl, hobstructed⟩
  · unfold AlikeBelow at below
    rw [hmeaning] at h below
    rcases index_entries h hws with hlist | ⟨given, hmap, rfl, each⟩
    · obtain rfl : v = .list [] := hv.symm.trans hlist
      exact .inr ⟨obstructed_of_list mapping, list⟩
    · obtain rfl : v = .map given := hv.symm.trans hmap
      refine traverses _ _ (List.forall₂_map_right_iff.mpr (List.forall₂_same.mpr ?_))
      intro e he
      obtain ⟨hok, hwarnings⟩ := each e he
      exact .intro (below _ (entry_mem_branches rfl he _ _) hok hwarnings part rfl)
  · exact .inr ⟨hobstructed, external handle w⟩

/-- A model is taken over key by key, so that all its schemas read alike. -/
theorem model_alike
    (h : (nodeAt path v Form.model.meaning).Accepts (context spec options) D Form.model.meaning
      s ws) (hws : ws = []) (below : AlikeBelow v .model D) :
    ReadsAlike (Obstructed v Form.model.ref) .model v s := by
  refine index_alike .schema h hws below rfl rfl (fun _ _ => ⟨_, rfl⟩) ⟨_, rfl⟩
    fun given taken halike => ?_
  change Follows _ ((schemasOfEntries given).map _) ((schemasOfEntries taken).map _)
  rw [schemasOfEntries_eq, schemasOfEntries_eq]
  refine (Follows.mapM (halike.imp ?_)).map _
  rintro _ _ ⟨value⟩
  exact (value.1.mapError _).map _

/-- Declared fields are taken over key by key. -/
theorem fields_alike
    (h : (nodeAt path v Form.fields.meaning).Accepts (context spec options) D Form.fields.meaning
      s ws) (hws : ws = []) (below : AlikeBelow v .fields D) :
    ReadsAlike (Obstructed v Form.fields.ref) .fields v s := by
  refine index_alike .reference h hws below rfl rfl (fun _ _ => ⟨_, rfl⟩) ⟨_, rfl⟩
    fun given taken halike => ?_
  change Follows _ (fieldsOfEntries given) (fieldsOfEntries taken)
  rw [fieldsOfEntries_eq, fieldsOfEntries_eq]
  refine Follows.mapM (halike.imp ?_)
  rintro _ _ ⟨value⟩
  exact Follows.map value _

theorem cases_alike
    (h : (nodeAt path v Form.cases.meaning).Accepts (context spec options) D Form.cases.meaning
      s ws) (hws : ws = []) (below : AlikeBelow v .cases D) :
    ReadsAlike (Obstructed v Form.cases.ref) .cases v s := by
  refine index_alike .fields h hws below rfl rfl (fun _ _ => ⟨_, rfl⟩) ⟨_, rfl⟩
    fun given taken halike => ?_
  change Follows _ (enumOptionsOfEntries given) (enumOptionsOfEntries taken)
  rw [enumOptionsOfEntries_eq, enumOptionsOfEntries_eq]
  refine Follows.mapM (halike.imp ?_)
  rintro _ _ ⟨value⟩
  exact Follows.map value _

theorem candidates_alike
    (h : (nodeAt path v Form.candidates.meaning).Accepts (context spec options) D
      Form.candidates.meaning s ws) (hws : ws = []) (below : AlikeBelow v .candidates D) :
    ReadsAlike (Obstructed v Form.candidates.ref) .candidates v s := by
  rcases represented_or_obstructed v Form.candidates.ref with hv | ⟨handle, w, rfl, hobstructed⟩
  · cases h with
    | @list _ items value children =>
      obtain rfl : v = .list items := hv.symm.trans value
      change Follows _ (refsOfItems items) (refsOfItems _)
      rw [refsOfItems_eq, refsOfItems_eq]
      have hitems : List.Forall₂
          (fun a b => Follows (Obstructed (.list items) Form.candidates.ref) (SchemaRef.ofValue a)
            (SchemaRef.ofValue b))
          (items.zipIdx.map Prod.fst)
          (items.zipIdx.map fun c => (D (.index c.2) c.1 Form.reference.ref).placeholder) := by
        refine List.forall₂_map_left_iff.mpr
          (List.forall₂_map_right_iff.mpr (List.forall₂_same.mpr fun c hc => ?_))
        have hmem := item_mem_branches rfl hc Form.reference.ref
        exact below _ hmem (children _ hmem) (List.flatMap_eq_nil_iff.mp hws c hc) .reference rfl
      rw [List.zipIdx_map_fst] at hitems
      exact Follows.mapM hitems
  · exact .inr ⟨hobstructed, _, rfl⟩

/-- What the options of a primitive become, option by option. -/
theorem options_alike {kind : PrimitiveKind}
    (h : (nodeAt path v (Form.options kind).meaning).Accepts (context spec options) D
      (Form.options kind).meaning s ws) (hws : ws = []) (below : AlikeBelow v (.options kind) D) :
    ReadsAlike (Obstructed v (Form.options kind).ref) (.options kind) v s := by
  -- Options that are no mapping cannot be read, which is what a reader stumbles over.
  have hfails (w : Value) (hw : w ≠ .null) (hmap : ∀ entries, w ≠ .map entries) :
      ∃ e, schemaIn kind [("meta", w)] = .error e := by
    unfold schemaIn
    rw [if_pos rfl]
    cases w with
    | null => exact absurd rfl hw
    | map entries => exact absurd rfl (hmap entries)
    | _ => exact ⟨_, rfl⟩
  rcases represented_or_obstructed v (Form.options kind).ref with
    hv | ⟨handle, w, rfl, hobstructed⟩
  · cases h with
    | @args fields entries value children =>
      have hkeyed : v.keyed? = some entries := by
        rw [← hv]
        exact value
      cases v with
      | list items =>
        -- The walk takes a list for a mapping; that is the obstacle.
        exact .inr ⟨obstructed_of_list rfl, hfails _ nofun nofun⟩
      | map given =>
        obtain rfl := Option.some.inj hkeyed
        obtain ⟨declared, hbelow⟩ := (Node.entryWarnings_eq_nil value).mp hws
        refine schemaIn_follows fun name form hform => ?_
        have hfield : (Metamodel.optionFields kind).get? name = some form.ref := by
          rw [optionFields_get?, hform, Option.map_some]
        rw [Node.get?_keptFields hfield]
        cases hgiven : Entries.get? given name with
        | none => exact .none
        | some w =>
          have hmem := field_mem_branches value (Entries.mem_of_get? hgiven) hfield
          exact .some (below _ hmem (children _ hmem) (hbelow _ hmem) form rfl)
      | _ => cases hkeyed
  · exact .inr ⟨hobstructed, hfails _ nofun nofun⟩

/-- A mapping reads like the pair of its primitive and of what became of its `meta`. -/
theorem pair_alike {o : Prop} {kind : PrimitiveKind} {given : Entries Value} {payload : Value}
    (type : given.get? "type" = some (.string kind.name))
    (h : ReadsAlike o (.options kind) (payloadOf given "meta") payload) :
    ReadsAlike o .schema (.map given)
      (.map [("type", .string kind.name), ("meta", payload)]) := by
  have htaken : kindOfEntries [("type", .string kind.name), ("meta", payload)] = .ok kind :=
    kindOfEntries_eq rfl
  have hschema : Follows o (schemaIn kind given)
      (schemaIn kind [("type", .string kind.name), ("meta", payload)]) := by
    rw [schemaIn_eq kind given, schemaIn_eq kind [("type", .string kind.name), ("meta", payload)]]
    exact h
  constructor
  · rw [Schema.ofValue_map (kindOfEntries_eq type), Schema.ofValue_map htaken]
    exact hschema
  · rw [SchemaRef.ofValue_map (kindOfEntries_eq type), SchemaRef.ofValue_map htaken]
    exact hschema.map _

/-- A schema is taken over with its type and its options. -/
theorem schema_alike
    (h : (nodeAt path v Form.schema.meaning).Accepts (context spec options) D Form.schema.meaning
      s ws) (hws : ws = []) (below : AlikeBelow v .schema D) :
    ReadsAlike (Obstructed v Form.schema.ref) .schema v s := by
  rcases represented_or_obstructed v Form.schema.ref with hv | ⟨handle, w, rfl, hobstructed⟩
  · cases h with
    | @enum _ _ _ _ entries name fields value discriminant option distinct children =>
      obtain ⟨kind, rfl, rfl⟩ := selects_iff.mp option
      have hmem := payload_mem_branches value discriminant option "meta" false
      have hpayload := below _ hmem (children _ hmem) hws (.options kind) rfl
      have hkeyed : v.keyed? = some entries := by
        rw [← hv]
        exact value
      cases v with
      | list items =>
        obtain rfl := Option.some.inj hkeyed
        rw [get?_type_entriesOfList] at discriminant
        cases discriminant
      | map given =>
        obtain rfl := Option.some.inj hkeyed
        exact pair_alike discriminant hpayload
      | _ => cases hkeyed
  · exact ⟨.inr ⟨hobstructed, _, rfl⟩, .inr ⟨hobstructed, _, rfl⟩⟩

def StaysString (ref : SchemaRef) (v s : Value) : Prop :=
  ∀ rules, Metamodel.schemas.resolve? ref = some (.string rules) → v.represented = s

/-- A reference is taken over as the name or the schema that it is. -/
theorem reference_alike
    (h : (nodeAt path v Form.reference.meaning).Accepts (context spec options) D
      Form.reference.meaning s ws) (hws : ws = []) (below : AlikeBelow v .reference D)
    (strings : ∀ b ∈ v.represented.branches Form.reference.meaning, (b.report D).isOk = true →
      (b.report D).warnings = [] → StaysString b.ref b.value (b.report D).placeholder) :
    ReadsAlike (Obstructed v Form.reference.ref) .reference v s := by
  rcases represented_or_obstructed v Form.reference.ref with hv | ⟨handle, w, rfl, hobstructed⟩
  · cases h with
    | @multi _ c candidate accepted best =>
      have hmem := candidate_mem_branches candidate v.represented
      have hstring (hstays : ∃ rules, Metamodel.schemas.resolve? c.1 = some (.string rules)) :
          v = (D (candidateKey c.2) v.represented c.1).placeholder := by
        obtain ⟨rules, hrules⟩ := hstays
        have hstays : v.represented.represented = _ := strings _ hmem accepted hws rules hrules
        rw [hv, hv] at hstays
        rw [hv]
        exact hstays
      change Follows _ (SchemaRef.ofValue v)
        (SchemaRef.ofValue (D (candidateKey c.2) v.represented c.1).placeholder)
      have hcandidate := List.fst_mem_of_mem_zipIdx candidate
      simp only [List.mem_cons, List.not_mem_nil, or_false] at hcandidate
      rcases hcandidate with hschema | hname | hkey
      · have hread := (below _ hmem accepted hws .schema hschema).2
        dsimp only at hread
        rw [hv] at hread ⊢
        exact hread
      · rw [← hstring (by rw [hname]; exact ⟨_, rfl⟩)]
        exact .refl _
      · rw [← hstring (by rw [hkey]; exact ⟨_, rfl⟩)]
        exact .refl _
  · exact .inr ⟨hobstructed, _, rfl⟩

/-! ## 5. The whole specification -/

theorem kept_of_represented (h : v.represented = s) : Kept (Obstructed v form.ref) v s := by
  rcases represented_or_obstructed v form.ref with hv | ⟨handle, w, hv, hobstructed⟩
  · exact .inl (hv.symm.trans h)
  · exact .inr ⟨hobstructed, handle, w, hv⟩

section Silence

variable {node : Node} {ctx : Context}

theorem boolean_silent (h : node.Accepts ctx D .boolean s ws) (hws : ws = []) : node.value = s := by
  cases h with
  | boolean value => exact value
  | booleanName value => exact absurd hws (List.cons_ne_nil _ _)

/-- A number that is accepted in silence stays as it is. -/
theorem number_silent {rules : NumberRules} (h : node.Accepts ctx D (.number rules) s ws)
    (hws : ws = []) : node.value = s := by
  cases h with
  | number value meets =>
    exact eq_number_of_coerceNumber? value (Node.coercionIf_eq_nil.mp hws)

/-- A string that is accepted in silence stays as it is, unless it is hidden. -/
theorem string_silent {rules : StringRules} (hide : ctx.options.hidesConfidential = false)
    (h : node.Accepts ctx D (.string rules) s ws) (hws : ws = []) : node.value = s := by
  cases h with
  | string value meets =>
    obtain rfl := Node.coercionIf_eq_nil.mp hws
    rw [StringRules.shown_of_not_hides hide]
    exact eq_string_of_coerceString? value

end Silence

/-- Each form is read alike where what is below it is. -/
theorem form_alike
    (h : (nodeAt path v form.meaning).Accepts (context spec options) D form.meaning s ws)
    (hws : ws = []) (below : AlikeBelow v form D)
    (strings : ∀ b ∈ v.represented.branches form.meaning, (b.report D).isOk = true →
      (b.report D).warnings = [] → StaysString b.ref b.value (b.report D).placeholder) :
    ReadsAlike (Obstructed v form.ref) form v s := by
  cases form with
  | model => exact model_alike h hws below
  | schema => exact schema_alike h hws below
  | reference => exact reference_alike h hws below strings
  | options kind => exact options_alike h hws below
  | fields => exact fields_alike h hws below
  | cases => exact cases_alike h hws below
  | candidates => exact candidates_alike h hws below
  | switch => exact kept_of_represented (boolean_silent h hws)
  | bound => exact kept_of_represented (number_silent h hws)
  | length => exact kept_of_represented (number_silent h hws)
  | text => exact kept_of_represented (string_silent rfl h hws)
  | pattern =>
    cases h with
    | regex value => exact .inl (kept_of_represented value)
    | @regexLiteral literal p value compiles =>
      rcases represented_or_obstructed v Form.pattern.ref with hv | ⟨handle, w, hv, hobstructed⟩
      · exact .inr ⟨literal, p, hv.symm.trans value, rfl, compiles⟩
      · exact .inl (.inr ⟨hobstructed, handle, w, hv⟩)

/-- What the metamodel accepts in silence is read like what became of it. -/
theorem walk_alike (form : Form) {levels : Nat} {r : Report}
    (h : walk (context spec options) levels path v form.ref = .ok r) (hok : r.isOk = true)
    (hwarnings : r.warnings = []) : ReadsAlike (Obstructed v form.ref) form v r.placeholder := by
  have hwalk := acceptance_induction
    (P := fun _ _ v ref s ws => ws = [] →
      (∀ form : Form, ref = form.ref → ReadsAlike (Obstructed v form.ref) form v s) ∧
        StaysString ref v s)
    ?_ levels path v form.ref r h hok
  · exact (hwalk hwarnings).1 form rfl
  intro levels path v ref schema D s ws hschema haccepts _ ih hws
  constructor
  · rintro form rfl
    cases Option.some.inj (hschema.symm.trans form.resolve?_ref)
    refine form_alike haccepts hws (fun b hb hb' hw part hpart => ?_) fun b hb hb' hw => ?_
    · have halike := (ih b hb hb' hw).1 part hpart
      rw [← hpart] at halike
      exact halike.imp fun hobstructed => hobstructed.child hb
    · exact (ih b hb hb' hw).2
  · intro rules hrules
    cases Option.some.inj (hschema.symm.trans hrules)
    exact string_silent rfl haccepts hws

end Forms

/-! ## 6. Faithful models -/

/-- Where a specification should have a mapping, it has no list. -/
def ListFree (spec : Value) : Prop :=
  ∀ (form : Form) (items : List Value), form.isMapping = true →
    ¬Metamodel.schemas.Visits spec (.named "model") (.list items) form.ref

/-- What is visited of a value without external values occurs in it, or is the `meta` that is not
there. -/
theorem visits_within {v w : Value} {ref target : SchemaRef} (hv : v.Native)
    (h : Metamodel.schemas.Visits v ref w target) : w.Within v ∨ w = .map [] := by
  induction h with
  | here v ref => exact .inl (.self v)
  | child resolved mem _ ih =>
    rw [hv.represented] at mem
    rcases ih (hv.branch mem) with hwithin | hempty
    · rcases Value.branch_within mem with hchild | hchild
      · exact .inl (hwithin.trans hchild)
      · rw [hchild] at hwithin
        cases hwithin with
        | self => exact .inr rfl
        | entry mem _ => exact absurd mem List.not_mem_nil
    · exact .inr hempty

/-- A specification that holds no list at all holds none for a mapping. -/
theorem listFree_of_within {spec : Value} (hnative : spec.Native)
    (h : ∀ items, ¬(Value.list items).Within spec) : ListFree spec := by
  intro form items _ hvisits
  rcases visits_within hnative hvisits with hwithin | hempty
  · exact h items hwithin
  · cases hempty

/-- Without external values and lists for mappings nothing is in the way of a reader. -/
theorem not_obstructed {spec : Value} (hnative : spec.Native) (hlists : ListFree spec) :
    ¬Obstructed spec Form.model.ref := by
  rintro ⟨w, target, hvisits, hobstacle⟩
  cases hobstacle with
  | external handle w =>
    rcases visits_within hnative hvisits with hwithin | hempty
    · exact hnative handle w hwithin
    · cases hempty
  | list items mapping place =>
    rw [place] at hvisits
    exact hlists _ items mapping hvisits

/-- The schemas of a model are those that its specification is read as, if it can be read; and it
can be, unless it has external values or lists where mappings should be. -/
theorem build_faithful (spec : Value) (options : Options) (m : Model)
    (h : build spec options = .ok m) :
    (∀ set, SchemaSet.ofValue spec = .ok set → set = m.schemas) ∧
      (spec.Native → ListFree spec → SchemaSet.ofValue spec = .ok m.schemas) := by
  obtain ⟨r, hr, hok, hwarnings, hset⟩ := build_inv h
  have hwalk : walk (context spec options) ((context spec options).options.depthLimit + 1) [] spec
    Form.model.ref = .ok r := hr
  have halike : Follows (Obstructed spec Form.model.ref) (SchemaSet.ofValue spec)
      (SchemaSet.ofValue r.placeholder) := walk_alike .model hwalk hok hwarnings
  rw [hset] at halike
  constructor
  · intro set hread
    rw [hread] at halike
    exact halike.eq_of_ok
  · exact fun hnative hlists => halike.eq_of_not (not_obstructed hnative hlists)

def shapeSpec : Value :=
  .map
    [("code", .map
        [("type", .string "string"), ("meta", .map [("regex", .string "/^[a-z]$/i")])]),
      ("shape", .map [("type", .string "enum"), ("meta", .map [("options", .map
        [("round", .map [("radius", .string "number")]),
          ("other", .map
            [("code", .string "code"), ("note", .map [("type", .string "freeform")])])])])])]

theorem build_faithful_shapeSpec :
    ∃ m, build shapeSpec {} = .ok m ∧ m.schemas.names = ["code", "shape"] ∧ shapeSpec.Native ∧
      ListFree shapeSpec ∧ SchemaSet.ofValue shapeSpec = .ok m.schemas := by
  have hnative : shapeSpec.Native := by
    simp only [shapeSpec, Value.native_map, List.forall_mem_cons, List.not_mem_nil, false_implies,
      implies_true, and_true, Value.native_string]
  have hlists : ListFree shapeSpec := by
    refine listFree_of_within hnative fun items h => ?_
    have hmap (entries : Entries Value) : (Value.list items).Within (.map entries) ↔
        ∃ e ∈ entries, (Value.list items).Within e.2 := by
      constructor
      · intro hwithin
        cases hwithin with
        | entry mem within => exact ⟨_, mem, within⟩
      · rintro ⟨e, he, hwithin⟩
        exact .entry he hwithin
    have hstring (text : String) : ¬(Value.list items).Within (.string text) := by
      intro hwithin
      cases hwithin
    simp only [shapeSpec, hmap, hstring, List.mem_cons, List.not_mem_nil, or_false,
      exists_eq_or_imp, exists_eq_left, or_self] at h
  have hbuild : ((build shapeSpec {}).toOption.map fun m => m.schemas.names) =
      some ["code", "shape"] := by
    decide +kernel
  obtain ⟨m, hm, hnames⟩ := ok_of_toOption_map hbuild
  exact ⟨m, hm, hnames, hnative, hlists, (build_faithful shapeSpec {} m hm).2 hnative hlists⟩

end Model
end Conform
