import Conform.Proofs.Equality

/-!
# Reordering — validations of equal values

The order of its keys decides in which order a mapping is walked through, and nothing else.  Two
equal values have reports with the same diagnostics in some order, so a choice has the same winner
for both, and what is accepted of them is equal again (`validate_same`).
-/

namespace Conform

/-! ## 1. Reports that match -/

/-- Two findings in the same words, but for the order of keys in the text of a mapping. -/
inductive Finding.Matches : Finding → Finding → Prop
  | same (finding : Finding) : Matches finding finding
  | notAllowed {d d' : Document} (reordered : d.Reordered d') :
    Matches (.notAllowed (Json.write d)) (.notAllowed (Json.write d'))

structure Diagnostic.Matches (d d' : Diagnostic) : Prop where
  path : d'.path = d.path
  finding : d.finding.Matches d'.finding

structure Report.Matches (r r' : Report) : Prop where
  sanitized : Option.Rel Value.Same r.sanitized r'.sanitized
  errors : InSomeOrder Diagnostic.Matches r.errors r'.errors
  warnings : InSomeOrder Diagnostic.Matches r.warnings r'.warnings

structure Node.Matches (node node' : Node) : Prop where
  path : node'.path = node.path
  value : node.value.Same node'.value

theorem Value.Same.notAllowed {v w : Value} (h : v.Same w) :
    (Finding.notAllowed v.toText).Matches (.notAllowed w.toText) := by
  have htext : v.toDocument.Reordered w.toDocument := h.toDocument
  cases h with
  | number equal =>
    unfold Value.toText
    dsimp only
    rw [Number.format_of_eqv equal]
    exact .same _
  | list each => exact .notAllowed htext
  | map distinct each => exact .notAllowed htext
  | _ => exact .same _

namespace Report.Matches

variable {r r' : Report}

theorem isOk (h : r.Matches r') : r'.isOk = r.isOk := by
  have hlength : r'.errors.length = r.errors.length := h.errors.length_eq
  unfold Report.isOk
  rw [Bool.eq_iff_iff, List.isEmpty_iff_length_eq_zero, List.isEmpty_iff_length_eq_zero, hlength]

theorem close (h : r.Matches r') : r.close.Matches r'.close := by
  unfold Report.close
  rw [h.isOk]
  split
  · exact h
  · exact ⟨.none, h.errors, h.warnings⟩

theorem placeholder (h : r.Matches r') : r.placeholder.Same r'.placeholder := by
  have hsanitized := h.sanitized
  unfold Report.placeholder
  generalize r.sanitized = s at hsanitized ⊢
  generalize r'.sanitized = s' at hsanitized ⊢
  cases hsanitized with
  | none => exact .null
  | some same => exact same

theorem eqv (h : r.Matches r') :
    Option.Rel (fun s s' => s.eqv s' = true) r.sanitized r'.sanitized := by
  have hsanitized := h.sanitized
  generalize r.sanitized = s at hsanitized ⊢
  generalize r'.sanitized = s' at hsanitized ⊢
  cases hsanitized with
  | none => exact .none
  | some same => exact .some same.eqv

end Report.Matches

namespace Node.Matches

variable {node node' : Node} {s s' : Value} {f f' : Finding} {r r' : Report}

/-- Findings that match are diagnosed alike at nodes that match. -/
theorem diagnose (h : node.Matches node') (hf : f.Matches f') :
    (node.diagnose f).Matches (node'.diagnose f') := ⟨h.path, hf⟩

/-- One finding at the two nodes. -/
theorem single (h : node.Matches node') (f : Finding) :
    InSomeOrder Diagnostic.Matches [node.diagnose f] [node'.diagnose f] :=
  .of_forall₂ (.cons (h.diagnose (.same f)) .nil)

theorem accept (hs : s.Same s') : (node.accept s).Matches (node'.accept s') :=
  ⟨.some hs, .zero, .zero⟩

theorem reject (h : node.Matches node') (hf : f.Matches f') :
    (node.reject f).Matches (node'.reject f') :=
  ⟨.none, .of_forall₂ (.cons (h.diagnose hf) .nil), .zero⟩

theorem coerce (h : node.Matches node') (hs : s.Same s') :
    (node.coerce s).Matches (node'.coerce s') :=
  ⟨.some hs, .zero, h.single .typeCoercion⟩

theorem check (h : node.Matches node') (conditions : List (Bool × Finding)) (hr : r.Matches r') :
    (node.check conditions r).Matches (node'.check conditions r') := by
  refine ⟨hr.sanitized, hr.errors.append (.of_forall₂ ?_), hr.warnings⟩
  refine List.forall₂_map_left_iff.mpr (List.forall₂_map_right_iff.mpr ?_)
  exact List.forall₂_same.mpr fun f _ => h.diagnose (.same f)

/-! ## 2. Leaves -/

theorem boolean (h : node.Matches node') : node.boolean.Matches node'.boolean := by
  have hvalue := h.value
  unfold Node.boolean
  generalize node.value = v at hvalue ⊢
  generalize node'.value = v' at hvalue ⊢
  cases hvalue with
  | bool b => exact accept (.bool b)
  | string s =>
    split
    · exact accept (.bool _)
    · exact h.coerce (.bool true)
    · exact h.coerce (.bool false)
    · exact h.reject (.same _)
  | _ => exact h.reject (.same _)

theorem regex (h : node.Matches node') (options : Options) :
    (node.regex options).Matches (node'.regex options) := by
  have hpattern (p : Pattern) : (renderPattern options p).Same (renderPattern options p) := by
    unfold renderPattern
    split
    · exact .string _
    · exact .regex p
  have hvalue := h.value
  unfold Node.regex
  generalize node.value = v at hvalue ⊢
  generalize node'.value = v' at hvalue ⊢
  cases hvalue with
  | regex p => exact accept (hpattern p)
  | string literal =>
    dsimp only
    split
    · exact accept (hpattern _)
    · exact h.reject (.same _)
  | _ => exact h.reject (.same _)

theorem number (h : node.Matches node') (rules : NumberRules) :
    (node.number rules).Matches (node'.number rules) := by
  have hwarnings : InSomeOrder Diagnostic.Matches
      (if node.value.number?.isSome then [] else [node.diagnose .typeCoercion])
      (if node'.value.number?.isSome then [] else [node'.diagnose .typeCoercion]) := by
    rw [h.value.number?_isSome]
    split
    · exact .zero
    · exact h.single .typeCoercion
  have hnumber := h.value.coerceNumber?
  unfold Node.number
  generalize coerceNumber? node.value = found at hnumber ⊢
  generalize coerceNumber? node'.value = found' at hnumber ⊢
  cases hnumber with
  | none => exact ⟨.none, h.single .unableToCoerce, hwarnings⟩
  | some equal =>
    dsimp only
    simp only [Number.isIntegral_of_eqv equal, Number.lt_left_of_eqv equal,
      Number.lt_right_of_eqv equal]
    exact h.check _ ⟨.some (.number equal), .zero, hwarnings⟩

/-- Strings are judged alike in roots that are the same. -/
theorem string (h : node.Matches node') {ctx ctx' : Context} (hroot : ctx.root.Same ctx'.root)
    (hoptions : ctx'.options = ctx.options) (rules : StringRules) :
    (node.string ctx rules).Matches (node'.string ctx' rules) := by
  unfold Node.string
  rw [h.value.coerceString?, hoptions]
  cases coerceString? node.value with
  | none => exact h.reject (.same _)
  | some found =>
    dsimp only
    rw [hroot.hasKey]
    apply h.check
    split
    · exact h.coerce (.string _)
    · exact accept (.string _)

end Node.Matches

/-! ## 3. Children -/

structure Branch.Matches (b b' : Branch) : Prop where
  step : b'.step = b.step
  ref : b'.ref = b.ref
  value : b.value.Same b'.value

section Children

variable {v w : Value} {entries entries' : Entries Value}

/-- The payload does not depend on the order of the entries. -/
theorem payloadOf_same (h : Value.EntriesSame entries entries') (metaField : String) :
    (payloadOf entries metaField).Same (payloadOf entries' metaField) := by
  have hget := h.each.get? h.distinct metaField
  unfold payloadOf
  generalize entries.get? metaField = found at hget ⊢
  generalize entries'.get? metaField = found' at hget ⊢
  cases hget with
  | none => exact .map List.nodup_nil .zero
  | some same => exact same

/-- The same option is selected. -/
theorem selection?_same (h : v.Same w) (options : Entries Fields) :
    selection? options w = selection? options v := by
  unfold selection?
  rw [h.string?]

theorem bind_selection?_same (h : Value.EntriesSame entries entries') (valueField : String)
    (options : Entries Fields) :
    (entries'.get? valueField).bind (selection? options) =
      (entries.get? valueField).bind (selection? options) := by
  have hget := h.each.get? h.distinct valueField
  generalize entries.get? valueField = found at hget ⊢
  generalize entries'.get? valueField = found' at hget ⊢
  cases hget with
  | none => rfl
  | some same => exact selection?_same same options

theorem branches_args_same (h : v.Same w) (fields : Fields) :
    InSomeOrder Branch.Matches (v.branches (.args fields)) (w.branches (.args fields)) := by
  have hkeyed := h.keyed?
  unfold Value.branches
  generalize v.keyed? = given at hkeyed ⊢
  generalize w.keyed? = given' at hkeyed ⊢
  cases hkeyed with
  | none => exact .zero
  | some hentries =>
    refine hentries.each.filterMap fun e e' he => ?_
    obtain ⟨value⟩ := he
    dsimp only
    cases fields.get? _ with
    | none => exact .none
    | some ref => exact .some ⟨rfl, rfl, value⟩

/-- Equal values have the same children in some order. -/
theorem branches_same (h : v.Same w) (schema : Schema) :
    InSomeOrder Branch.Matches (v.branches schema) (w.branches schema) := by
  -- The items of a list keep their order, the entries of a mapping need not.
  cases schema with
  | freeform | boolean | regex | number | string => exact .zero
  | args fields => exact branches_args_same h fields
  | object fields => exact branches_args_same h fields
  | list elements =>
    unfold Value.branches
    cases h with
    | list each =>
      refine .of_forall₂ (List.rel_map (fun c c' hc => ?_) (forall₂_zipIdx each 0))
      exact ⟨congrArg PathSegment.index hc.1, rfl, hc.2⟩
    | _ => exact .zero
  | index elements validKeys =>
    have hkeyed := h.keyed?
    unfold Value.branches
    generalize v.keyed? = given at hkeyed ⊢
    generalize w.keyed? = given' at hkeyed ⊢
    cases hkeyed with
    | none => exact .zero
    | some hentries =>
      refine hentries.each.map fun e e' he => ?_
      obtain ⟨value⟩ := he
      exact ⟨rfl, rfl, value⟩
  | enum valueField metaField strict options =>
    have hkeyed := h.keyed?
    unfold Value.branches
    generalize v.keyed? = given at hkeyed ⊢
    generalize w.keyed? = given' at hkeyed ⊢
    cases hkeyed with
    | none => exact .zero
    | some hentries =>
      dsimp only
      rw [bind_selection?_same hentries]
      split
      · exact .zero
      · exact .of_forall₂ (.cons ⟨rfl, rfl, payloadOf_same hentries metaField⟩ .nil)
  | multi allowed =>
    refine .of_forall₂ (List.rel_map (fun c c' hc => ?_) (List.forall₂_same.mpr fun c _ => rfl))
    obtain rfl : c = c' := hc
    exact ⟨rfl, rfl, h⟩

end Children

/-! ## 4. Containers and choices -/

theorem keptFields_nodup {D : Reports} {fields : Fields} {entries : Entries Value}
    (distinct : entries.keys.Nodup) : (Node.keptFields D fields entries).keys.Nodup := by
  have hkeys : (Node.keptFields D fields entries).keys =
      entries.keys.filterMap fun key => (fields.get? key).map fun _ => key := by
    unfold Node.keptFields Entries.keys
    rw [List.map_filterMap, List.filterMap_map]
    congr 1
    funext e
    dsimp only [Function.comp]
    cases fields.get? e.1 <;> rfl
  rw [hkeys]
  refine distinct.filterMap fun key key' found hkey hkey' => ?_
  obtain ⟨-, -, rfl⟩ := Option.map_eq_some_iff.1 hkey
  obtain ⟨-, -, rfl⟩ := Option.map_eq_some_iff.1 hkey'
  rfl

/-- The cheapest of two lists of the same costs are found at one position. -/
theorem minOn?_of_forall₂ {α β : Type} {R : α → β → Prop} {xs : List α} {ys : List β}
    {f : α → Nat} {g : β → Nat} (h : List.Forall₂ R xs ys) (cost : ∀ x y, R x y → g y = f x) :
    Option.Rel R (xs.minOn? f) (ys.minOn? g) := by
  cases h with
  | nil => exact .none
  | cons first rest =>
    refine .some (List.rel_foldl (fun x y hxy x' y' hxy' => ?_) first rest)
    unfold minOn
    rw [cost x y hxy, cost x' y' hxy']
    split
    · exact hxy
    · exact hxy'

/-- Candidates that match have winners that match. -/
theorem winner?_matches {candidates candidates' : List Report}
    (each : List.Forall₂ Report.Matches candidates candidates') :
    Option.Rel Report.Matches (Report.winner? candidates) (Report.winner? candidates') := by
  unfold Report.winner?
  refine minOn?_of_forall₂ (List.rel_filter (fun r r' hr => ?_) each) fun r r' hr => ?_
  · show r.isOk = true ↔ r'.isOk = true
    rw [hr.isOk]
  · exact hr.warnings.length_eq

/-- What an enum is put together from, also where its two fields have one name. -/
theorem pair_same {valueField metaField name : String} {s s' : Value} (hs : s.Same s') :
    (Value.map (Entries.ofList [(valueField, .string name), (metaField, s)])).Same
      (.map (Entries.ofList [(valueField, .string name), (metaField, s')])) := by
  refine .map (Entries.ofList_distinct _).1 (InSomeOrder.of_forall₂ ?_)
  -- Under one name the payload takes the place of the discriminant.
  by_cases hfields : valueField = metaField
  · subst hfields
    simp only [Entries.ofList, List.foldl_cons, List.foldl_nil, Entries.insert, if_true]
    exact .cons ⟨hs⟩ .nil
  · rw [Entries.ofList_pair hfields, Entries.ofList_pair hfields]
    exact .cons ⟨.string name⟩ (.cons ⟨hs⟩ .nil)

namespace Node.Matches

variable {node node' : Node} {ctx ctx' : Context} {D D' : Reports}

/-- A list with items is taken for a mapping, and so is one that is equal. -/
theorem listWarnings (h : node.Matches node') :
    InSomeOrder Diagnostic.Matches node.listWarnings node'.listWarnings := by
  have hvalue := h.value
  unfold Node.listWarnings
  generalize node.value = v at hvalue ⊢
  generalize node'.value = v' at hvalue ⊢
  cases hvalue with
  | list each =>
    cases each with
    | nil => exact .zero
    | cons first rest => exact h.single .typeCoercion
  | _ => exact .zero

/-- The same fields are missing, whatever the order of the entries. -/
theorem missingFields (h : node.Matches node') (fields : Fields) {entries entries' : Entries Value}
    (hentries : Value.EntriesSame entries entries') :
    InSomeOrder Diagnostic.Matches (node.missingFields fields entries)
      (node'.missingFields fields entries') := by
  unfold Node.missingFields
  simp only [hentries.each.contains]
  refine .of_forall₂ (List.forall₂_map_left_iff.mpr (List.forall₂_map_right_iff.mpr ?_))
  exact List.forall₂_same.mpr fun key _ => h.diagnose (.same _)

/-- Of matching candidates the same one wins: it has no errors, and the fewest warnings. -/
theorem choice (h : node.Matches node') {candidates candidates' : List Report}
    (each : List.Forall₂ Report.Matches candidates candidates') :
    (node.choice candidates).Matches (node'.choice candidates') := by
  have hwinner := winner?_matches each
  unfold Node.choice
  rw [Report.best?_filter_isOk, Report.best?_filter_isOk]
  generalize Report.winner? candidates = winner at hwinner ⊢
  generalize Report.winner? candidates' = winner' at hwinner ⊢
  cases hwinner with
  | some hmatches => exact hmatches
  | none =>
    -- All candidates are heard, in the order of the schema and each in the order of its value.
    have hordered := InSomeOrder.of_forall₂ each
    exact ⟨.none, .cons (h.diagnose (.same _)) (hordered.flatMap fun _ _ hr => hr.errors),
      hordered.flatMap fun _ _ hr => hr.warnings⟩

section Containers

variable (below : ∀ step v w ref, Value.Same v w → (D step v ref).Matches (D' step w ref))
include below

theorem list (h : node.Matches node') (elements : SchemaRef) :
    (node.report ctx D (.list elements)).Matches (node'.report ctx' D' (.list elements)) := by
  have hvalue := h.value
  generalize hv : node.value = v at hvalue
  generalize hv' : node'.value = v' at hvalue
  cases hvalue with
  | @list items items' each =>
    have hchildren : List.Forall₂
        (fun c c' => (D (.index c.2) c.1 elements).Matches (D' (.index c'.2) c'.1 elements))
        items.zipIdx items'.zipIdx := by
      refine (forall₂_zipIdx each 0).imp fun c c' hc => ?_
      rw [hc.1]
      exact below _ _ _ _ hc.2
    have hordered := InSomeOrder.of_forall₂ hchildren
    rw [report_list hv, report_list hv']
    constructor
    · exact .some (.list (List.rel_map (fun _ _ hc => hc.placeholder) hchildren))
    · exact hordered.flatMap fun _ _ hc => hc.errors
    · exact hordered.flatMap fun _ _ hc => hc.warnings
  | _ =>
    unfold report
    rw [hv, hv']
    exact h.reject (.same _)

theorem index (h : node.Matches node') (elements : SchemaRef) (validKeys : Option Pattern) :
    (node.report ctx D (.index elements validKeys)).Matches
      (node'.report ctx' D' (.index elements validKeys)) := by
  have hkeyed := h.value.keyed?
  generalize hv : node.value.keyed? = given at hkeyed
  generalize hv' : node'.value.keyed? = given' at hkeyed
  cases hkeyed with
  | none =>
    unfold report
    rw [hv, hv']
    exact h.reject (.same _)
  | some hentries =>
    rw [report_index hv, report_index hv']
    constructor
    · refine .some (.map ?_ (hentries.each.map fun e e' he => ?_))
      · rw [Entries.keys_map]
        exact hentries.distinct
      · obtain ⟨value⟩ := he
        exact ⟨(below _ _ _ _ value).placeholder⟩
    · refine hentries.each.flatMap fun e e' he => ?_
      obtain @⟨key, _, _, value⟩ := he
      have hchild := below (.key key) _ _ elements value
      unfold entryErrors
      split
      · exact .cons (h.diagnose (.same _)) hchild.errors
      · exact hchild.errors
    · refine h.listWarnings.append (hentries.each.flatMap fun e e' he => ?_)
      obtain ⟨value⟩ := he
      exact (below _ _ _ elements value).warnings

/-- Declared fields are reported alike in whatever order they are given. -/
theorem fieldsReport (h : node.Matches node') (required : Bool) (fields : Fields) :
    (node.fieldsReport D required fields).Matches (node'.fieldsReport D' required fields) := by
  have hkeyed := h.value.keyed?
  generalize hv : node.value.keyed? = given at hkeyed
  generalize hv' : node'.value.keyed? = given' at hkeyed
  cases hkeyed with
  | none =>
    unfold Node.fieldsReport
    rw [hv, hv']
    exact h.reject (.same _)
  | some hentries =>
    rw [fieldsReport_eq hv, fieldsReport_eq hv']
    constructor
    · refine .some (.map (keptFields_nodup hentries.distinct) ?_)
      refine hentries.each.filterMap fun e e' he => ?_
      obtain ⟨value⟩ := he
      dsimp only
      cases fields.get? _ with
      | none => exact .none
      | some ref => exact .some ⟨(below _ _ _ ref value).placeholder⟩
    · -- Errors come with the entries, the missing fields in the order of declaration.
      refine .append ?_ ?_
      · refine (branches_args_same h.value fields).flatMap fun b b' hb => ?_
        unfold Branch.report
        rw [hb.step, hb.ref]
        exact (below _ _ _ _ hb.value).errors
      · split
        · exact h.missingFields fields hentries
        · exact .zero
    · refine hentries.each.flatMap fun e e' he => ?_
      obtain ⟨value⟩ := he
      dsimp only
      cases fields.get? _ with
      | none => exact h.single _
      | some ref => exact (below _ _ _ ref value).warnings

theorem enum (h : node.Matches node') (valueField metaField : String) (strict : Bool)
    (options : Entries Fields) :
    (node.report ctx D (.enum valueField metaField strict options)).Matches
      (node'.report ctx' D' (.enum valueField metaField strict options)) := by
  have hkeyed := h.value.keyed?
  unfold report
  generalize node.value.keyed? = given at hkeyed ⊢
  generalize node'.value.keyed? = given' at hkeyed ⊢
  cases hkeyed with
  | none => exact h.reject (.same _)
  | @some entries entries' hentries =>
    have hget := hentries.each.get? hentries.distinct valueField
    dsimp only
    generalize entries.get? valueField = found at hget ⊢
    generalize entries'.get? valueField = found' at hget ⊢
    cases hget with
    | none => exact h.reject (.same _)
    | some same =>
      dsimp only
      rw [selection?_same same]
      cases selection? options _ with
      | none => exact h.reject same.notAllowed
      | some option =>
        have hchild := below (.key metaField) _ _ (payloadRef strict option.2)
          (payloadOf_same hentries metaField)
        exact ⟨.some (pair_same hchild.placeholder), hchild.errors, hchild.warnings⟩

/-- What a node makes of matching reports of its children matches. -/
theorem report (h : node.Matches node') (hroot : ctx.root.Same ctx'.root)
    (hoptions : ctx'.options = ctx.options) (schema : Schema) :
    (node.report ctx D schema).Matches (node'.report ctx' D' schema) := by
  cases schema with
  | freeform => exact @accept node node' _ _ h.value
  | boolean => exact h.boolean
  | regex =>
    unfold Node.report
    rw [hoptions]
    exact h.regex ctx.options
  | number rules => exact h.number rules
  | string rules => exact h.string hroot hoptions rules
  | list elements => exact list below h elements
  | index elements validKeys => exact index below h elements validKeys
  | args fields => exact fieldsReport below h false fields
  | object fields => exact fieldsReport below h true fields
  | enum valueField metaField strict options =>
    exact enum below h valueField metaField strict options
  | multi allowed =>
    refine h.choice (List.rel_map (fun c c' hc => ?_) (List.forall₂_same.mpr fun c _ => rfl))
    obtain rfl : c = c' := hc
    exact below _ _ _ _ h.value

end Containers

end Node.Matches

/-! ## 5. Walks over equal values -/

/-- Two walks that both fail, or both complete with reports that match. -/
inductive WalksMatch : Except DepthExceeded Report → Except DepthExceeded Report → Prop
  | aborted (cause cause' : DepthExceeded) : WalksMatch (.error cause) (.error cause')
  | completed {r r' : Report} (reports : r.Matches r') : WalksMatch (.ok r) (.ok r')

section Walks

variable {ctx ctx' : Context} {levels : Nat} {path : Path} {v w : Value} {ref : SchemaRef}
  {schema : Schema} {r : Report} {descend descend' : Descent}

/-- Walks that match complete together. -/
theorem WalksMatch.completes {x x' : Except DepthExceeded Report} (h : WalksMatch x x') :
    (∃ r, x = .ok r) ↔ ∃ r, x' = .ok r := by
  cases h with
  | aborted cause cause' =>
    exact iff_of_false (fun ⟨_, h⟩ => nomatch h) (fun ⟨_, h⟩ => nomatch h)
  | completed reports => exact iff_of_true ⟨_, rfl⟩ ⟨_, rfl⟩

/-- The reports below two nodes match where the walks do: what fails has the empty report. -/
theorem WalksMatch.reportsOf {step : PathSegment}
    (h : WalksMatch (descend step v ref) (descend' step w ref)) :
    (reportsOf descend step v ref).Matches (reportsOf descend' step w ref) := by
  unfold Conform.reportsOf
  generalize descend step v ref = x at h ⊢
  generalize descend' step w ref = x' at h ⊢
  cases h with
  | aborted cause cause' => exact ⟨.none, .zero, .zero⟩
  | completed reports => exact reports

/-- A completed walk is the closed report of its node. -/
theorem walk_eq_report (h : walk ctx (levels + 1) path v ref = .ok r)
    (hschema : ctx.schemas.resolve? ref = some schema) :
    r = ((nodeAt path v schema).report ctx (reportsOf (below ctx levels path)) schema).close := by
  rw [walk_of_resolved hschema] at h
  cases hm : (v.represented.branches schema).mapM (follow (below ctx levels path)) with
  | error cause =>
    rw [hm] at h
    cases h
  | ok rs =>
    rw [hm] at h
    exact (Except.ok.inj h).symm

/-- Two walks over equal values match, if the two roots are equal. -/
theorem walk_same (hroot : ctx.root.Same ctx'.root) (hschemas : ctx'.schemas = ctx.schemas)
    (hoptions : ctx'.options = ctx.options) (levels : Nat) :
    ∀ path v w ref, Value.Same v w →
      WalksMatch (walk ctx levels path v ref) (walk ctx' levels path w ref) := by
  induction levels with
  | zero => exact fun path v w ref _ => .aborted _ _
  | succ levels ih =>
    -- The children that are too deep may differ, as the first one in order is reported: that there
    -- are some is all that is compared.
    intro path v w ref hsame
    have hnode (schema : SchemaRef) :
        Node.Matches ⟨v.represented, schema, path⟩ ⟨w.represented, schema, path⟩ :=
      ⟨rfl, hsame.represented⟩
    cases hschema : ctx.schemas.resolve? ref with
    | none =>
      have hschema' : ctx'.schemas.resolve? ref = none := hschemas ▸ hschema
      rw [walk_of_unresolved hschema, walk_of_unresolved hschema']
      exact .completed ((hnode ref).reject (.same _))
    | some schema =>
      have hschema' : ctx'.schemas.resolve? ref = some schema := hschemas ▸ hschema
      have hbelow (step : PathSegment) (v w : Value) (ref : SchemaRef) (h : v.Same w) :
          WalksMatch (below ctx levels path step v ref) (below ctx' levels path step w ref) :=
        ih _ _ _ _ h
      have hcompletes : (∃ r, walk ctx (levels + 1) path v ref = .ok r) ↔
          ∃ r, walk ctx' (levels + 1) path w ref = .ok r := by
        rw [walk_completes_iff hschema, walk_completes_iff hschema']
        refine (branches_same hsame.represented schema).forall_iff fun b b' hb => ?_
        rw [hb.step, hb.ref]
        exact (hbelow _ _ _ _ hb.value).completes
      cases hwalk : walk ctx (levels + 1) path v ref with
      | error cause =>
        cases hwalk' : walk ctx' (levels + 1) path w ref with
        | error cause' => exact .aborted cause cause'
        | ok r' =>
          obtain ⟨r, hr⟩ := hcompletes.mpr ⟨r', hwalk'⟩
          cases hwalk.symm.trans hr
      | ok r =>
        obtain ⟨r', hwalk'⟩ := hcompletes.mp ⟨r, hwalk⟩
        rw [hwalk', walk_eq_report hwalk hschema, walk_eq_report hwalk' hschema']
        refine .completed (Report.Matches.close ?_)
        exact Node.Matches.report (fun step v w ref h => (hbelow step v w ref h).reportsOf)
          (hnode (.inline schema)) hroot hoptions schema

end Walks

/-- Two validations that end alike: both are too deep, or both are accepted or rejected, with equal
sanitized values and with the same errors and warnings in some order. -/
inductive EndsAlike : Except DepthExceeded Report → Except DepthExceeded Report → Prop
  | aborted (cause cause' : DepthExceeded) : EndsAlike (.error cause) (.error cause')
  | completed {r r' : Report} (verdict : r'.isOk = r.isOk)
    (sanitized : Option.Rel (fun s s' => s.eqv s' = true) r.sanitized r'.sanitized)
    (errors : Multiset.Rel Diagnostic.Matches (r.errors : Multiset Diagnostic) r'.errors)
    (warnings : Multiset.Rel Diagnostic.Matches (r.warnings : Multiset Diagnostic) r'.warnings) :
    EndsAlike (.ok r) (.ok r')

/-- Validation respects equality of values: of two equal values without external values, each of
which is its own root, both are too deep, or both are accepted or rejected; then their sanitized
values are equal, and their errors and warnings have the same paths and messages, but for the order
of keys in the text of a value that is not allowed. -/
theorem validate_same (set : SchemaSet) (options : Options) (ref : SchemaRef) (v w : Value)
    (equal : v.eqv w = true) (native : v.Native) (distinct : v.Distinct)
    (distinct' : w.Distinct) :
    EndsAlike (validate ⟨v, set, options⟩ v ref) (validate ⟨w, set, options⟩ w ref) := by
  have hsame : v.Same w := Value.same_of_eqv equal native distinct distinct'
  have hwalks : WalksMatch (validate ⟨v, set, options⟩ v ref) (validate ⟨w, set, options⟩ w ref) :=
    @walk_same ⟨v, set, options⟩ ⟨w, set, options⟩ hsame rfl rfl _ [] v w ref hsame
  generalize validate ⟨v, set, options⟩ v ref = result at hwalks ⊢
  generalize validate ⟨w, set, options⟩ w ref = result' at hwalks ⊢
  cases hwalks with
  | aborted cause cause' => exact .aborted cause cause'
  | completed reports => exact .completed reports.isOk reports.eqv reports.errors reports.warnings

def shapedPart : SchemaRef :=
  .inline (.args
    [("size", .named "string"), ("shape", .inline (.enum "kind" "meta" true []))])

def zeroPart : Value :=
  .map [("size", .number .zero), ("shape", .map [("kind", .map [("x", .null), ("y", .null)])])]

def zeroPartReordered : Value :=
  .map
    [("shape", .map [("kind", .map [("y", .null), ("x", .null)])]),
      ("size", .number (.signedZero true))]

theorem native_zeroPart : zeroPart.Native := by
  have hnull : Value.null.Native := fun handle w h => nomatch h
  have hsize : (Value.number .zero).Native := fun handle w h => nomatch h
  unfold zeroPart
  simp [Value.native_map, hnull, hsize]

theorem distinct_zeroPart : zeroPart.Distinct ∧ zeroPartReordered.Distinct := by
  have hnull : Value.null.Distinct := fun entries h => nomatch h
  have hsize (n : Number) : (Value.number n).Distinct := fun entries h => nomatch h
  unfold zeroPart zeroPartReordered
  simp [Value.distinct_map, Entries.keys, hnull, hsize]

/-- The two parts are rejected for the same reason, of which the text repeats the order of keys. -/
theorem validate_same_zeroPart :
    zeroPart.eqv zeroPartReordered = true ∧
    ((validate ⟨zeroPart, {}, {}⟩ zeroPart shapedPart).toOption.map fun r =>
        r.errors.map Diagnostic.line) =
      some ["$.shape: value not allowed by enum: \x7b\"x\":null,\"y\":null\x7d"] ∧
    ((validate ⟨zeroPartReordered, {}, {}⟩ zeroPartReordered shapedPart).toOption.map fun r =>
        r.errors.map Diagnostic.line) =
      some ["$.shape: value not allowed by enum: \x7b\"y\":null,\"x\":null\x7d"] ∧
    EndsAlike (validate ⟨zeroPart, {}, {}⟩ zeroPart shapedPart)
      (validate ⟨zeroPartReordered, {}, {}⟩ zeroPartReordered shapedPart) := by
  have hequal : zeroPart.eqv zeroPartReordered = true := by decide +kernel
  refine ⟨hequal, by decide +kernel, by decide +kernel, ?_⟩
  exact validate_same {} {} shapedPart zeroPart zeroPartReordered hequal native_zeroPart
    distinct_zeroPart.1 distinct_zeroPart.2

end Conform
