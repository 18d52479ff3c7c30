import Conform.Proofs.Acceptance

/-!
# Findings — what the errors and warnings of a report can say

A diagnostic in the report of a node is a finding about the node itself or comes from the report
of a child.  That a reference means nothing is found where the reference is followed, so no handler
has it among the findings of its own (`Node.says_report`).
-/

namespace Conform

def Report.Says (P : Diagnostic → Prop) (r : Report) : Prop :=
  (∀ d ∈ r.errors, P d) ∧ ∀ d ∈ r.warnings, P d

/-- Whether a finding is another one than that a reference means nothing. -/
def Finding.isKnown : Finding → Bool
  | .unknownSchema _ => false
  | _ => true

namespace Node

variable {node : Node} {ctx : Context} {D : Reports} {P : Diagnostic → Prop}

theorem says_accept (node : Node) (v : Value) : (node.accept v).Says P :=
  ⟨fun _ hd => absurd hd List.not_mem_nil, fun _ hd => absurd hd List.not_mem_nil⟩

section Own

variable (own : ∀ f : Finding, f.isKnown = true → P (node.diagnose f))
include own

theorem says_coercionIf (coerced : Bool) : ∀ d ∈ node.coercionIf coerced, P d := by
  intro d hd
  unfold coercionIf at hd
  split at hd
  · rw [List.mem_singleton.mp hd]
    exact own _ rfl
  · exact absurd hd List.not_mem_nil

theorem says_coerce (v : Value) : (node.coerce v).Says P :=
  ⟨fun _ hd => absurd hd List.not_mem_nil, says_coercionIf own true⟩

/-- A node that is rejected for a known reason says so of itself. -/
theorem says_reject {f : Finding} (hf : f.isKnown = true) : (node.reject f).Says P := by
  refine ⟨fun d hd => ?_, fun _ hd => absurd hd List.not_mem_nil⟩
  rw [List.mem_singleton.mp hd]
  exact own f hf

/-- A check adds what its conditions tell. -/
theorem says_check {conditions : List (Bool × Finding)} {r : Report}
    (hconditions : ∀ c ∈ conditions, c.2.isKnown = true) (hr : r.Says P) :
    (node.check conditions r).Says P := by
  refine ⟨fun d hd => ?_, hr.2⟩
  rcases List.mem_append.mp hd with hd | hd
  · exact hr.1 d hd
  · rcases List.mem_map.mp hd with ⟨f, hf, rfl⟩
    rcases List.mem_map.mp hf with ⟨c, hc, rfl⟩
    exact own _ (hconditions c (List.mem_filter.mp hc).1)

theorem says_number (rules : NumberRules) : (node.number rules).Says P := by
  -- What is no number is warned of as coerced even where it is rejected.
  have hwarnings : ∀ d ∈ (if node.value.number?.isSome then [] else
      [node.diagnose .typeCoercion]), P d := by
    have hcoercion := says_coercionIf own node.value.number?.isNone
    cases hv : node.value.number? <;> rw [hv] at hcoercion <;> exact hcoercion
  unfold number
  cases coerceNumber? node.value with
  | none => exact ⟨(says_reject own (f := .unableToCoerce) rfl).1, hwarnings⟩
  | some n =>
    refine says_check own ?_ ⟨fun _ hd => absurd hd List.not_mem_nil, hwarnings⟩
    simp only [List.forall_mem_cons]
    exact ⟨rfl, rfl, rfl, fun _ hd => absurd hd List.not_mem_nil⟩

theorem says_string (rules : StringRules) : (node.string ctx rules).Says P := by
  unfold string
  cases coerceString? node.value with
  | none => exact says_reject own rfl
  | some found =>
    refine says_check own ?_ ?_
    · simp only [List.forall_mem_cons]
      exact ⟨rfl, rfl, rfl, rfl, fun _ hd => absurd hd List.not_mem_nil⟩
    · split
      · exact says_coerce own _
      · exact says_accept node _

theorem says_boolean : node.boolean.Says P := by
  unfold boolean
  split
  · exact says_accept node _
  · exact says_coerce own _
  · exact says_coerce own _
  · exact says_reject own rfl

theorem says_regex (options : Options) : (node.regex options).Says P := by
  unfold regex
  split
  · exact says_accept node _
  · split
    · exact says_accept node _
    · exact says_reject own rfl
  · exact says_reject own rfl

theorem says_list {elements : SchemaRef}
    (children : ∀ b ∈ node.value.branches (.list elements), (b.report D).Says P) :
    (node.report ctx D (.list elements)).Says P := by
  unfold report
  dsimp only
  split
  · rename_i items hv
    have hitem (c : Value × Nat) (hc : c ∈ items.zipIdx) :=
      children _ (item_mem_branches hv hc elements)
    constructor
    · intro d hd
      rcases List.mem_flatMap.mp hd with ⟨r, hr, hd⟩
      rcases List.mem_map.mp hr with ⟨c, hc, rfl⟩
      exact (hitem c hc).1 d hd
    · intro d hd
      rcases List.mem_flatMap.mp hd with ⟨r, hr, hd⟩
      rcases List.mem_map.mp hr with ⟨c, hc, rfl⟩
      exact (hitem c hc).2 d hd
  · exact says_reject own rfl

theorem says_index {elements : SchemaRef} {validKeys : Option Pattern}
    (children : ∀ b ∈ node.value.branches (.index elements validKeys), (b.report D).Says P) :
    (node.report ctx D (.index elements validKeys)).Says P := by
  unfold report
  dsimp only
  split
  · exact says_reject own rfl
  · rename_i entries hv
    have hentry (e : String × Value) (he : e ∈ entries) :=
      children _ (entry_mem_branches hv he elements validKeys)
    constructor
    · intro d hd
      rcases List.mem_flatMap.mp hd with ⟨c, hc, hd⟩
      rcases List.mem_map.mp hc with ⟨e, he, rfl⟩
      unfold entryErrors at hd
      split at hd
      · rcases List.mem_cons.mp hd with rfl | hd
        · exact own _ rfl
        · exact (hentry e he).1 d hd
      · exact (hentry e he).1 d hd
    · intro d hd
      rcases List.mem_append.mp hd with hd | hd
      · unfold listWarnings at hd
        split at hd
        · rw [List.mem_singleton.mp hd]
          exact own _ rfl
        · exact absurd hd List.not_mem_nil
      · rcases List.mem_flatMap.mp hd with ⟨c, hc, hd⟩
        rcases List.mem_map.mp hc with ⟨e, he, rfl⟩
        exact (hentry e he).2 d hd

/-- A mapping with declared fields says what its children say, and what is missing. -/
theorem says_fieldsReport {required : Bool} {fields : Fields}
    (children : ∀ b ∈ node.value.branches (.args fields), (b.report D).Says P) :
    (node.fieldsReport D required fields).Says P := by
  cases hv : node.value.keyed? with
  | none =>
    unfold fieldsReport
    rw [hv]
    exact says_reject own rfl
  | some entries =>
    rw [fieldsReport_eq hv]
    constructor
    · intro d hd
      rcases List.mem_append.mp hd with hd | hd
      · rcases List.mem_flatMap.mp hd with ⟨b, hb, hd⟩
        exact (children b hb).1 d hd
      · split at hd
        · rcases List.mem_map.mp hd with ⟨key, -, rfl⟩
          exact own _ rfl
        · exact absurd hd List.not_mem_nil
    · intro d hd
      rcases List.mem_flatMap.mp hd with ⟨e, he, hd⟩
      -- An undeclared entry is a finding of the node, a declared one has the warnings of its child.
      cases hfield : fields.get? e.1 with
      | none =>
        rw [hfield] at hd
        rw [List.mem_singleton.mp hd]
        exact own _ rfl
      | some ref =>
        rw [hfield] at hd
        exact (children _ (field_mem_branches hv he hfield)).2 d hd

/-- An enum says what its payload says, or what is wrong with it. -/
theorem says_enum {valueField metaField : String} {strict : Bool} {options : Entries Fields}
    (children : ∀ b ∈ node.value.branches (.enum valueField metaField strict options),
      (b.report D).Says P) :
    (node.report ctx D (.enum valueField metaField strict options)).Says P := by
  rw [report]
  split
  · exact says_reject own rfl
  · rename_i entries hv
    split
    · exact says_reject own rfl
    · rename_i discriminant hd
      split
      · exact says_reject own rfl
      · rename_i name fields hs
        rcases selection?_eq_some.mp hs with ⟨rfl, hfields⟩
        exact children _ (payload_mem_branches hv hd hfields metaField strict)

/-- A choice says what its candidates say. -/
theorem says_multi {allowed : List SchemaRef}
    (children : ∀ b ∈ node.value.branches (.multi allowed), (b.report D).Says P) :
    (node.report ctx D (.multi allowed)).Says P := by
  have hcandidate : ∀ r ∈ allowed.zipIdx.map fun c => D (candidateKey c.2) node.value c.1,
      r.Says P := by
    intro r hr
    rcases List.mem_map.mp hr with ⟨c, hc, rfl⟩
    exact children _ (candidate_mem_branches hc node.value)
  rw [report, choice, Report.best?_filter_isOk]
  split
  -- The winner says what it says as a candidate; without one, all candidates speak.
  · rename_i winner hwins
    exact hcandidate winner (Report.winner?_mem hwins)
  · constructor
    · intro d hd
      rcases List.mem_cons.mp hd with rfl | hd
      · exact own _ rfl
      · rcases List.mem_flatMap.mp hd with ⟨r, hr, hd⟩
        exact (hcandidate r hr).1 d hd
    · intro d hd
      rcases List.mem_flatMap.mp hd with ⟨r, hr, hd⟩
      exact (hcandidate r hr).2 d hd

/-- What holds of the findings of a node itself and of all that is said about its children holds
of all that is said about the node. -/
theorem says_report {schema : Schema}
    (children : ∀ b ∈ node.value.branches schema, (b.report D).Says P) :
    (node.report ctx D schema).Says P := by
  cases schema with
  | freeform => exact says_accept node node.value
  | boolean => exact says_boolean own
  | regex => exact says_regex own ctx.options
  | number rules => exact says_number own rules
  | string rules => exact says_string own rules
  | list elements => exact says_list own children
  | index elements validKeys => exact says_index own children
  | args fields => exact says_fieldsReport own children
  | object fields => exact says_fieldsReport own children
  | enum valueField metaField strict options => exact says_enum own children
  | multi allowed => exact says_multi own children

end Own

end Node

theorem Report.Says.close {P : Diagnostic → Prop} {r : Report} (h : r.Says P) :
    r.close.Says P := by
  unfold Report.close
  split
  · exact h
  · exact h

end Conform
