import Conform.Report

/-!
# Reports — how reports are closed and compared

A report with errors is closed by taking its sanitized value away, one without errors stays as it
is.  The best of several reports, if it has no errors, is the winner: of the reports without errors
the first with the fewest warnings (`Report.best?_filter_isOk`).
-/

namespace Conform

namespace Report

variable {r s : Report} {candidates : List Report}

theorem isOk_iff (r : Report) : r.isOk = true ↔ r.errors = [] := List.isEmpty_iff

theorem close_of_isOk (h : r.isOk = true) : r.close = r := if_pos h

theorem close_of_not_isOk (h : r.isOk = false) : r.close = { r with sanitized := none } := by
  unfold close
  rw [h]
  rfl

/-- Withholding the sanitized value changes no verdict. -/
theorem close_isOk (r : Report) : r.close.isOk = r.isOk := by
  cases h : r.isOk with
  | true => rw [close_of_isOk h, h]
  | false =>
    rw [close_of_not_isOk h]
    exact h

/-- Reports are compared by their errors first, and by their warnings where these are as many. -/
theorem betterThan_iff (r s : Report) :
    r.betterThan s = true ↔ r.errors.length < s.errors.length ∨
      r.errors.length = s.errors.length ∧ r.warnings.length < s.warnings.length := by
  unfold betterThan
  rw [Bool.or_eq_true, Bool.and_eq_true, decide_eq_true_eq, decide_eq_true_eq, beq_iff_eq]

def winner? (candidates : List Report) : Option Report :=
  (candidates.filter isOk).minOn? (·.warnings.length)

theorem winner?_mem (h : winner? candidates = some r) : r ∈ candidates :=
  (List.mem_filter.mp (List.minOn?_mem h)).1

theorem winner?_isOk (h : winner? candidates = some r) : r.isOk = true :=
  (List.mem_filter.mp (List.minOn?_mem h)).2

/-- Where a report has no errors there is a winner, which has no more warnings than it. -/
theorem exists_winner (hr : r ∈ candidates) (hok : r.isOk = true) :
    ∃ winner, winner? candidates = some winner ∧
      winner.warnings.length ≤ r.warnings.length := by
  have hmem : r ∈ candidates.filter isOk := List.mem_filter.mpr ⟨hr, hok⟩
  have hfewest := List.apply_get_minOn?_le_of_mem (f := fun r : Report => r.warnings.length) hmem
  exact ⟨_, (Option.some_get _).symm, hfewest⟩

theorem winner?_cons_of_not_isOk (h : r.isOk = false) (rest : List Report) :
    winner? (r :: rest) = winner? rest := by
  unfold winner?
  rw [List.filter_cons_of_neg (Bool.not_eq_true _ ▸ h)]

/-- Of two reports without errors, the better one is in the contest. -/
theorem winner?_cons_cons (hr : r.isOk = true) (hs : s.isOk = true) (rest : List Report) :
    winner? (r :: s :: rest) = winner? (minOn (·.warnings.length) r s :: rest) := by
  have hmin : (minOn (·.warnings.length) r s).isOk = true := by
    unfold minOn
    split
    · exact hr
    · exact hs
  unfold winner?
  rw [List.filter_cons_of_pos hr, List.filter_cons_of_pos hs, List.filter_cons_of_pos hmin]
  rfl

theorem betterThan_of_isOk (hr : r.isOk = true) (hs : s.isOk = false) :
    r.betterThan s = true := by
  have hsome : s.errors ≠ [] := fun hnil => Bool.false_ne_true (hs ▸ (isOk_iff s).mpr hnil)
  rw [betterThan_iff, (isOk_iff r).mp hr]
  exact .inl (List.length_pos_iff.mpr hsome)

/-- Of two reports without errors the better one is the one with fewer warnings. -/
theorem better_eq_minOn (hr : r.isOk = true) (hs : s.isOk = true) :
    (if s.betterThan r then s else r) = minOn (·.warnings.length) r s := by
  have hfewer : s.betterThan r = true ↔ ¬r.warnings.length ≤ s.warnings.length := by
    rw [betterThan_iff, (isOk_iff r).mp hr, (isOk_iff s).mp hs]
    omega
  unfold minOn
  by_cases hle : r.warnings.length ≤ s.warnings.length
  · rw [if_pos hle, if_neg fun hbetter => hfewer.mp hbetter hle]
  · rw [if_neg hle, if_pos (hfewer.mpr hle)]

/-- Comparing reports one by one leaves the winner. -/
theorem winner?_better (best s : Report) (rest : List Report) :
    winner? ((if s.betterThan best then s else best) :: rest) = winner? (best :: s :: rest) := by
  cases hbest : best.isOk with
  | true =>
    cases hs : s.isOk with
    | true => rw [better_eq_minOn hbest hs, winner?_cons_cons hbest hs]
    | false =>
      have hnot : ¬s.betterThan best = true := by
        have hbetter := betterThan_of_isOk hbest hs
        rw [betterThan_iff] at hbetter ⊢
        omega
      rw [if_neg hnot]
      unfold winner?
      rw [List.filter_cons_of_pos hbest, List.filter_cons_of_pos hbest,
        List.filter_cons_of_neg (Bool.not_eq_true _ ▸ hs)]
  | false =>
    rw [winner?_cons_of_not_isOk hbest]
    split
    · rfl
    · rename_i hnot
      have hs : s.isOk = false := by
        rw [← Bool.not_eq_true]
        exact fun hs => hnot (betterThan_of_isOk hs hbest)
      rw [winner?_cons_of_not_isOk hbest, winner?_cons_of_not_isOk hs]

/-- The best report without errors is the winner. -/
theorem best?_filter_isOk (candidates : List Report) :
    (best? candidates).filter isOk = winner? candidates := by
  cases candidates with
  | nil => rfl
  | cons best rest =>
    change (some _).filter isOk = _
    induction rest generalizing best with
    | nil =>
      cases hbest : best.isOk with
      | true =>
        unfold winner?
        rw [List.filter_cons_of_pos hbest, List.foldl_nil, Option.filter_some, if_pos hbest]
        rfl
      | false =>
        rw [winner?_cons_of_not_isOk hbest, List.foldl_nil, Option.filter_some, hbest]
        rfl
    | cons s rest ih => rw [List.foldl_cons, ih, winner?_better]

end Report

end Conform
