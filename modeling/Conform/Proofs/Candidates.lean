import Conform.Proofs.Relocation

/-!
# Candidates — what becomes of the reports of a choice

A choice goes through its candidates once and keeps the best report.  What it keeps is the first of
the reports with the fewest warnings among those without errors; where all have errors, it reports
all that they say (`walk_multi`).  Where a candidate stands shows in the paths of its diagnostics
only, so the verdict and the number of warnings do not depend on the order of the candidates, and
more candidates can only make them better.
-/

namespace Conform

/-! ## 1. The first of the best reports -/

namespace Report

variable {r s : Report} {candidates : List Report}

/-- Of some reports without errors, the first among those with the fewest warnings. -/
structure IsFirstBest (candidates : List Report) (r : Report) : Prop where
  isOk : r.isOk = true
  first : ∃ before after, candidates = before ++ r :: after ∧
    (∀ c ∈ before, c.isOk = true → r.warnings.length < c.warnings.length) ∧
    ∀ c ∈ after, c.isOk = true → r.warnings.length ≤ c.warnings.length

theorem winner?_cons_of_isOk (h : r.isOk = true) (rest : List Report) :
    winner? (r :: rest) = some ((winner? rest).elim r (minOn (·.warnings.length) r)) := by
  unfold winner?
  rw [List.filter_cons_of_pos h, List.minOn?_cons]

/-- A report that none after it betters is the first of the best. -/
theorem isFirstBest_head {rest : List Report} (hr : r.isOk = true)
    (hrest : ∀ c ∈ rest, c.isOk = true → r.warnings.length ≤ c.warnings.length) :
    IsFirstBest (r :: rest) r :=
  ⟨hr, [], rest, rfl, fun _ hc => absurd hc List.not_mem_nil, hrest⟩

/-- A worse report in front does not change which one is the first of the best. -/
theorem IsFirstBest.cons (h : IsFirstBest candidates r)
    (hs : s.isOk = true → r.warnings.length < s.warnings.length) :
    IsFirstBest (s :: candidates) r := by
  obtain ⟨hr, before, after, rfl, hbefore, hafter⟩ := h
  exact ⟨hr, s :: before, after, rfl, List.forall_mem_cons.mpr ⟨hs, hbefore⟩, hafter⟩

theorem isFirstBest_of_winner? (h : winner? candidates = some r) : IsFirstBest candidates r := by
  induction candidates with
  | nil => cases h
  | cons c rest ih =>
    cases hc : c.isOk with
    | false =>
      rw [winner?_cons_of_not_isOk hc] at h
      apply (ih h).cons
      intro hok
      exact absurd (hc.symm.trans hok) Bool.false_ne_true
    | true =>
      rw [winner?_cons_of_isOk hc, Option.some.injEq] at h
      cases hrest : winner? rest with
      | none =>
        rw [hrest, Option.elim_none] at h
        subst h
        apply isFirstBest_head hc
        intro s hs hok
        obtain ⟨winner, hwins, -⟩ := exists_winner hs hok
        cases hrest.symm.trans hwins
      | some s =>
        -- The winner of the rest wins over `c` only with fewer warnings.
        rw [hrest, Option.elim_some, minOn] at h
        by_cases hle : c.warnings.length ≤ s.warnings.length
        · rw [if_pos hle] at h
          subst h
          apply isFirstBest_head hc
          intro t ht hok
          obtain ⟨winner, hwins, hfewest⟩ := exists_winner ht hok
          cases hrest.symm.trans hwins
          omega
        · rw [if_neg hle] at h
          subst h
          apply (ih hrest).cons
          intro _
          omega

/-- Where a candidate has no errors there is a winner. -/
theorem exists_firstBest (h : ∃ c ∈ candidates, c.isOk = true) :
    ∃ r, winner? candidates = some r ∧ IsFirstBest candidates r := by
  obtain ⟨c, hc, hok⟩ := h
  obtain ⟨winner, hwins, -⟩ := exists_winner hc hok
  exact ⟨winner, hwins, isFirstBest_of_winner? hwins⟩

theorem winner?_eq_none (h : ∀ c ∈ candidates, c.isOk = false) : winner? candidates = none := by
  unfold winner?
  rw [List.filter_eq_nil_iff.mpr fun c hc => by rw [h c hc]; exact Bool.false_ne_true]
  rfl

/-- Two reports that count alike: with one verdict and equally many warnings. -/
structure CountsAs (r s : Report) : Prop where
  isOk : s.isOk = r.isOk
  warnings : s.warnings.length = r.warnings.length

theorem under_countsAs (s : Report) (front other : Path) :
    (s.under front).CountsAs (s.under other) :=
  ⟨(s.relabel_isOk _).trans (s.relabel_isOk _).symm,
    (List.length_map _).trans (List.length_map _).symm⟩

end Report

/-! ## 2. The report of a choice -/

variable {ctx : Context} {levels : Nat} {path : Path} {v : Value} {ref : SchemaRef}
  {allowed allowed' : List SchemaRef} {r : Report} {candidates candidates' : List Report}

def walkCandidates (ctx : Context) (levels : Nat) (path : Path) (v : Value)
    (allowed : List SchemaRef) : Except DepthExceeded (List Report) :=
  allowed.zipIdx.mapM fun c => walk ctx levels (path ++ [candidateKey c.2]) v.represented c.1

/-- A choice comes to what it makes of its candidates. -/
theorem walk_of_candidates (resolved : ctx.schemas.resolve? ref = some (.multi allowed))
    (completed : walkCandidates ctx levels path v allowed = .ok candidates) :
    walk ctx (levels + 1) path v ref =
      .ok ((nodeAt path v (.multi allowed)).choice candidates).close := by
  have hvisit : (nodeAt path v (.multi allowed)).multi (below ctx levels path) allowed =
      .ok ((nodeAt path v (.multi allowed)).choice candidates) := by
    have hcandidates : (allowed.zipIdx.mapM fun c =>
        below ctx levels path (candidateKey c.2) v.represented c.1) = .ok candidates := completed
    unfold Node.multi Node.choice
    dsimp only [nodeAt]
    rw [hcandidates]
    dsimp only [bind, Except.bind]
    cases (Report.best? candidates).filter Report.isOk <;> rfl
  unfold walk
  rw [resolved]
  show ((nodeAt path v (.multi allowed)).multi (below ctx levels path) allowed).map
    Report.close = _
  rw [hvisit]
  rfl

theorem candidates_of_walk (resolved : ctx.schemas.resolve? ref = some (.multi allowed))
    (h : walk ctx (levels + 1) path v ref = .ok r) :
    ∃ candidates, walkCandidates ctx levels path v allowed = .ok candidates ∧
      r = ((nodeAt path v (.multi allowed)).choice candidates).close := by
  obtain ⟨candidates, completed, -⟩ := walk_choice h resolved
  have hwalk := walk_of_candidates resolved completed
  rw [h] at hwalk
  exact ⟨candidates, completed, Except.ok.inj hwalk⟩

theorem choice_close_of_winner (node : Node) (h : Report.winner? candidates = some r) :
    (node.choice candidates).close = r := by
  rw [node.choice_of_winner h, Report.close_of_isOk (Report.winner?_isOk h)]

theorem choice_close_of_none (node : Node) (h : Report.winner? candidates = none) :
    (node.choice candidates).close =
      { sanitized := none
        errors := node.diagnose .noOptionsMatched :: candidates.flatMap Report.errors
        warnings := candidates.flatMap Report.warnings } := by
  unfold Node.choice
  rw [Report.best?_filter_isOk, h]
  rfl

/-- A choice without errors has a winner. -/
theorem winner_of_choice (node : Node) (h : (node.choice candidates).close.isOk = true) :
    Report.winner? candidates = some (node.choice candidates).close := by
  rw [Report.close_isOk] at h
  rw [Report.close_of_isOk h]
  exact node.choice_wins h

/-! ## 3. Other candidates -/

/-- What a candidate reports in its position it reports in every other one, but for the paths. -/
theorem candidate_elsewhere (completed : walkCandidates ctx levels path v allowed = .ok candidates)
    (href : ref ∈ allowed) :
    ∃ (s : Report) (place : Path), s.under place ∈ candidates ∧
      ∀ other, walk ctx levels other v.represented ref = .ok (s.under other) := by
  obtain ⟨position, hposition⟩ := List.mem_iff_getElem?.mp href
  obtain ⟨c, hc, hwalk⟩ := mem_mapM completed _ (List.mk_mem_zipIdx_iff_getElem?.mpr hposition)
  obtain ⟨s, rfl, helsewhere⟩ := walk_elsewhere hwalk
  exact ⟨s, _, hc, helsewhere⟩

/-- What one candidate reports counts as what it reports among others. -/
theorem candidate_counts (hsub : allowed ⊆ allowed')
    (completed : walkCandidates ctx levels path v allowed = .ok candidates)
    (completed' : walkCandidates ctx levels path v allowed' = .ok candidates') :
    ∀ c ∈ candidates, ∃ c' ∈ candidates', c.CountsAs c' := by
  intro c hc
  obtain ⟨candidate, hmem, hwalk⟩ := mapM_mem completed c hc
  obtain ⟨s, place, hs, helsewhere⟩ :=
    candidate_elsewhere completed' (hsub (List.fst_mem_of_mem_zipIdx hmem))
  rw [helsewhere] at hwalk
  cases hwalk
  exact ⟨_, hs, s.under_countsAs _ _⟩

/-- Candidates complete where all of them are among others that complete. -/
theorem candidates_complete (hsub : allowed' ⊆ allowed)
    (completed : walkCandidates ctx levels path v allowed = .ok candidates) :
    ∃ candidates', walkCandidates ctx levels path v allowed' = .ok candidates' := by
  apply (mapM_eq_ok_iff _ _).mpr
  intro candidate hmem
  obtain ⟨s, -, -, helsewhere⟩ :=
    candidate_elsewhere completed (hsub (List.fst_mem_of_mem_zipIdx hmem))
  exact ⟨_, helsewhere _⟩

/-- With more candidates what was accepted stays accepted, and has no more warnings. -/
theorem choice_of_subset (node node' : Node) (hsub : allowed ⊆ allowed')
    (completed : walkCandidates ctx levels path v allowed = .ok candidates)
    (completed' : walkCandidates ctx levels path v allowed' = .ok candidates')
    (hok : (node.choice candidates).close.isOk = true) :
    (node'.choice candidates').close.isOk = true ∧
      (node'.choice candidates').close.warnings.length ≤
        (node.choice candidates).close.warnings.length := by
  have hmem := Report.winner?_mem (winner_of_choice node hok)
  obtain ⟨c', hc', hcounts⟩ := candidate_counts hsub completed completed' _ hmem
  obtain ⟨winner, hwins, hfewest⟩ := Report.exists_winner hc' (hcounts.isOk.trans hok)
  rw [choice_close_of_winner node' hwins, ← hcounts.warnings]
  exact ⟨Report.winner?_isOk hwins, hfewest⟩

/-- A choice none of whose candidates fails reports, verbatim, the first of the candidates' reports
with the fewest warnings among those without errors, and where all have errors that none matches
and all that they say.  Whatever the order of the candidates, the verdict is the same, and so is the
number of warnings if the value is accepted; with more candidates a value that was accepted is still
accepted, with no more warnings. -/
theorem walk_multi (ctx : Context) (levels : Nat) (path : Path) (v : Value) (ref : SchemaRef)
    (allowed : List SchemaRef) (candidates : List Report)
    (resolved : ctx.schemas.resolve? ref = some (.multi allowed))
    (completed : walkCandidates ctx levels path v allowed = .ok candidates) :
    ∃ r, walk ctx (levels + 1) path v ref = .ok r ∧
      ((∃ c ∈ candidates, c.isOk = true) → r.IsFirstBest candidates) ∧
      ((∀ c ∈ candidates, c.isOk = false) → r =
        { sanitized := none
          errors := ⟨v.represented, .inline (.multi allowed), path, .noOptionsMatched⟩ ::
            candidates.flatMap Report.errors
          warnings := candidates.flatMap Report.warnings }) ∧
      (∀ ref' allowed', ctx.schemas.resolve? ref' = some (.multi allowed') →
        allowed.Perm allowed' → ∃ r', walk ctx (levels + 1) path v ref' = .ok r' ∧
          r'.isOk = r.isOk ∧ (r.isOk = true → r'.warnings.length = r.warnings.length)) ∧
      ∀ ref' allowed' r', ctx.schemas.resolve? ref' = some (.multi allowed') →
        allowed ⊆ allowed' → walk ctx (levels + 1) path v ref' = .ok r' →
          r.isOk = true → r'.isOk = true ∧ r'.warnings.length ≤ r.warnings.length := by
  refine ⟨_, walk_of_candidates resolved completed, ?_, ?_, ?_, ?_⟩
  · intro hsome
    obtain ⟨winner, hwins, hbest⟩ := Report.exists_firstBest hsome
    rw [choice_close_of_winner _ hwins]
    exact hbest
  · -- Without a winner all is reported that the candidates say.
    intro hnone
    exact choice_close_of_none _ (Report.winner?_eq_none hnone)
  · intro ref' allowed' resolved' hperm
    obtain ⟨candidates', completed'⟩ := candidates_complete hperm.symm.subset completed
    refine ⟨_, walk_of_candidates resolved' completed', ?_⟩
    -- Each list is part of the other one, so that neither verdict is better.
    have hmore := choice_of_subset (nodeAt path v (.multi allowed))
      (nodeAt path v (.multi allowed')) hperm.subset completed completed'
    have hfewer := choice_of_subset (nodeAt path v (.multi allowed'))
      (nodeAt path v (.multi allowed)) hperm.symm.subset completed' completed
    constructor
    · rw [Bool.eq_iff_iff]
      exact ⟨fun h => (hfewer h).1, fun h => (hmore h).1⟩
    · intro hok
      have hok' := (hmore hok).1
      exact Nat.le_antisymm (hmore hok).2 (hfewer hok').2
  · intro ref' allowed' r' resolved' hsub h' hok
    obtain ⟨candidates', completed', rfl⟩ := candidates_of_walk resolved' h'
    exact choice_of_subset _ _ hsub completed completed' hok

def looseChoice : List SchemaRef := [.named "number", .named "string", .named "freeform"]

theorem candidates_looseChoice :
    (walkCandidates ⟨.null, ⟨[]⟩, {}⟩ 1 [] (.string "42") looseChoice).toOption.map
      (·.map fun r => (r.isOk, r.warnings.length)) =
        some [(true, 1), (true, 0), (true, 0)] := by
  decide +kernel

/-- Digits in quotes are a number with a warning: they stay a text, whatever comes behind. -/
theorem walk_multi_looseChoice :
    ∃ candidates r,
      walkCandidates ⟨.null, ⟨[]⟩, {}⟩ 1 [] (.string "42") looseChoice = .ok candidates ∧
      (candidates.map fun r => (r.isOk, r.warnings.length)) =
        [(true, 1), (true, 0), (true, 0)] ∧
      walk ⟨.null, ⟨[]⟩, {}⟩ 2 [] (.string "42") (.inline (.multi looseChoice)) = .ok r ∧
      r.IsFirstBest candidates ∧
      ∃ r', walk ⟨.null, ⟨[]⟩, {}⟩ 2 [] (.string "42") (.inline (.multi looseChoice.reverse)) =
          .ok r' ∧ r'.isOk = r.isOk ∧ (r.isOk = true → r'.warnings.length = r.warnings.length) := by
  obtain ⟨candidates, completed, hcounts⟩ := ok_of_toOption_map candidates_looseChoice
  have hmulti := walk_multi ⟨.null, ⟨[]⟩, {}⟩ 1 [] (.string "42") (.inline (.multi looseChoice))
    looseChoice candidates rfl completed
  obtain ⟨r, hr, hbest, -, hperm, -⟩ := hmulti
  refine ⟨candidates, r, completed, hcounts, hr, hbest ?_, ?_⟩
  · have hmem : (true, 1) ∈ candidates.map fun r => (r.isOk, r.warnings.length) := by
      rw [hcounts]
      exact List.mem_cons_self
    obtain ⟨c, hc, heq⟩ := List.mem_map.mp hmem
    exact ⟨c, hc, congrArg Prod.fst heq⟩
  · exact hperm _ looseChoice.reverse rfl looseChoice.reverse_perm.symm

end Conform
