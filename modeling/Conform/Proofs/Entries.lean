import Conform.Entries

/-!
# Entries — lookup in mappings, and traversals that may fail
-/

/-! ## 1. Lookup -/

namespace Conform.Entries

variable {α β : Type} {entries : Entries α} {key : String} {value : α}

/-- What is found under a key is among the entries. -/
theorem mem_of_get? (h : entries.get? key = some value) : (key, value) ∈ entries := by
  rcases List.lookup_eq_some_iff.1 h with ⟨before, after, rfl, -⟩
  exact List.mem_append_right before List.mem_cons_self

theorem get?_isSome_iff : (entries.get? key).isSome = true ↔ key ∈ entries.keys := by
  unfold get? keys
  rw [List.lookup_isSome_iff, List.mem_map]
  constructor
  · rintro ⟨e, he, hk⟩
    exact ⟨e, he, (beq_iff_eq.mp hk).symm⟩
  · rintro ⟨e, he, rfl⟩
    exact ⟨e, he, beq_self_eq_true _⟩

theorem contains_iff : entries.contains key = true ↔ key ∈ entries.keys := get?_isSome_iff

/-- A mapping whose values are changed keeps its keys. -/
theorem keys_map (f : String × α → β) : keys (entries.map fun e => (e.1, f e)) = entries.keys := by
  unfold keys
  rw [List.map_map]
  rfl

theorem get?_cons (k : String) (v : α) (rest : Entries α) :
    get? ((k, v) :: rest) key = if key = k then some v else get? rest key := by
  unfold get?
  rw [List.lookup_cons]
  by_cases h : key = k
  · rw [if_pos h, h, beq_self_eq_true]
  · rw [if_neg h, beq_false_of_ne h]

/-- Values are mapped where they are found. -/
theorem get?_map (f : α → β) :
    get? (entries.map fun e => (e.1, f e.2)) key = (entries.get? key).map f := by
  induction entries with
  | nil => rfl
  | cons e rest ih =>
    rw [List.map_cons, get?_cons, get?_cons, ih]
    by_cases h : key = e.1
    · rw [if_pos h, if_pos h, Option.map_some]
    · rw [if_neg h, if_neg h]

theorem ofList_pair {k l : String} (h : k ≠ l) (a b : α) :
    ofList [(k, a), (l, b)] = [(k, a), (l, b)] := by
  unfold ofList
  simp only [List.foldl_cons, List.foldl_nil, insert, if_neg h]

end Conform.Entries

/-! ## 2. Traversals -/

namespace Conform

theorem filterMap_eq_self {α : Type} {l : List α} {f : α → Option α}
    (h : ∀ x ∈ l, f x = some x) : l.filterMap f = l := by
  induction l with
  | nil => rfl
  | cons x rest ih =>
    rw [List.forall_mem_cons] at h
    rw [List.filterMap_cons_some h.1, ih h.2]

section Mapping

variable {ε α β γ δ : Type}

/-- A list of computations fails as the list of those among them that can fail; where it does
not, its results are known beforehand. -/
theorem mapM_map_filterMap (l : List α) (f : α → Except ε β) (y : α → β) (b : α → Option γ)
    (g : γ → Except ε δ)
    (h : ∀ x, f x = (match b x with | none => .ok (y x) | some c => (g c).map fun _ => y x))
    {ρ : Type} (F : List β → ρ) :
    (l.mapM f).map F = ((l.filterMap b).mapM g).map fun _ => F (l.map y) := by
  induction l generalizing F with
  | nil => rfl
  | cons x rest ih =>
    have hrest := ih fun ys => F (y x :: ys)
    rw [List.mapM_cons, h x]
    cases hb : b x with
    | none =>
      rw [List.filterMap_cons_none hb, List.map_cons, ← hrest]
      cases rest.mapM f <;> rfl
    | some c =>
      rw [List.filterMap_cons_some hb, List.mapM_cons, List.map_cons]
      dsimp only
      cases g c with
      | error e => rfl
      | ok d =>
        cases hf : rest.mapM f <;> cases hg : (rest.filterMap b).mapM g <;> rw [hf, hg] at hrest
        · exact hrest
        · exact absurd hrest (by simp [Except.map])
        · exact absurd hrest (by simp [Except.map])
        · exact hrest

theorem mapM_map_map (l : List α) (f : α → Except ε β) (y : α → β) (b : α → γ)
    (g : γ → Except ε δ) (h : ∀ x, f x = (g (b x)).map fun _ => y x) {ρ : Type}
    (F : List β → ρ) :
    (l.mapM f).map F = ((l.map b).mapM g).map fun _ => F (l.map y) := by
  rw [mapM_map_filterMap l f y (fun x => some (b x)) g h F, List.filterMap_eq_map']

/-- A computation over a list completes when it does at every item. -/
theorem mapM_eq_ok_iff (l : List α) (f : α → Except ε β) :
    (∃ ys, l.mapM f = .ok ys) ↔ ∀ x ∈ l, ∃ y, f x = .ok y := by
  induction l with
  | nil => exact ⟨fun _ _ hx => absurd hx List.not_mem_nil, fun _ => ⟨[], rfl⟩⟩
  | cons x rest ih =>
    rw [List.mapM_cons, List.forall_mem_cons, ← ih]
    cases f x <;> cases rest.mapM f <;> simp [bind, Except.bind, pure, Except.pure]

theorem mapM_eq_ok_map {l : List α} {f : α → Except ε β} {g : α → β}
    (h : ∀ x ∈ l, f x = .ok (g x)) : l.mapM f = .ok (l.map g) := by
  induction l with
  | nil => rfl
  | cons x rest ih =>
    rw [List.forall_mem_cons] at h
    rw [List.mapM_cons, h.1, ih h.2]
    rfl

/-- Computations in sequence that succeed have succeeded one after the other. -/
theorem bind_eq_ok {x : Except ε α} {f : α → Except ε β} {b : β} (h : (x >>= f) = .ok b) :
    ∃ a, x = .ok a ∧ f a = .ok b := by
  cases x with
  | error e => cases h
  | ok a => exact ⟨a, rfl, h⟩

theorem map_eq_ok {x : Except ε α} {f : α → β} {b : β} (h : x.map f = .ok b) :
    ∃ a, x = .ok a ∧ b = f a := by
  cases x with
  | error e => cases h
  | ok a => exact ⟨a, rfl, (Except.ok.inj h).symm⟩

theorem mapM_cons_eq_ok {x : α} {rest : List α} {f : α → Except ε β} {ys : List β}
    (h : (x :: rest).mapM f = .ok ys) :
    ∃ y zs, f x = .ok y ∧ rest.mapM f = .ok zs ∧ ys = y :: zs := by
  rw [List.mapM_cons] at h
  obtain ⟨y, hx, h⟩ := bind_eq_ok h
  obtain ⟨zs, hr, h⟩ := bind_eq_ok h
  cases h
  exact ⟨y, zs, hx, hr, rfl⟩

/-- What the results have in common with what they come from. -/
theorem mapM_map_eq {l : List α} {f : α → Except ε β} {ys : List β} {g : β → γ} {h : α → γ}
    (hl : l.mapM f = .ok ys) (hf : ∀ x y, f x = .ok y → g y = h x) : ys.map g = l.map h := by
  induction l generalizing ys with
  | nil =>
    cases hl
    rfl
  | cons x rest ih =>
    rcases mapM_cons_eq_ok hl with ⟨y, zs, hx, hr, rfl⟩
    rw [List.map_cons, List.map_cons, hf x y hx, ih hr]

theorem mapM_mem {l : List α} {f : α → Except ε β} {ys : List β} (hl : l.mapM f = .ok ys) :
    ∀ y ∈ ys, ∃ x ∈ l, f x = .ok y := by
  induction l generalizing ys with
  | nil =>
    cases hl
    exact fun y hy => absurd hy List.not_mem_nil
  | cons x rest ih =>
    rcases mapM_cons_eq_ok hl with ⟨y, zs, hx, hr, rfl⟩
    intro z hz
    rcases List.mem_cons.mp hz with rfl | hz
    · exact ⟨x, List.mem_cons_self, hx⟩
    · rcases ih hr z hz with ⟨x', hx', hfx'⟩
      exact ⟨x', List.mem_cons_of_mem x hx', hfx'⟩

/-- Every item has its result among the results. -/
theorem mem_mapM {l : List α} {f : α → Except ε β} {ys : List β} (hl : l.mapM f = .ok ys) :
    ∀ x ∈ l, ∃ y ∈ ys, f x = .ok y := by
  induction l generalizing ys with
  | nil => exact fun x hx => absurd hx List.not_mem_nil
  | cons x rest ih =>
    rcases mapM_cons_eq_ok hl with ⟨y, zs, hx, hr, rfl⟩
    intro w hw
    rcases List.mem_cons.mp hw with rfl | hw
    · exact ⟨y, List.mem_cons_self, hx⟩
    · rcases ih hr w hw with ⟨z, hz, hfw⟩
      exact ⟨z, List.mem_cons_of_mem y hz, hfw⟩

def failure? : Except ε α → Option ε
  | .error e => some e
  | .ok _ => none

theorem failure?_eq_some_iff {x : Except ε α} {e : ε} : failure? x = some e ↔ x = .error e := by
  cases x with
  | error e' =>
    unfold failure?
    rw [Option.some.injEq, Except.error.injEq]
  | ok a => exact ⟨nofun, nofun⟩

theorem failure?_eq_none_iff {x : Except ε α} : failure? x = none ↔ ∃ a, x = .ok a := by
  cases x with
  | error e => exact ⟨nofun, fun ⟨_, h⟩ => nomatch h⟩
  | ok a => exact ⟨fun _ => ⟨a, rfl⟩, fun _ => rfl⟩

theorem ok_of_toOption_map {x : Except ε α} {f : α → β} {b : β}
    (h : x.toOption.map f = some b) : ∃ a, x = .ok a ∧ f a = b := by
  cases x with
  | error e => cases h
  | ok a => exact ⟨a, rfl, Option.some.inj h⟩

/-- What is made of a result does not change how a computation fails. -/
theorem failure?_map (x : Except ε α) (f : α → β) : failure? (x.map f) = failure? x := by
  cases x <;> rfl

/-- A list of computations fails as the first among them that fails. -/
theorem failure?_mapM (l : List α) (f : α → Except ε β) :
    failure? (l.mapM f) = l.findSome? fun x => failure? (f x) := by
  induction l with
  | nil => rfl
  | cons x rest ih =>
    rw [List.mapM_cons, List.findSome?_cons, ← ih]
    cases f x with
    | error e => rfl
    | ok y => cases rest.mapM f <;> rfl

end Mapping

end Conform
