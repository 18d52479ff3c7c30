import Mathlib.Data.List.Forall2
import Mathlib.Data.Multiset.Bind
import Conform.Proofs.Completion
import Conform.Proofs.Grammar
import Conform.Proofs.Keys

/-!
# Equality — values that are the same but for the order of keys

Mappings are equal whatever the order of their keys, and the two zeros are equal numbers.  Equality
is computed by lookups; without external values it says that two values are built in the same way,
with the entries of a mapping as a multiset (`Value.same_of_eqv`, `Value.Same.eqv`), and nothing
that is asked about a value tells equal ones apart.
-/

namespace Conform

/-! ## 1. Equal numbers -/

namespace Number

variable {a b c : Number}

/-- Equal numbers are one number, or both are zero. -/
theorem eq_or_zeros_of_eqv (h : a.eqv b = true) :
    a = b ∨ ∃ s t, a = signedZero s ∧ b = signedZero t := by
  cases a with
  | nan => cases h
  | infinite s =>
    cases b with
    | infinite t => exact .inl (congrArg infinite (beq_iff_eq.mp h))
    | _ => cases h
  | finite s m =>
    cases b with
    | finite t n =>
      obtain ⟨m, hm⟩ := m
      obtain ⟨n, hn⟩ := n
      have hunits : signedUnits s ⟨m, hm⟩ = signedUnits t ⟨n, hn⟩ := beq_iff_eq.mp h
      by_cases hsign : s = t ∧ m = n
      · obtain ⟨rfl, rfl⟩ := hsign
        exact .inl rfl
      · -- Units that are equal up to a sign that differs are none at all.
        have hzeros : m = 0 ∧ n = 0 := by
          unfold signedUnits at hunits
          cases s <;> cases t <;> simp at hunits hsign <;> omega
        obtain ⟨rfl, rfl⟩ := hzeros
        exact .inr ⟨s, t, rfl, rfl⟩
    | _ => cases h

/-- What does not tell the zeros apart does not tell equal numbers apart. -/
theorem congr_of_eqv {α : Type} {f : Number → α}
    (zeros : f (signedZero true) = f (signedZero false)) (h : a.eqv b = true) : f b = f a := by
  obtain rfl | ⟨s, t, rfl, rfl⟩ := eq_or_zeros_of_eqv h
  · rfl
  · cases s <;> cases t
    · rfl
    · exact zeros
    · exact zeros.symm
    · rfl

theorem eqv_self (h : a.isFinite = true) : a.eqv a = true := by
  cases a with
  | finite s m => exact beq_self_eq_true _
  | _ => cases h

theorem isFinite_of_eqv (h : a.eqv b = true) : b.isFinite = a.isFinite := congr_of_eqv rfl h

theorem isIntegral_of_eqv (h : a.eqv b = true) : b.isIntegral = a.isIntegral := by
  refine congr_of_eqv ?_ h
  unfold isIntegral signedZero
  rfl

/-- Equal numbers are written alike: both zeros are `0`. -/
theorem format_of_eqv (h : a.eqv b = true) : b.format = a.format := by
  have hzero (s : Bool) : (signedZero s).format = "0" := if_pos (by cases s <;> rfl)
  exact congr_of_eqv ((hzero true).trans (hzero false).symm) h

theorem lt_left_of_eqv (h : a.eqv b = true) : b.lt c = a.lt c := by
  refine congr_of_eqv (f := (lt · c)) ?_ h
  cases c with
  | infinite t => cases t <;> rfl
  | _ => rfl

theorem lt_right_of_eqv (h : a.eqv b = true) : c.lt b = c.lt a := by
  refine congr_of_eqv (f := lt c) ?_ h
  cases c with
  | infinite t => cases t <;> rfl
  | _ => rfl

end Number

/-- Equal numbers are written as one document. -/
theorem Document.ofNumber_of_eqv {a b : Number} (h : a.eqv b = true) : ofNumber b = ofNumber a := by
  have hzero (s : Bool) : ofNumber (.signedZero s) = .integer 0 := by
    unfold ofNumber Number.isExactInteger Number.truncate Number.signedZero
    simp [Number.one_pos]
  exact Number.congr_of_eqv ((hzero true).trans (hzero false).symm) h

/-! ## 2. Lists that are related in some order -/

section Order

variable {α β γ δ : Type} {R : α → β → Prop} {S : γ → δ → Prop} {xs us : List α} {ys vs : List β}

abbrev InSomeOrder (R : α → β → Prop) (xs : List α) (ys : List β) : Prop :=
  Multiset.Rel R (xs : Multiset α) (ys : Multiset β)

/-- Items that are related are so in another way if that holds of the items of the two lists. -/
theorem forall₂_mono {T : α → β → Prop} (h : List.Forall₂ R xs ys)
    (himp : ∀ x ∈ xs, ∀ y ∈ ys, R x y → T x y) : List.Forall₂ T xs ys := by
  rw [List.forall₂_iff_zip] at h ⊢
  refine ⟨h.1, fun {x y} hmem => ?_⟩
  obtain ⟨hx, hy⟩ := List.of_mem_zip hmem
  exact himp x hx y hy (h.2 hmem)

namespace InSomeOrder

theorem of_forall₂ (h : List.Forall₂ R xs ys) : InSomeOrder R xs ys := by
  induction h with
  | nil => exact .zero
  | cons first _ ih => exact .cons first ih

theorem of_perm (h : List.Forall₂ R xs ys) (order : ys.Perm vs) : InSomeOrder R xs vs := by
  have hordered : InSomeOrder R xs ys := of_forall₂ h
  rwa [InSomeOrder, Multiset.coe_eq_coe.mpr order] at hordered

/-- A weaker relation may be asked for item by item. -/
theorem mono {T : α → β → Prop} (h : InSomeOrder R xs ys)
    (himp : ∀ x ∈ xs, ∀ y ∈ ys, R x y → T x y) : InSomeOrder T xs ys :=
  Multiset.Rel.mono h himp

theorem length_eq (h : InSomeOrder R xs ys) : ys.length = xs.length :=
  (Multiset.card_eq_card_of_rel h).symm

/-- Every item has a partner, whatever the order. -/
theorem exists_of_mem (h : InSomeOrder R xs ys) {x : α} (hx : x ∈ xs) : ∃ y ∈ ys, R x y :=
  Multiset.exists_mem_of_rel_of_mem h (Multiset.mem_coe.mpr hx)

theorem exists_of_mem_right (h : InSomeOrder R xs ys) {y : β} (hy : y ∈ ys) : ∃ x ∈ xs, R x y :=
  Multiset.exists_mem_of_rel_of_mem (Multiset.rel_flip.mpr h) (Multiset.mem_coe.mpr hy)

/-- What holds of one of two related items when it holds of the other holds of all items of both
lists, or of neither. -/
theorem forall_iff {p : α → Prop} {q : β → Prop} (h : InSomeOrder R xs ys)
    (each : ∀ x y, R x y → (p x ↔ q y)) : (∀ x ∈ xs, p x) ↔ ∀ y ∈ ys, q y := by
  constructor
  · intro hall y hy
    obtain ⟨x, hx, hxy⟩ := h.exists_of_mem_right hy
    exact (each x y hxy).mp (hall x hx)
  · intro hall x hx
    obtain ⟨y, hy, hxy⟩ := h.exists_of_mem hx
    exact (each x y hxy).mpr (hall y hy)

theorem append (h : InSomeOrder R xs ys) (h' : InSomeOrder R us vs) :
    InSomeOrder R (xs ++ us) (ys ++ vs) := by
  have hsum := Multiset.Rel.add h h'
  rwa [Multiset.coe_add, Multiset.coe_add] at hsum

theorem map {f : α → γ} {g : β → δ} (h : InSomeOrder R xs ys)
    (each : ∀ x y, R x y → S (f x) (g y)) : InSomeOrder S (xs.map f) (ys.map g) := by
  have hmap : Multiset.Rel S (Multiset.map f xs) (Multiset.map g ys) :=
    Multiset.rel_map.mpr (h.mono fun x _ y _ => each x y)
  rwa [Multiset.map_coe, Multiset.map_coe] at hmap

/-- If related items have lists that agree in some order, so have all of them together. -/
theorem flatMap {f : α → List γ} {g : β → List δ} (h : InSomeOrder R xs ys)
    (each : ∀ x y, R x y → InSomeOrder S (f x) (g y)) :
    InSomeOrder S (xs.flatMap f) (ys.flatMap g) := by
  have hbind : Multiset.Rel S (Multiset.bind xs fun x => f x) (Multiset.bind ys fun y => g y) :=
    Multiset.rel_bind (fun x y hxy => each x y hxy) h
  rwa [Multiset.coe_bind, Multiset.coe_bind] at hbind

theorem filterMap {f : α → Option γ} {g : β → Option δ} (h : InSomeOrder R xs ys)
    (each : ∀ x y, R x y → Option.Rel S (f x) (g y)) :
    InSomeOrder S (xs.filterMap f) (ys.filterMap g) := by
  rw [List.filterMap_eq_flatMap_toList, List.filterMap_eq_flatMap_toList]
  refine h.flatMap fun x y hxy => ?_
  have hrelated := each x y hxy
  generalize f x = found at hrelated ⊢
  generalize g y = found' at hrelated ⊢
  cases hrelated with
  | none => exact .zero
  | some related => exact .cons related .zero

end InSomeOrder

end Order

/-! ## 3. Equal values -/

/-- Two values without external values that are built in the same way, with equal numbers, and with
the entries of a mapping in whatever order. -/
inductive Value.Same : Value → Value → Prop
  | null : Same .null .null
  | bool (b : Bool) : Same (.bool b) (.bool b)
  | number {a b : Number} (equal : a.eqv b = true) : Same (.number a) (.number b)
  | string (s : String) : Same (.string s) (.string s)
  | regex (p : Pattern) : Same (.regex p) (.regex p)
  | list {items items' : List Value} (each : List.Forall₂ Same items items') :
    Same (.list items) (.list items')
  | map {entries entries' : Entries Value} (distinct : entries.keys.Nodup)
    (each : Multiset.Rel (Entry.Related Same) (entries : Multiset (String × Value))
      (entries' : Multiset (String × Value))) : Same (.map entries) (.map entries')

/-- What holds of a value when it holds of its items, its entries and its representation. -/
theorem Value.induction {P : Value → Prop} (null : P .null) (bool : ∀ b, P (.bool b))
    (number : ∀ n, P (.number n)) (string : ∀ s, P (.string s)) (regex : ∀ p, P (.regex p))
    (list : ∀ items, (∀ item ∈ items, P item) → P (.list items))
    (map : ∀ entries, (∀ e ∈ entries, P e.2) → P (.map entries))
    (external : ∀ handle v, P v → P (.external handle v)) (v : Value) : P v := by
  match v with
  | .null => exact null
  | .bool b => exact bool b
  | .number n => exact number n
  | .string s => exact string s
  | .regex p => exact regex p
  | .list items =>
    exact list items fun item hitem =>
      Value.induction null bool number string regex list map external item
  | .map entries =>
    exact map entries fun e he =>
      Value.induction null bool number string regex list map external e.2
  | .external handle v =>
    exact external handle v (Value.induction null bool number string regex list map external v)
termination_by sizeOf v
decreasing_by
  · exact sizeOf_item_lt hitem
  · exact sizeOf_entry_lt he
  · decreasing_tactic

section Entries

variable {α β : Type} {R : α → β → Prop} {entries : Entries α} {entries' : Entries β}

theorem InSomeOrder.keys (h : InSomeOrder (Entry.Related R) entries entries') :
    entries.keys.Perm entries'.keys := by
  have hkeys : InSomeOrder Eq entries.keys entries'.keys := h.map fun e e' he => he.key.symm
  exact Multiset.coe_eq_coe.mp (Multiset.rel_eq.mp hkeys)

/-- Of distinct keys, each looks up related values. -/
theorem InSomeOrder.get? (h : InSomeOrder (Entry.Related R) entries entries')
    (distinct : entries.keys.Nodup) (key : String) :
    Option.Rel R (entries.get? key) (entries'.get? key) := by
  have distinct' : entries'.keys.Nodup := h.keys.nodup distinct
  cases hget : entries.get? key with
  | some a =>
    obtain ⟨e', he', ⟨value⟩⟩ := h.exists_of_mem (Entries.mem_of_get? hget)
    rw [Entries.get?_of_mem distinct' he']
    exact .some value
  | none =>
    cases hget' : entries'.get? key with
    | none => exact .none
    | some b =>
      obtain ⟨e, he, ⟨value⟩⟩ := h.exists_of_mem_right (Entries.mem_of_get? hget')
      rw [Entries.get?_of_mem distinct he] at hget
      cases hget

theorem InSomeOrder.contains (h : InSomeOrder (Entry.Related R) entries entries') (key : String) :
    entries'.contains key = entries.contains key := by
  rw [Bool.eq_iff_iff, Entries.contains_iff, Entries.contains_iff]
  exact h.keys.mem_iff.symm

/-- Where every key of one mapping is found in another of the same length, all entries are. -/
theorem InSomeOrder.of_get? (distinct : entries.keys.Nodup)
    (length : entries.length = entries'.length)
    (found : ∀ e ∈ entries, ∃ b, entries'.get? e.1 = some b ∧ R e.2 b) :
    InSomeOrder (Entry.Related R) entries entries' := by
  -- What is found, in the order of the first mapping, is the second in another order.
  obtain ⟨between, heach, hfound⟩ : ∃ between : Entries β,
      List.Forall₂ (Entry.Related R) entries between ∧ ∀ e ∈ between, e ∈ entries' := by
    clear distinct length
    induction entries with
    | nil => exact ⟨[], .nil, fun e he => absurd he List.not_mem_nil⟩
    | cons e rest ih =>
      obtain ⟨⟨b, hget, hb⟩, hrest⟩ := List.forall_mem_cons.mp found
      obtain ⟨between, heach, hfound⟩ := ih hrest
      exact ⟨(e.1, b) :: between, .cons ⟨hb⟩ heach,
        List.forall_mem_cons.mpr ⟨Entries.mem_of_get? hget, hfound⟩⟩
  have hnodup : between.Nodup := by
    apply List.Nodup.of_map Prod.fst
    change between.keys.Nodup
    rw [keys_of_related heach]
    exact distinct
  have horder : between.Perm entries' := by
    refine (List.subperm_of_subset hnodup hfound).perm_of_length_le ?_
    rw [← heach.length_eq, length]
  exact .of_perm heach horder

end Entries

namespace Value

variable {v w : Value} {items items' : List Value} {entries entries' : Entries Value}

theorem eqvItems_iff :
    eqvItems items items' = true ↔ List.Forall₂ (fun a b => a.eqv b = true) items items' := by
  induction items generalizing items' with
  | nil => cases items' <;> simp [eqvItems]
  | cons item rest ih => cases items' <;> simp [eqvItems, ih]

/-- Mappings are equal when every entry has an equal one under its key. -/
theorem eqvEntries_iff :
    eqvEntries entries entries' = true ↔
      ∀ e ∈ entries, ∃ b, entries'.get? e.1 = some b ∧ e.2.eqv b = true := by
  induction entries with
  | nil => simp [eqvEntries]
  | cons e rest ih =>
    obtain ⟨key, a⟩ := e
    rw [eqvEntries, Bool.and_eq_true, ih, List.forall_mem_cons]
    refine and_congr_left fun _ => ?_
    unfold Entries.get?
    cases entries'.lookup key <;> simp

/-- Among values without external ones, equal values are built in the same way. -/
theorem same_of_eqv (h : v.eqv w = true) (native : v.Native) (distinct : v.Distinct)
    (distinct' : w.Distinct) : v.Same w := by
  induction v using Value.induction generalizing w with
  | null =>
    cases w with
    | null => exact .null
    | _ => cases h
  | bool b =>
    cases w with
    | bool b' => exact beq_iff_eq.mp h ▸ .bool b
    | _ => cases h
  | number n =>
    cases w with
    | number n' => exact .number h
    | _ => cases h
  | string s =>
    cases w with
    | string s' => exact beq_iff_eq.mp h ▸ .string s
    | _ => cases h
  | regex p =>
    cases w with
    | regex p' => exact of_decide_eq_true h ▸ .regex p
    | _ => cases h
  -- External values equal themselves only, but there are none.
  | external handle v => exact absurd (.self _) (native handle v)
  | list items ih =>
    cases w with
    | list items' =>
      rw [eqv, eqvItems_iff] at h
      refine .list (forall₂_mono h fun item hitem item' hitem' hequal => ?_)
      exact ih item hitem hequal (native.within (.item hitem (.self item)))
        (distinct_list.mp distinct item hitem) (distinct_list.mp distinct' item' hitem')
    | _ => cases h
  | map entries ih =>
    cases w with
    | map entries' =>
      rw [eqv, Bool.and_eq_true, beq_iff_eq, eqvEntries_iff] at h
      obtain ⟨hlength, hfound⟩ := h
      obtain ⟨hkeys, hvalues⟩ := distinct_map.mp distinct
      -- As many entries under distinct keys: each one found is another one.
      refine .map hkeys (InSomeOrder.of_get? hkeys hlength fun e he => ?_)
      obtain ⟨b, hget, hb⟩ := hfound e he
      exact ⟨b, hget, ih e he hb (native_map.mp native e he) (hvalues e he)
        ((distinct_map.mp distinct').2 _ (Entries.mem_of_get? hget))⟩
    | _ => cases h

theorem Same.eqv (h : v.Same w) : v.eqv w = true := by
  induction v using Value.induction generalizing w with
  | null =>
    cases h
    rfl
  | bool b =>
    cases h
    exact beq_self_eq_true b
  | number n =>
    cases h with
    | number equal => exact equal
  | string s =>
    cases h
    exact beq_self_eq_true s
  | regex p =>
    cases h
    exact decide_eq_true rfl
  | external handle v => cases h
  | list items ih =>
    cases h with
    | list each =>
      rw [Value.eqv, eqvItems_iff]
      exact forall₂_mono each fun item hitem _ _ hsame => ih item hitem hsame
  | map entries ih =>
    cases h with
    | @map _ entries' distinct each =>
      have hlength : entries'.length = entries.length := InSomeOrder.length_eq each
      have distinct' : entries'.keys.Nodup := (InSomeOrder.keys each).nodup distinct
      rw [Value.eqv, Bool.and_eq_true, beq_iff_eq, eqvEntries_iff]
      refine ⟨hlength.symm, fun e he => ?_⟩
      obtain ⟨e', he', hrelated⟩ := InSomeOrder.exists_of_mem each he
      obtain ⟨value⟩ := id hrelated
      exact ⟨_, Entries.get?_of_mem distinct' he', ih _ he value⟩

/-! ## 4. What is asked of equal values -/

structure EntriesSame (entries entries' : Entries Value) : Prop where
  distinct : entries.keys.Nodup
  each : InSomeOrder (Entry.Related Same) entries entries'

/-- Values that are the same have the same representations. -/
theorem Same.represented (h : v.Same w) : v.represented.Same w.represented := by
  cases h with
  | null => exact .null
  | bool b => exact .bool b
  | number equal => exact .number equal
  | string s => exact .string s
  | regex p => exact .regex p
  | list each => exact .list each
  | map distinct each => exact .map distinct each

theorem Same.keyed? (h : v.Same w) : Option.Rel EntriesSame v.keyed? w.keyed? := by
  cases h with
  | list each =>
    refine .some ⟨keys_entriesOfList_nodup _, .of_forall₂ ?_⟩
    refine List.rel_map (fun c c' hc => ?_) (forall₂_zipIdx each 0)
    obtain ⟨item, position⟩ := c
    obtain ⟨item', position'⟩ := c'
    obtain ⟨rfl, value⟩ := hc
    exact ⟨value⟩
  | map distinct each => exact .some ⟨distinct, each⟩
  | _ => exact .none

/-- The order of the keys does not count where one is looked up. -/
theorem Same.hasKey (h : v.Same w) (key : String) : w.hasKey key = v.hasKey key := by
  cases h with
  | list each =>
    unfold Value.hasKey
    dsimp only
    rw [each.length_eq]
  | map distinct each => exact InSomeOrder.contains each key
  | _ => rfl

theorem Same.string? (h : v.Same w) : w.string? = v.string? := by
  cases h <;> rfl

theorem Same.number?_isSome (h : v.Same w) : w.number?.isSome = v.number?.isSome := by
  cases h <;> rfl

theorem Same.coerceString? (h : v.Same w) : coerceString? w = coerceString? v := by
  cases h with
  | number equal =>
    unfold Conform.coerceString?
    dsimp only
    rw [Number.format_of_eqv equal]
  | _ => rfl

/-- The numbers that equal values stand for are equal. -/
theorem Same.coerceNumber? (h : v.Same w) :
    Option.Rel (fun a b => a.eqv b = true) (coerceNumber? v) (coerceNumber? w) := by
  cases h with
  | number equal =>
    unfold Conform.coerceNumber?
    dsimp only
    rw [Number.isFinite_of_eqv equal]
    split
    · exact .some equal
    · exact .none
  | string s =>
    cases hnumber : Conform.coerceNumber? (.string s) with
    | none => exact .none
    | some n => exact .some (Number.eqv_self (coerceNumber?_isFinite hnumber))
  | _ => exact .none

end Value

/-- Two documents that are the same but for the order of the pairs of their mappings. -/
inductive Document.Reordered : Document → Document → Prop
  | same (d : Document) : Reordered d d
  | list {items items' : List Document} (each : List.Forall₂ Reordered items items') :
    Reordered (.list items) (.list items')
  | map {pairs pairs' : List (String × Document)}
    (each : Multiset.Rel (Entry.Related Reordered) (pairs : Multiset (String × Document))
      (pairs' : Multiset (String × Document))) : Reordered (.map pairs) (.map pairs')

namespace Value

variable {v w : Value}

theorem toDocuments_eq (items : List Value) : toDocuments items = items.map toDocument := by
  induction items with
  | nil => rfl
  | cons item rest ih => rw [toDocuments, ih, List.map_cons]

theorem toDocumentEntries_eq (entries : Entries Value) :
    toDocumentEntries entries = entries.map fun e => (e.1, e.2.toDocument) := by
  induction entries with
  | nil => rfl
  | cons e rest ih => rw [toDocumentEntries, ih, List.map_cons]

/-- Equal values are written as documents that differ in the order of pairs alone. -/
theorem Same.toDocument (h : v.Same w) : v.toDocument.Reordered w.toDocument := by
  induction v using Value.induction generalizing w with
  | number n =>
    cases h with
    | number equal =>
      unfold Value.toDocument
      rw [Document.ofNumber_of_eqv equal]
      exact .same _
  | list items ih =>
    cases h with
    | list each =>
      unfold Value.toDocument
      rw [toDocuments_eq, toDocuments_eq]
      refine .list (List.forall₂_map_left_iff.mpr (List.forall₂_map_right_iff.mpr ?_))
      exact forall₂_mono each fun item hitem _ _ hsame => ih item hitem hsame
  | map entries ih =>
    cases h with
    | @map _ entries' distinct each =>
      have hentries : InSomeOrder
          (Entry.Related fun a b => a.toDocument.Reordered b.toDocument) entries entries' := by
        refine InSomeOrder.mono each fun e he e' _ hrelated => ?_
        obtain ⟨value⟩ := hrelated
        exact ⟨ih _ he value⟩
      unfold Value.toDocument
      rw [toDocumentEntries_eq, toDocumentEntries_eq]
      refine .map (hentries.map fun e e' hrelated => ?_)
      obtain ⟨reordered⟩ := hrelated
      exact ⟨reordered⟩
  | external handle v => cases h
  | _ =>
    cases h
    exact .same _

end Value

end Conform
