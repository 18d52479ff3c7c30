import Mathlib.Data.List.Forall2
import Mathlib.Data.List.Nodup
import Conform.Proofs.Idempotence

/-!
# Keys — values whose mappings hold no key twice

Where no key comes twice, an entry is what its key looks up.  So it is in every value that is read
from a document (`Value.distinct_ofDocument`), and a list that is taken for a mapping has distinct
positions for keys.  Two mappings with the same keys are compared entry by entry (`Entry.Related`).
-/

namespace Conform

/-! ## 1. Distinct keys -/

namespace Entries

variable {α : Type} {entries : Entries α} {key : String} {value : α} {e : String × α}

/-- Of distinct keys each looks up the entry that it stands in. -/
theorem get?_of_mem (distinct : entries.keys.Nodup) (h : (key, value) ∈ entries) :
    entries.get? key = some value := by
  induction entries with
  | nil => exact absurd h List.not_mem_nil
  | cons first rest ih =>
    obtain ⟨k, w⟩ := first
    obtain ⟨hfresh, hrest⟩ := List.nodup_cons.mp distinct
    rw [get?_cons]
    rcases List.mem_cons.mp h with hfirst | hlater
    · cases hfirst
      exact if_pos rfl
    · have hkey : key ∈ keys rest := List.mem_map.mpr ⟨_, hlater, rfl⟩
      have hne : key ≠ k := fun heq => hfresh (heq ▸ hkey)
      rw [if_neg hne, ih hrest hlater]

/-- Only a new key is added, at the end. -/
theorem keys_insert (entries : Entries α) (key : String) (value : α) :
    (entries.insert key value).keys =
      if key ∈ entries.keys then entries.keys else entries.keys ++ [key] := by
  induction entries with
  | nil => rfl
  | cons first rest ih =>
    obtain ⟨k, w⟩ := first
    change keys (if k = key then (k, value) :: rest else (k, w) :: insert rest key value) =
      if key ∈ k :: keys rest then k :: keys rest else k :: keys rest ++ [key]
    by_cases hkey : k = key
    · rw [if_pos hkey, if_pos (hkey ▸ List.mem_cons_self)]
      rfl
    · have hmem : key ∈ k :: keys rest ↔ key ∈ keys rest := by
        rw [List.mem_cons, or_iff_right (Ne.symm hkey)]
      rw [if_neg hkey]
      change k :: keys (insert rest key value) = _
      simp only [ih, hmem]
      split <;> rfl

theorem mem_of_mem_insert (h : e ∈ entries.insert key value) : e ∈ entries ∨ e = (key, value) := by
  induction entries with
  | nil => exact .inr (List.mem_singleton.mp h)
  | cons first rest ih =>
    obtain ⟨k, w⟩ := first
    change e ∈ if k = key then (k, value) :: rest else (k, w) :: insert rest key value at h
    split at h
    · rename_i hkey
      rcases List.mem_cons.mp h with hfirst | hlater
      · exact .inr (hkey ▸ hfirst)
      · exact .inl (List.mem_cons_of_mem _ hlater)
    · rcases List.mem_cons.mp h with hfirst | hlater
      · exact .inl (hfirst ▸ List.mem_cons_self)
      · exact (ih hlater).imp_left (List.mem_cons_of_mem _)

/-- An entry under a new key stands behind the others. -/
theorem insert_of_not_mem (fresh : key ∉ entries.keys) :
    entries.insert key value = entries ++ [(key, value)] := by
  induction entries with
  | nil => rfl
  | cons first rest ih =>
    obtain ⟨k, w⟩ := first
    obtain ⟨hne, hfresh⟩ := List.ne_and_not_mem_of_not_mem_cons fresh
    change (if k = key then (k, value) :: rest else (k, w) :: insert rest key value) = _
    rw [if_neg (Ne.symm hne), ih hfresh]
    rfl

/-- Pairs that are inserted one after the other give entries with distinct keys, each of which is
one of the pairs. -/
theorem ofList_distinct (pairs : List (String × α)) :
    (ofList pairs).keys.Nodup ∧ ∀ e ∈ ofList pairs, e ∈ pairs := by
  -- By induction on the pairs, from any entries with distinct keys that they are inserted into.
  suffices hfold : ∀ entries : Entries α, entries.keys.Nodup →
      (keys (pairs.foldl (fun entries pair => entries.insert pair.1 pair.2) entries)).Nodup ∧
        ∀ e ∈ pairs.foldl (fun entries pair => entries.insert pair.1 pair.2) entries,
          e ∈ entries ∨ e ∈ pairs by
    obtain ⟨hdistinct, hmem⟩ := hfold [] List.nodup_nil
    exact ⟨hdistinct, fun e he => (hmem e he).resolve_left List.not_mem_nil⟩
  induction pairs with
  | nil => exact fun entries h => ⟨h, fun e he => .inl he⟩
  | cons pair rest ih =>
    intro entries h
    have hinsert : (entries.insert pair.1 pair.2).keys.Nodup := by
      rw [keys_insert]
      split
      · exact h
      · rename_i hfresh
        exact h.append (List.nodup_singleton _) (List.disjoint_singleton.mpr hfresh)
    obtain ⟨hdistinct, hmem⟩ := ih _ hinsert
    refine ⟨hdistinct, fun e he => ?_⟩
    rcases hmem e he with he | he
    · exact (mem_of_mem_insert he).imp_right fun hpair => List.mem_cons.mpr (.inl hpair)
    · exact .inr (List.mem_cons_of_mem _ he)

/-- Pairs with distinct keys are inserted as they are. -/
theorem ofList_eq_self {pairs : List (String × α)} (distinct : (keys pairs).Nodup) :
    ofList pairs = pairs := by
  -- By induction on the pairs, behind any entries that they are inserted into.
  suffices hfold : ∀ entries : Entries α, (keys (entries ++ pairs)).Nodup →
      pairs.foldl (fun entries pair => entries.insert pair.1 pair.2) entries = entries ++ pairs from
    hfold [] distinct
  clear distinct
  induction pairs with
  | nil => exact fun entries _ => (List.append_nil entries).symm
  | cons pair rest ih =>
    intro entries h
    have hfresh : pair.1 ∉ entries.keys := by
      unfold keys at h
      rw [List.map_append, List.nodup_append] at h
      exact fun hkey => h.2.2 _ hkey _ List.mem_cons_self rfl
    have hinsert : entries.insert pair.1 pair.2 = entries ++ [pair] := insert_of_not_mem hfresh
    rw [List.foldl_cons, hinsert, ih, List.append_assoc, List.singleton_append]
    rwa [List.append_assoc, List.singleton_append]

end Entries

/-! ## 2. Entries under the same keys -/

inductive Entry.Related {α β : Type} (R : α → β → Prop) : String × α → String × β → Prop
  | intro {key : String} {a : α} {b : β} (value : R a b) : Related R (key, a) (key, b)

section Related

variable {α β : Type} {R : α → β → Prop} {entries : Entries α} {entries' : Entries β}

theorem Entry.Related.key {e : String × α} {e' : String × β} (h : Entry.Related R e e') :
    e'.1 = e.1 := by
  cases h
  rfl

theorem keys_of_related (h : List.Forall₂ (Entry.Related R) entries entries') :
    entries'.keys = entries.keys := by
  induction h with
  | nil => rfl
  | cons first _ ih => exact congrArg₂ List.cons first.key ih

/-- Two lookups of one key find nothing, or values that are related. -/
theorem get?_of_related (h : List.Forall₂ (Entry.Related R) entries entries') (key : String) :
    Option.Rel R (entries.get? key) (entries'.get? key) := by
  induction h with
  | nil => exact .none
  | @cons _ _ _ _ first _ ih =>
    obtain ⟨value⟩ := first
    rw [Entries.get?_cons, Entries.get?_cons]
    split
    · exact .some value
    · exact ih

theorem rel_optionMap {γ δ : Type} {S : γ → δ → Prop} {f : α → γ} {g : β → δ} {x : Option α}
    {y : Option β} (h : Option.Rel R x y) (each : ∀ a b, R a b → S (f a) (g b)) :
    Option.Rel S (x.map f) (y.map g) := by
  cases h with
  | none => exact .none
  | some related => exact .some (each _ _ related)

theorem forall₂_zipIdx {xs : List α} {ys : List β} (h : List.Forall₂ R xs ys) (position : Nat) :
    List.Forall₂ (fun c c' => c'.2 = c.2 ∧ R c.1 c'.1) (xs.zipIdx position)
      (ys.zipIdx position) := by
  induction h generalizing position with
  | nil => exact .nil
  | cons first _ ih => exact .cons ⟨rfl, first⟩ (ih (position + 1))

end Related

/-! ## 3. Distinct keys all over a value -/

/-- No mapping in the value holds a key twice. -/
def Value.Distinct (v : Value) : Prop :=
  ∀ entries : Entries Value, (Value.map entries).Within v → entries.keys.Nodup

namespace Value

variable {v w : Value} {entries : Entries Value} {items : List Value}

theorem Distinct.within (h : v.Distinct) (hw : w.Within v) : w.Distinct :=
  fun entries hentries => h entries (hentries.trans hw)

/-- What stands for a value without repeated keys has none either. -/
theorem Distinct.represented (h : v.Distinct) : v.represented.Distinct :=
  h.within v.represented_within

/-- A mapping is distinct when its keys are and its values are. -/
theorem distinct_map :
    (map entries).Distinct ↔ entries.keys.Nodup ∧ ∀ e ∈ entries, e.2.Distinct := by
  constructor
  · exact fun h => ⟨h entries (.self _), fun e he => h.within (.entry he (.self e.2))⟩
  · rintro ⟨hkeys, hvalues⟩ given hgiven
    cases hgiven with
    | self => exact hkeys
    | entry mem within => exact hvalues _ mem given within

theorem distinct_list : (list items).Distinct ↔ ∀ item ∈ items, item.Distinct := by
  constructor
  · exact fun h item hitem => h.within (.item hitem (.self item))
  · intro h given hgiven
    cases hgiven with
    | item mem within => exact h _ mem given within

theorem distinct_external {handle : Nat} (h : v.Distinct) : (external handle v).Distinct := by
  intro given hgiven
  cases hgiven with
  | representation within => exact h given within

/-- A position is read back from its digits. -/
theorem positionText_injective : Function.Injective (toString : Nat → String) := by
  intro m n h
  have hdigits : Nat.toDigits 10 m = Nat.toDigits 10 n := String.ofList_injective h
  rw [← Nat.ofDigitChars_toDigits (b := 10) (n := m) (by decide) (by decide), hdigits,
    Nat.ofDigitChars_toDigits (by decide) (by decide)]

/-- A list is keyed by its positions, in order. -/
theorem keys_entriesOfList (items : List Value) :
    (entriesOfList items).keys = (List.range items.length).map toString := by
  unfold entriesOfList Entries.keys
  rw [List.map_map, List.range_eq_range', ← List.zipIdx_map_snd 0 items, List.map_map]
  rfl

/-- Positions are keys that come once each. -/
theorem keys_entriesOfList_nodup (items : List Value) : (entriesOfList items).keys.Nodup := by
  rw [keys_entriesOfList]
  exact List.nodup_range.map positionText_injective

theorem Distinct.keyed? (h : v.Distinct) (hv : v.keyed? = some entries) : entries.keys.Nodup := by
  cases v with
  | map given =>
    cases hv
    exact h entries (.self _)
  | list items =>
    cases hv
    exact keys_entriesOfList_nodup items
  | _ => cases hv

/-- The children of a value without repeated keys have none. -/
theorem Distinct.branch {schema : Schema} {b : Branch} (h : v.Distinct)
    (hb : b ∈ v.branches schema) : b.value.Distinct := by
  rcases branch_within hb with hwithin | hempty
  · exact h.within hwithin
  · rw [hempty]
    exact distinct_map.mpr ⟨List.nodup_nil, fun e he => absurd he List.not_mem_nil⟩

mutual

/-- A document becomes a value without repeated keys, even where it has some. -/
theorem distinct_ofDocument (d : Document) : (ofDocument d).Distinct := by
  cases d with
  | list items => exact distinct_list.mpr (distinct_ofDocuments items)
  | map pairs =>
    obtain ⟨hkeys, hmem⟩ := Entries.ofList_distinct (ofDocumentPairs pairs)
    exact distinct_map.mpr ⟨hkeys, fun e he => distinct_ofDocumentPairs pairs e (hmem e he)⟩
  | _ => exact fun entries h => nomatch h

theorem distinct_ofDocuments (items : List Document) : ∀ v ∈ ofDocuments items, v.Distinct := by
  cases items with
  | nil => exact fun v hv => absurd hv List.not_mem_nil
  | cons item rest =>
    exact List.forall_mem_cons.mpr ⟨distinct_ofDocument item, distinct_ofDocuments rest⟩

theorem distinct_ofDocumentPairs (pairs : List (String × Document)) :
    ∀ e ∈ ofDocumentPairs pairs, e.2.Distinct := by
  cases pairs with
  | nil => exact fun e he => absurd he List.not_mem_nil
  | cons pair rest =>
    obtain ⟨key, value⟩ := pair
    exact List.forall_mem_cons.mpr ⟨distinct_ofDocument value, distinct_ofDocumentPairs rest⟩

end

end Value

end Conform
